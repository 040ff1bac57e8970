/-!
# Files by name

The files that a trace can be written to: a tree of directories, and the texts in it. A path is
written with `/` between its parts; an empty part and `.` stay where they are, and `..` goes up.
Directories are made before the file in them, so that they stay where the file cannot be made.

* `Files.makeDirectories` — makes the directories of a path;
* `Files.create` — makes the directories that a path needs and an empty file at its end;
* `Files.append`, `Files.read?` — a file's text;
* `Files.text?_of_create_none`, `Files.text?_of_create_some` — the texts after a file has not, or
  has, been opened.
-/

namespace Formulary

/-- The names from the root of the tree down to a file or directory. -/
abbrev Path := List String

/-- Directories, and files with their text. -/
structure Files where
  /-- the directories but for the root -/
  directories : List Path
  /-- the files; a path stands here once -/
  texts : List (Path × String)

namespace Files

/-- Whether a part of a path leads somewhere: an empty part and `.` do not. -/
def leads (part : String) : Bool := part ≠ "" ∧ part ≠ "."

/-- The parts of a path that lead somewhere. -/
def parts (path : String) : List String := (path.splitOn "/").filter leads

/-- What a path says but for its last part that leads somewhere, and that part. -/
def splitName? (path : String) : Option (String × String) :=
  match (path.splitOn "/").reverse.dropWhile (!leads ·) with
  | [] => none
  | name :: before => some ("/".intercalate (before.dropWhile (!leads ·)).reverse, name)

/-- Whether a path says by its form that it is a directory. -/
def namesDirectory (path : String) : Bool := path.endsWith "/" || path.endsWith "/." || path == "."

/-- A name has at most this many bytes. -/
def maxNameBytes : Nat := 255

/-- A path has at most this many bytes. -/
def maxPathBytes : Nat := 4095

/-- Whether a text can be followed as a path at all: it is not too long, and there is no zero
character in it. -/
def isPath (path : String) : Bool := path.utf8ByteSize ≤ maxPathBytes ∧ !path.contains '\x00'

/-- Whether there is a directory. -/
def isDirectory (files : Files) (path : Path) : Bool :=
  path == [] || files.directories.contains path

/-- The text of a file. -/
def text? (files : Files) (path : Path) : Option String :=
  (files.texts.find? fun file => file.1 = path).map Prod.snd

/-- The same files with another text in one of them, which is made if it is not there. -/
def put (files : Files) (path : Path) (text : String) : Files :=
  { files with texts := (path, text) :: files.texts.filter fun file => file.1 ≠ path }

/-- The directory that parts lead to from another one. Directories on the way are made where they
are missing; a file on the way, or a name that is too long, ends the way. -/
def descend (files : Files) (path : Path) : List String → Files × Option Path
  | [] => (files, some path)
  | part :: parts =>
    if part = ".." then descend files path.dropLast parts
    else
      let next := path ++ [part]
      if (files.text? next).isSome ∨ maxNameBytes < part.utf8ByteSize then (files, none)
      else if files.isDirectory next then descend files next parts
      else descend { files with directories := next :: files.directories } next parts

/-- The file that parts lead to, if all directories on the way are there. -/
def find? (files : Files) (path : Path) : List String → Option Path
  | [] => none
  | [name] => if (files.text? (path ++ [name])).isSome then some (path ++ [name]) else none
  | part :: parts =>
    if part = ".." then find? files path.dropLast parts
    else if files.isDirectory (path ++ [part]) then find? files (path ++ [part]) parts
    else none

/-- Makes the directories of a path. A text that is no path makes none of them, also where it
begins with the names of directories. -/
def makeDirectories (files : Files) (path : String) : Files × Option Path :=
  if isPath path then files.descend [] (parts path) else (files, none)

/-- Makes the directories that a path needs and an empty file at its end. There is no file at the
end if the path leads through a file or ends at a directory, or if its last name is no name; the
directories before it are there all the same. -/
def create (files : Files) (path : String) : Files × Option Path :=
  match splitName? path with
  | none => (files, none)
  | some (before, name) =>
    match files.makeDirectories before with
    | (files, none) => (files, none)
    | (files, some directory) =>
      let file := directory ++ [name]
      if !isPath path ∨ name = ".." ∨ namesDirectory path ∨ files.isDirectory file ∨
          maxNameBytes < name.utf8ByteSize then
        (files, none)
      else (files.put file "", some file)

/-- Adds to the text of a file. -/
def append (files : Files) (path : Path) (text : String) : Files :=
  files.put path ((files.text? path).getD "" ++ text)

/-- The text of the file that a path leads to. -/
def read? (files : Files) (path : String) : Option String :=
  if !isPath path ∨ namesDirectory path then none
  else (files.find? [] (parts path)).bind files.text?

/-! ## A file's text -/

@[simp] theorem text?_put_self (files : Files) (path : Path) (text : String) :
    (files.put path text).text? path = some text := by
  simp [put, text?]

theorem text?_put_of_ne (files : Files) {path other : Path} (text : String) (h : other ≠ path) :
    (files.put path text).text? other = files.text? other := by
  have hp : path ≠ other := Ne.symm h
  simp only [put, text?, List.find?_cons, hp, decide_false, List.find?_filter]
  congr 2
  funext file
  by_cases hf : file.1 = other
  · simp [hf, h]
  · simp [hf]

theorem text?_append_self (files : Files) {path : Path} {text : String} (more : String)
    (h : files.text? path = some text) :
    (files.append path more).text? path = some (text ++ more) := by
  simp [append, h]

theorem text?_append_of_ne (files : Files) {path other : Path} (more : String)
    (h : other ≠ path) : (files.append path more).text? other = files.text? other :=
  files.text?_put_of_ne _ h

/-! ## Opening a file -/

/-- Making directories leaves the files as they are. -/
theorem texts_descend (files : Files) (path : Path) (parts : List String) :
    (files.descend path parts).1.texts = files.texts := by
  induction parts generalizing files path with
  | nil => rfl
  | cons part parts ih =>
    rw [descend]
    split
    · exact ih files path.dropLast
    · dsimp only
      split
      · rfl
      · split
        · exact ih files _
        · exact ih _ _

theorem text?_makeDirectories (files : Files) (path : String) (other : Path) :
    (files.makeDirectories path).1.text? other = files.text? other := by
  rw [makeDirectories]
  split
  · rw [text?, texts_descend, text?]
  · rfl

/-- Where no file can be opened, the files stay as they are. -/
theorem text?_of_create_none {files files' : Files} {path : String}
    (h : files.create path = (files', none)) (other : Path) :
    files'.text? other = files.text? other := by
  rw [create] at h
  split at h
  · obtain ⟨rfl, -⟩ := Prod.mk.inj h
    rfl
  · next before name _ =>
    have hmake := files.text?_makeDirectories before other
    split at h
    · next heq =>
      obtain ⟨rfl, -⟩ := Prod.mk.inj h
      rwa [heq] at hmake
    · next heq =>
      rw [heq] at hmake
      dsimp only at h
      split at h
      · obtain ⟨rfl, -⟩ := Prod.mk.inj h
        exact hmake
      · cases h

/-- A file that has been opened is empty, and the other files stay as they are. -/
theorem text?_of_create_some {files files' : Files} {path : String} {file : Path}
    (h : files.create path = (files', some file)) :
    files'.text? file = some "" ∧
      ∀ other, other ≠ file → files'.text? other = files.text? other := by
  rw [create] at h
  split at h
  · cases h
  · next before name _ =>
    have hmake := files.text?_makeDirectories before
    split at h
    · cases h
    · next heq =>
      rw [heq] at hmake
      dsimp only at h
      split at h
      · cases h
      · obtain ⟨rfl, hfile⟩ := Prod.mk.inj h
        obtain rfl := Option.some.inj hfile
        refine ⟨text?_put_self .., fun other hother => ?_⟩
        rw [text?_put_of_ne _ _ hother]
        exact hmake other

end Files

end Formulary
