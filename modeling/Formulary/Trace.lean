import Formulary.Trace.Files

/-!
# The trace

What happens to formulas is written down in lines. Every line has a number, one more than the line
before it, and goes to those who listen; while a file is attached it goes there as well. A number
can also be drawn without a line.

* `Event` — what a line says; `Event.line` with a number in front;
* `Trace` — the state of the trace; `Trace.write` adds a line, `Trace.attach` attaches a file,
  `Trace.close` detaches it;
* `Trace.attach_refused`, `Trace.exists_of_attach` — what a file that cannot be opened, and one that
  can, changes.
-/

namespace Formulary

/-- How important a line is. -/
inductive Severity
  | error
  | warn
  | info
  | debug
  | trace
  deriving DecidableEq

namespace Severity

/-- The severity that a letter stands for; any other text means details for debugging. -/
def ofLevel (level : String) : Severity :=
  if level = "E" then error
  else if level = "W" then warn
  else if level = "I" then info
  else if level = "T" then trace
  else debug

/-- The name of a severity. -/
def name : Severity → String
  | error => "ERROR"
  | warn => "WARN"
  | info => "INFO"
  | debug => "DEBUG"
  | trace => "TRACE"

end Severity

/-- What a line of the trace says. -/
structure Event where
  /-- how important it is, in a letter -/
  level : String
  /-- what it is about, in a word -/
  category : String
  /-- what happened -/
  message : String
  deriving DecidableEq

namespace Event

/-- A line for debugging. -/
def debug (category message : String) : Event := ⟨"D", category, message⟩

/-- A line that informs. -/
def info (category message : String) : Event := ⟨"I", category, message⟩

/-- A line that warns. -/
def warn (category message : String) : Event := ⟨"W", category, message⟩

/-- A verb, a name, and what there is to add. -/
def step (verb name details : String) : String :=
  if details.isEmpty then verb ++ " " ++ name else verb ++ " " ++ name ++ " " ++ details

/-- Something begins. -/
def entered (level category name details : String) : Event :=
  ⟨level, category, step "ENTER" name details⟩

/-- Something has ended. -/
def exited (level category name details : String) : Event :=
  ⟨level, category, step "EXIT" name details⟩

/-- The line with a number. -/
def line (number : Nat) (e : Event) : String :=
  toString number ++ "|" ++ e.level ++ "|" ++ e.category ++ "|" ++ e.message

end Event

/-- A line as it goes to those who listen. -/
structure Record where
  /-- what the line is about -/
  category : String
  /-- how important it is -/
  severity : Severity
  /-- the line -/
  line : String
  deriving DecidableEq

/-- The state of the trace. -/
structure Trace where
  /-- the last number drawn -/
  count : Nat
  /-- the files -/
  files : Files
  /-- the file that is attached -/
  attached : Option Path
  /-- the lines that went out, the oldest first -/
  records : List Record

namespace Trace

/-- A trace that has not begun, over the given files. -/
def ofFiles (files : Files) : Trace := ⟨0, files, none, []⟩

/-- Draws the next number. -/
def draw (t : Trace) : Nat × Trace := (t.count + 1, { t with count := t.count + 1 })

/-- Adds a line. -/
def write (t : Trace) (e : Event) : Trace :=
  let (number, t) := t.draw
  let line := e.line number
  { t with
    files :=
      match t.attached with
      | none => t.files
      | some path => t.files.append path (line ++ "\n")
    records := t.records ++ [⟨e.category, .ofLevel e.level, line⟩] }

/-- Adds lines one after the other. -/
def writeAll (t : Trace) (events : List Event) : Trace := events.foldl write t

/-- Empties a file and attaches it instead of the one before. The first line in it says so. Where
the file cannot be opened, all stays as it is, but for directories that had to be made first. -/
def attach (t : Trace) (path : String) : Bool × Trace :=
  match t.files.create path with
  | (files, none) => (false, { t with files := files })
  | (files, some file) =>
    (true, { t with files := files, attached := some file }.write
      (.info "LOG" ("log file opened at " ++ path)))

/-- Detaches the file. -/
def close (t : Trace) : Trace := { t with attached := none }

/-! ## What a line changes -/

@[simp] theorem write_count (t : Trace) (e : Event) : (t.write e).count = t.count + 1 := rfl

@[simp] theorem write_attached (t : Trace) (e : Event) : (t.write e).attached = t.attached := rfl

@[simp] theorem write_records (t : Trace) (e : Event) :
    (t.write e).records =
      t.records ++ [⟨e.category, .ofLevel e.level, e.line (t.count + 1)⟩] := rfl

/-- A line is the last one of the file that is attached. -/
theorem text?_write_of_attached {t : Trace} {file : Path} {text : String}
    (hattached : t.attached = some file) (htext : t.files.text? file = some text) (e : Event) :
    (t.write e).files.text? file = some (text ++ (e.line (t.count + 1) ++ "\n")) := by
  simp only [write, draw, hattached]
  exact t.files.text?_append_self _ htext

/-- No line goes to any other file. -/
theorem text?_write_of_ne {t : Trace} {file : Path} (h : t.attached ≠ some file) (e : Event) :
    (t.write e).files.text? file = t.files.text? file := by
  simp only [write, draw]
  split
  · rfl
  · next path hpath => exact t.files.text?_append_of_ne _ fun hfile => h (hfile ▸ hpath)

/-- Lines go out after those before them. -/
theorem exists_records_writeAll (t : Trace) (events : List Event) :
    ∃ records, (t.writeAll events).records = t.records ++ records := by
  induction events generalizing t with
  | nil => exact ⟨[], (List.append_nil _).symm⟩
  | cons e events ih =>
    obtain ⟨records, hrecords⟩ := ih (t.write e)
    rw [write_records, List.append_assoc] at hrecords
    exact ⟨_, hrecords⟩

/-! ## Attaching a file -/

/-- **Where a file cannot be opened**, nothing is written and nothing is attached instead. -/
theorem attach_refused {t : Trace} {path : String} (h : (t.attach path).1 = false) :
    (t.attach path).2.count = t.count ∧ (t.attach path).2.records = t.records ∧
      (t.attach path).2.attached = t.attached ∧
      ∀ file, (t.attach path).2.files.text? file = t.files.text? file := by
  rw [attach] at h ⊢
  split at h
  · next files heq => exact ⟨rfl, rfl, rfl, Files.text?_of_create_none heq⟩
  · cases h

/-- A file that has been opened is attached, empty but for a line that says so. -/
theorem exists_of_attach {t : Trace} {path : String} (h : (t.attach path).1 = true) :
    ∃ files file, (t.attach path).2 = { t with files := files, attached := some file }.write
        (.info "LOG" ("log file opened at " ++ path)) ∧ files.text? file = some "" ∧
      ∀ other, other ≠ file → files.text? other = t.files.text? other := by
  rw [attach] at h ⊢
  split at h
  · cases h
  · next files file heq => exact ⟨files, file, rfl, Files.text?_of_create_some heq⟩

end Trace

end Formulary
