import Formulary.Formula
import Formulary.Proofs.NumberText

/-!
# No line is lost

Whoever uses the trace attaches files, detaches them, draws numbers, and has lines written, by
itself or through formulas. What can be seen of that, from the first action to the last, is its
history. The history says where every line is:

* numbers are given out one after the other, to lines and to those who draw them;
* a file holds the lines from its last opening to the next time that any file is opened or closed.

Each action keeps this up, and so does a run of any length.

* `Action.run`, `Action.happenings` — what an action does, and what can be seen of it;
* `LastSession` — the part of a history that belongs to a file;
* `Faithful` — the two facts above, with a lemma for each thing that can happen;
* `Trace.faithful_history` — they hold after every run.
-/

namespace Formulary

/-! ## Actions -/

/-- What can be done with a trace. -/
inductive Action
  /-- a file is to be opened -/
  | attach (path : String)
  /-- the file is detached -/
  | close
  /-- a number is drawn -/
  | draw
  /-- a line is written -/
  | write (e : Event)
  /-- a formula is made -/
  | ofText (settings : Settings) (text : String)
  /-- a formula is given another text -/
  | setText (f : Formula) (text : String)
  /-- a formula is evaluated at the samples of a series -/
  | evaluateSeries (f : Formula) (series : List Binary64)

/-- What can be seen of an action. -/
inductive Happening
  /-- a line goes to those who listen -/
  | line (r : Record)
  /-- somebody is given a number -/
  | drawn (number : Nat)
  /-- a file is opened -/
  | opened (path : String) (file : Path)
  /-- no file is attached any more -/
  | closed
  deriving DecidableEq

namespace Action

/-- The trace after an action. -/
def run (t : Trace) : Action → Trace
  | attach path => (t.attach path).2
  | close => t.close
  | draw => t.draw.2
  | write e => t.write e
  | ofText settings text => t.writeAll (Formula.ofText settings text).2
  | setText f text => t.writeAll (f.setText text).2
  | evaluateSeries f series => t.writeAll (f.evaluateSeries series).2

/-- The answer to an action, as far as it is about the trace. -/
def answer (t : Trace) : Action → List Happening
  | attach path =>
    if (t.attach path).1 then (t.attach path).2.attached.toList.map (.opened path) else []
  | close => [.closed]
  | draw => [.drawn t.draw.1]
  | write _ | ofText .. | setText .. | evaluateSeries .. => []

/-- The answer to an action, and the lines that it sends. -/
def happenings (t : Trace) (a : Action) : List Happening :=
  a.answer t ++ ((a.run t).records.drop t.records.length).map .line

end Action

namespace Trace

/-- The trace after some actions. -/
def runAll (t : Trace) (actions : List Action) : Trace := actions.foldl Action.run t

/-- What can be seen of some actions. -/
def history (t : Trace) : List Action → List Happening
  | [] => []
  | a :: actions => a.happenings t ++ history (a.run t) actions

end Trace

/-! ## Numbers of lines -/

/-- The number that stands in a line in front of the first bar. -/
def lineNumber? (line : String) : Option Nat :=
  let front := line.toList.takeWhile (· != '|')
  if front ≠ [] ∧ front.all Char.isDigit then some (digitsValue front) else none

theorem lineNumber?_line (number : Nat) (e : Event) :
    lineNumber? (e.line number) = some number := by
  have hline : (e.line number).toList = Nat.toDigits 10 number ++
      ('|' :: (e.level ++ "|" ++ e.category ++ "|" ++ e.message).toList) := by
    simp [Event.line]
  have hdigits : ∀ c ∈ Nat.toDigits 10 number, c.isDigit = true := fun c => isDigit_of_mem_toDigits
  have hbar : ∀ c ∈ Nat.toDigits 10 number, (c != '|') = true := by
    intro c hc
    rw [bne_iff_ne]
    rintro rfl
    cases hdigits _ hc
  have hfront : (e.line number).toList.takeWhile (· != '|') = Nat.toDigits 10 number := by
    rw [hline, List.takeWhile_append_of_pos hbar, List.takeWhile_cons_of_neg (by decide),
      List.append_nil]
  rw [lineNumber?, hfront, if_pos ⟨Nat.toDigits_ne_nil, List.all_eq_true.mpr hdigits⟩,
    digitsValue_toDigits]

namespace Happening

/-- The line that has been sent. -/
def record? : Happening → Option Record
  | line r => some r
  | drawn _ | opened .. | closed => none

/-- The number that a line carries or somebody has been given. -/
def numbers : Happening → List (Option Nat)
  | line r => [lineNumber? r.line]
  | drawn number => [some number]
  | opened .. | closed => []

/-- Whether a file is opened or closed. -/
def switches : Happening → Bool
  | opened .. | closed => true
  | line _ | drawn _ => false

end Happening

/-! ## Files -/

/-- The lines among some happenings as a text, each of them ended. -/
def linesText (history : List Happening) : String :=
  String.join ((history.filterMap Happening.record?).map (·.line ++ "\n"))

/-- The line that says that a file has been opened. -/
def openingLine (number : Nat) (path : String) : Record :=
  ⟨"LOG", .info, (Event.info "LOG" ("log file opened at " ++ path)).line number⟩

/-- What has happened since a file was last opened, up to the next time that a file was opened or
closed. -/
structure LastSession (history : List Happening) (path : String) (file : Path)
    (session after : List Happening) : Prop where
  /-- it comes after the file has been opened -/
  split : ∃ before, history = before ++ .opened path file :: (session ++ after)
  /-- no file is opened or closed in it -/
  quiet : ∀ h ∈ session, h.switches = false
  /-- it ends where a file is opened or closed, or where the history ends -/
  ends : ∀ h ∈ after.head?, h.switches = true
  /-- the file is not opened again -/
  last : ∀ path', .opened path' file ∉ after

/-- What is in a file: what was in it before it was ever opened, or else the lines of its last
session, the first of which says that it has been opened. -/
inductive Holds (files : Files) (history : List Happening) (t : Trace) (file : Path) : Prop
  | untouched (hnever : ∀ path, .opened path file ∉ history) (hattached : t.attached ≠ some file)
    (htext : t.files.text? file = files.text? file)
  | session {path : String} {number : Nat} {later after : List Happening}
    (hsession : LastSession history path file (.line (openingLine number path) :: later) after)
    (hattached : t.attached = some file ↔ after = [])
    (htext : t.files.text? file = some (linesText (.line (openingLine number path) :: later)))

/-- What a history says of the trace after it. -/
structure Faithful (files : Files) (history : List Happening) (t : Trace) : Prop where
  /-- it has all lines that have been sent, in their order -/
  records : history.filterMap Happening.record? = t.records
  /-- every line has a number, and they and those that have been drawn go up from one -/
  numbers : history.flatMap Happening.numbers = (List.range' 1 t.count).map some
  /-- it says what is in each file -/
  holds : ∀ file, Holds files history t file
  /-- where a file cannot be opened, no number is given out, no line is sent, and no file changes -/
  refused : ∀ path, (t.attach path).1 = false →
    (t.attach path).2.count = t.count ∧ (t.attach path).2.records = t.records ∧
      (t.attach path).2.attached = t.attached ∧
      ∀ file, (t.attach path).2.files.text? file = t.files.text? file

theorem linesText_append (history more : List Happening) :
    linesText (history ++ more) = linesText history ++ linesText more := by
  rw [linesText, List.filterMap_append, List.map_append, String.join_append, linesText, linesText]

theorem linesText_line (r : Record) : linesText [.line r] = r.line ++ "\n" := by
  have hrecord : [Happening.line r].filterMap Happening.record? = [r] := rfl
  rw [linesText, hrecord, List.map_singleton, String.join_cons, String.join_nil,
    String.append_empty]

namespace LastSession

variable {history session after : List Happening} {path : String} {file : Path} {h : Happening}

/-- A session begins with the line that the file gets when it is opened. -/
theorem begin (history : List Happening) (path : String) (file : Path) (r : Record) :
    LastSession (history ++ [.opened path file, .line r]) path file [.line r] [] :=
  ⟨⟨history, rfl⟩, List.forall_mem_singleton.mpr rfl, nofun, nofun⟩

/-- A session goes on as long as no file is opened or closed. -/
theorem extend (hsession : LastSession history path file session []) (hquiet : h.switches = false) :
    LastSession (history ++ [h]) path file (session ++ [h]) [] := by
  obtain ⟨before, hsplit⟩ := hsession.split
  refine ⟨⟨before, by simp [hsplit]⟩, ?_, nofun, nofun⟩
  exact List.forall_mem_append.mpr ⟨hsession.quiet, List.forall_mem_singleton.mpr hquiet⟩

/-- What happens after a session does not belong to it. -/
theorem append (hsession : LastSession history path file session after)
    (hends : after ≠ [] ∨ h.switches = true) (hlast : ∀ path', h ≠ .opened path' file) :
    LastSession (history ++ [h]) path file session (after ++ [h]) := by
  obtain ⟨before, hsplit⟩ := hsession.split
  refine ⟨⟨before, by simp [hsplit]⟩, hsession.quiet, ?_, ?_⟩
  · rcases after with _ | ⟨first, after⟩
    · rintro _ ⟨⟩
      exact hends.resolve_left (absurd rfl)
    · exact hsession.ends
  · intro path' hmem
    rcases List.mem_append.mp hmem with hmem | hmem
    · exact hsession.last path' hmem
    · exact hlast path' (List.mem_singleton.mp hmem).symm

end LastSession

namespace Holds

variable {files : Files} {history : List Happening} {t t' : Trace} {file : Path} {h : Happening}

theorem congr (hholds : Holds files history t file) (hattached : t'.attached = t.attached)
    (htext : t'.files.text? file = t.files.text? file) : Holds files history t' file := by
  cases hholds with
  | untouched hnever hnone hbefore =>
    exact .untouched hnever (hattached ▸ hnone) (htext.trans hbefore)
  | session hsession hfile hbefore =>
    exact .session hsession (hattached ▸ hfile) (htext.trans hbefore)

/-- A file holds what it should after a file has been closed, or another one opened. -/
theorem switch (hholds : Holds files history t file) (hswitches : h.switches = true)
    (hopened : ∀ path, h ≠ .opened path file) (hattached : t'.attached ≠ some file)
    (htext : t'.files.text? file = t.files.text? file) : Holds files (history ++ [h]) t' file := by
  cases hholds with
  | untouched hnever _ hbefore =>
    refine .untouched (fun path hmem => ?_) hattached (htext.trans hbefore)
    rcases List.mem_append.mp hmem with hmem | hmem
    · exact hnever path hmem
    · exact hopened path (List.mem_singleton.mp hmem).symm
  | session hsession _ hbefore =>
    refine .session (hsession.append (.inr hswitches) hopened) ?_ (htext.trans hbefore)
    exact ⟨fun hfile => absurd hfile hattached, fun hnil => absurd hnil (by simp)⟩

/-- A file holds what it should after anything else, if it is given the line where it is attached
and stays as it is where it is not. -/
theorem quiet (hholds : Holds files history t file) (hswitches : h.switches = false)
    (hattached : t'.attached = t.attached)
    (hself : t.attached = some file → ∀ text, t.files.text? file = some text →
      t'.files.text? file = some (text ++ linesText [h]))
    (hother : t.attached ≠ some file → t'.files.text? file = t.files.text? file) :
    Holds files (history ++ [h]) t' file := by
  have hopened (path : String) : h ≠ .opened path file := by
    rintro rfl
    cases hswitches
  cases hholds with
  | untouched hnever hnone hbefore =>
    refine .untouched (fun path hmem => ?_) (hattached ▸ hnone) ((hother hnone).trans hbefore)
    rcases List.mem_append.mp hmem with hmem | hmem
    · exact hnever path hmem
    · exact hopened path (List.mem_singleton.mp hmem).symm
  | @session path number later after hsession hfile hbefore =>
    by_cases hafter : after = []
    · subst hafter
      refine .session (hsession.extend hswitches) (by rw [hattached, hfile]) ?_
      have hafter := hself (hfile.mpr rfl) _ hbefore
      rwa [← linesText_append] at hafter
    · have hnone : t.attached ≠ some file := fun hsome => hafter (hfile.mp hsome)
      refine .session (hsession.append (.inl hafter) hopened) ?_ ((hother hnone).trans hbefore)
      exact ⟨fun hsome => absurd (hattached ▸ hsome) hnone, fun hnil => absurd hnil (by simp)⟩

end Holds

/-! ## Every action -/

namespace Faithful

variable {files : Files} {history : List Happening} {t : Trace}

theorem start (files : Files) : Faithful files [] (.ofFiles files) where
  records := rfl
  numbers := rfl
  holds _ := .untouched nofun nofun rfl
  refused _ := Trace.attach_refused

/-- A number that is given out is the next one. -/
theorem numbers_append (hfaithful : Faithful files history t) {more : List Happening}
    (hnumbers : more.flatMap Happening.numbers = [some (t.count + 1)]) :
    (history ++ more).flatMap Happening.numbers = (List.range' 1 (t.count + 1)).map some := by
  rw [List.flatMap_append, hfaithful.numbers, hnumbers, List.range'_1_concat, List.map_append,
    Nat.add_comm 1]
  rfl

theorem draw (hfaithful : Faithful files history t) :
    Faithful files (history ++ [.drawn t.draw.1]) t.draw.2 where
  records := by
    rw [List.filterMap_append, hfaithful.records]
    exact List.append_nil _
  numbers := hfaithful.numbers_append rfl
  holds file := by
    refine (hfaithful.holds file).quiet rfl rfl (fun _ text htext => ?_) (fun _ => rfl)
    rw [show linesText [.drawn t.draw.1] = "" from rfl, String.append_empty]
    exact htext
  refused _ := Trace.attach_refused

theorem write (hfaithful : Faithful files history t) (e : Event) :
    Faithful files
      (history ++ [.line ⟨e.category, .ofLevel e.level, e.line (t.count + 1)⟩]) (t.write e) where
  records := by
    rw [List.filterMap_append, hfaithful.records]
    rfl
  numbers := hfaithful.numbers_append (by
    rw [List.flatMap_singleton, Happening.numbers, lineNumber?_line])
  holds file := by
    refine (hfaithful.holds file).quiet rfl rfl (fun hfile text htext => ?_)
      (fun hfile => Trace.text?_write_of_ne hfile e)
    rw [linesText_line]
    exact Trace.text?_write_of_attached hfile htext e
  refused _ := Trace.attach_refused

theorem close (hfaithful : Faithful files history t) :
    Faithful files (history ++ [.closed]) t.close where
  records := by
    rw [List.filterMap_append, hfaithful.records]
    exact List.append_nil _
  numbers := by
    rw [List.flatMap_append, hfaithful.numbers]
    exact List.append_nil _
  holds file := (hfaithful.holds file).switch rfl nofun nofun rfl
  refused _ := Trace.attach_refused

/-- Lines that are written one after the other are found behind those that were there before. -/
theorem writeAll (hfaithful : Faithful files history t) (events : List Event) :
    Faithful files
      (history ++ ((t.writeAll events).records.drop t.records.length).map .line)
      (t.writeAll events) := by
  induction events generalizing history t with
  | nil =>
    have hnone : (t.writeAll []).records.drop t.records.length = [] := List.drop_length
    rw [hnone, List.map_nil, List.append_nil]
    exact hfaithful
  | cons e events ih =>
    have hlater := ih (hfaithful.write e)
    obtain ⟨records, hrecords⟩ := (t.write e).exists_records_writeAll events
    have hall : t.writeAll (e :: events) = (t.write e).writeAll events := rfl
    rw [hall]
    rw [hrecords, List.drop_left] at hlater
    rw [hrecords, Trace.write_records, List.append_assoc, List.drop_left]
    rwa [List.append_assoc] at hlater

/-- A file that is opened holds nothing but the line that says so. -/
theorem attach (hfaithful : Faithful files history t) {path : String}
    (hopened : (t.attach path).1 = true) :
    ∃ file, (t.attach path).2.attached = some file ∧
      (t.attach path).2.records = t.records ++ [openingLine (t.count + 1) path] ∧
      Faithful files (history ++ [.opened path file, .line (openingLine (t.count + 1) path)])
        (t.attach path).2 := by
  obtain ⟨files', file, hattach, hempty, hsame⟩ := Trace.exists_of_attach hopened
  rw [hattach]
  refine ⟨file, rfl, rfl, ⟨?_, ?_, fun other => ?_, fun _ => Trace.attach_refused⟩⟩
  · rw [List.filterMap_append, hfaithful.records]
    rfl
  · refine hfaithful.numbers_append ?_
    rw [List.flatMap_cons, List.flatMap_singleton, Happening.numbers, Happening.numbers,
      openingLine, lineNumber?_line, List.nil_append]
  · by_cases hother : other = file
    · subst hother
      refine .session (.begin history path other _) ⟨fun _ => rfl, fun _ => rfl⟩ ?_
      rw [Trace.text?_write_of_attached rfl hempty, linesText_line, String.empty_append]
      rfl
    · -- another file is left, and is not given the line
      have hne : some file ≠ some other := fun h => hother (Option.some.inj h).symm
      have hswitch : Holds files (history ++ [.opened path file])
          { t with files := files', attached := some file } other :=
        (hfaithful.holds other).switch rfl (fun path' h => hother (Happening.opened.inj h).2.symm)
          hne (hsame other hother)
      have hline := hswitch.quiet (h := .line (openingLine (t.count + 1) path)) rfl
        (Trace.write_attached _ (.info "LOG" ("log file opened at " ++ path)))
        (fun hfile => absurd hfile hne) (fun hfile => Trace.text?_write_of_ne hfile _)
      rwa [List.append_assoc] at hline

/-- A file that is not opened changes nothing. -/
theorem refuse (hfaithful : Faithful files history t) {path : String}
    (hrefused : (t.attach path).1 = false) : Faithful files history (t.attach path).2 := by
  obtain ⟨hcount, hrecords, hattached, htext⟩ := Trace.attach_refused hrefused
  refine ⟨?_, ?_, fun file => ?_, fun _ => Trace.attach_refused⟩
  · rw [hrecords]
    exact hfaithful.records
  · rw [hcount]
    exact hfaithful.numbers
  · exact (hfaithful.holds file).congr hattached (htext file)

/-- **Every action** is seen as it is. -/
theorem run (hfaithful : Faithful files history t) (a : Action) :
    Faithful files (history ++ a.happenings t) (a.run t) := by
  have hsame (records : List Record) : (records.drop records.length).map Happening.line = [] := by
    rw [List.drop_length, List.map_nil]
  cases a with
  | attach path =>
    rcases hopened : (t.attach path).1 with _ | _
    · have hhappenings : Action.happenings t (.attach path) = [] := by
        rw [Action.happenings, Action.answer, if_neg (by rw [hopened]; exact Bool.false_ne_true),
          Action.run, (Trace.attach_refused hopened).2.1, hsame]
        rfl
      rw [hhappenings, List.append_nil]
      exact hfaithful.refuse hopened
    · obtain ⟨file, hattached, hrecords, hlater⟩ := hfaithful.attach hopened
      have hhappenings : Action.happenings t (.attach path) =
          [.opened path file, .line (openingLine (t.count + 1) path)] := by
        rw [Action.happenings, Action.answer, if_pos hopened, Action.run, hattached, hrecords,
          List.drop_left]
        rfl
      rw [hhappenings]
      exact hlater
  | close =>
    have hhappenings : Action.happenings t .close = [.closed] := congrArg _ (hsame t.records)
    rw [hhappenings]
    exact hfaithful.close
  | draw =>
    have hhappenings : Action.happenings t .draw = [.drawn t.draw.1] := congrArg _ (hsame t.records)
    rw [hhappenings]
    exact hfaithful.draw
  | write e => exact hfaithful.writeAll [e]
  | ofText settings text => exact hfaithful.writeAll _
  | setText f text => exact hfaithful.writeAll _
  | evaluateSeries f series => exact hfaithful.writeAll _

end Faithful

/-- Actions that come after a history go on with it. -/
theorem Faithful.runAll {files : Files} {before : List Happening} {t : Trace}
    (hfaithful : Faithful files before t) (actions : List Action) :
    Faithful files (before ++ t.history actions) (t.runAll actions) := by
  induction actions generalizing before t with
  | nil =>
    rw [Trace.history, List.append_nil]
    exact hfaithful
  | cons a actions ih =>
    have hlater := ih (hfaithful.run a)
    rwa [List.append_assoc] at hlater

/-- A number that is drawn is missing in the file, and so are the lines after it has been closed. -/
example : ((Trace.ofFiles ⟨[], []⟩).runAll
    [.attach "a", .draw, .write (.debug "T" "m"), .close, .write (.debug "T" "n")]).files.text?
      ["a"] = some "1|I|LOG|log file opened at a\n3|D|T|m\n" := by
  cbv

end Formulary
