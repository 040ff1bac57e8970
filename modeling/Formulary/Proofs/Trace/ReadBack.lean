import Formulary.Proofs.Trace.Entries

/-!
# A file read back

Whatever is done with formulas is written down with their texts in the messages, as they are. A text
may hold anything that separates the parts of a line: a bar does no harm, for the message is the
last part; but a line break ends the line, in a formula as well as in a text that is none.

* `Action.events`, `Action.texts` — what an action on formulas tells the trace, and of which texts;
* `Formula.lineBreak_mem_readEvent`, `Formula.lineBreak_notMem_seriesEvents` — a message holds a
  line break exactly if the text of the formula does;
* `Trace.readsBack_runAll_iff` — when a file can be read back.
-/

namespace Formulary

/-! ## Messages -/

namespace Event

/-- Level and category alone decide whether an event is plain. -/
theorem plain_mk {level category : String} (hlevel : '|' ∉ level.toList ∧ '\n' ∉ level.toList)
    (hcategory : '|' ∉ category.toList ∧ '\n' ∉ category.toList) (message : String) :
    Plain ⟨level, category, message⟩ := ⟨hlevel, hcategory⟩

end Event

namespace Formula

variable (text : String) (tree : Except SyntaxError (Expr Binary64))
  (results : List (Except Failure Binary64))

theorem plain_readEvent : (readEvent text tree).Plain := by
  cases tree with
  | ok tree => exact Event.plain_mk (by decide) (by decide) _
  | error e => exact Event.plain_mk (by decide) (by decide) _

theorem plain_of_mem_seriesEvents {e : Event} (he : e ∈ seriesEvents text results) : e.Plain := by
  rw [seriesEvents] at he
  simp only [List.mem_append, List.mem_singleton] at he
  rcases he with (rfl | hwarn) | rfl
  · exact Event.plain_mk (by decide) (by decide) _
  · split at hwarn
    · obtain rfl := List.mem_singleton.mp hwarn
      exact Event.plain_mk (by decide) (by decide) _
    · cases hwarn
  · exact Event.plain_mk (by decide) (by decide) _

private theorem toString_text (text : String) : toString text = text := rfl

/-- What is said about a reading holds a line break exactly if the text does. -/
theorem lineBreak_mem_readEvent :
    '\n' ∈ (readEvent text tree).message.toList ↔ '\n' ∈ text.toList := by
  cases tree with
  | ok tree => simp [readEvent, Event.debug, toString_text, Entry.notMem_toDigits]
  | error e => simp [readEvent, Event.info, toString_text, Entry.notMem_toDigits]

/-- What is said about a series holds a line break exactly if the text of the formula does. -/
theorem lineBreak_notMem_seriesEvents :
    (∀ e ∈ seriesEvents text results, '\n' ∉ e.message.toList) ↔ '\n' ∉ text.toList := by
  simp only [seriesEvents]
  split <;>
    simp [Event.entered, Event.exited, Event.warn, Event.step, toString_text,
      Entry.notMem_toDigits]

end Formula

/-! ## Runs -/

namespace Action

variable {a : Action}

/-- The actions on formulas. -/
def OnFormula : Action → Prop
  | ofText .. | setText .. | evaluateSeries .. => True
  | attach _ | close | draw | write _ => False

/-- What an action on formulas tells the trace. -/
def events : Action → List Event
  | ofText settings text => (Formula.ofText settings text).2
  | setText f text => (f.setText text).2
  | evaluateSeries f series => (f.evaluateSeries series).2
  | attach _ | close | draw | write _ => []

/-- The texts that it tells the trace about. -/
def texts : Action → List String
  | ofText _ text | setText _ text => [text]
  | evaluateSeries f _ => if f.isValid then [f.text] else []
  | attach _ | close | draw | write _ => []

theorem run_eq_writeAll (h : a.OnFormula) (t : Trace) : a.run t = t.writeAll a.events := by
  cases a with
  | ofText | setText | evaluateSeries => rfl
  | attach | close | draw | write => cases h

theorem plain_of_mem_events (a : Action) : ∀ e ∈ a.events, e.Plain := by
  cases a with
  | ofText | setText => exact List.forall_mem_singleton.mpr (Formula.plain_readEvent _ _)
  | evaluateSeries f series =>
    rw [events, Formula.evaluateSeries]
    dsimp only
    split
    · exact fun e he => Formula.plain_of_mem_seriesEvents _ _ he
    · exact nofun
  | attach | close | draw | write => exact nofun

/-- No message holds a line break exactly if no text does. -/
theorem lineBreak_notMem_events (a : Action) :
    (∀ e ∈ a.events, '\n' ∉ e.message.toList) ↔ ∀ text ∈ a.texts, '\n' ∉ text.toList := by
  cases a with
  | ofText | setText =>
    rw [events, texts, List.forall_mem_singleton]
    exact List.forall_mem_singleton.trans (not_congr (Formula.lineBreak_mem_readEvent _ _))
  | evaluateSeries f series =>
    rw [events, texts, Formula.evaluateSeries]
    dsimp only
    split
    · rw [Formula.lineBreak_notMem_seriesEvents, List.forall_mem_singleton]
    · exact ⟨nofun, nofun⟩
  | attach | close | draw | write => exact ⟨nofun, nofun⟩

end Action

namespace Trace

theorem runAll_eq_writeAll {actions : List Action} (h : ∀ a ∈ actions, a.OnFormula) (t : Trace) :
    t.runAll actions = t.writeAll (actions.flatMap Action.events) := by
  induction actions generalizing t with
  | nil => rfl
  | cons a actions ih =>
    obtain ⟨ha, hactions⟩ := List.forall_mem_cons.mp h
    rw [List.flatMap_cons, writeAll_append, ← a.run_eq_writeAll ha, ← ih hactions]
    rfl

/-- What the trace is told when a file has been opened. -/
def openingEvent (path : String) : Event := .info "LOG" ("log file opened at " ++ path)

/-- **A file can be read back** if no text of a formula that is written down holds a line break, and
only then: between its line breaks there is one line for each event, and the lines say with which
number, level, category and message. -/
theorem readsBack_runAll_iff {t : Trace} {path : String} (hopened : (t.attach path).1 = true)
    (hpath : '\n' ∉ path.toList) {actions : List Action} (hactions : ∀ a ∈ actions, a.OnFormula) :
    ∃ file text, ((t.attach path).2.runAll actions).attached = some file ∧
      ((t.attach path).2.runAll actions).files.text? file = some text ∧
      (ReadsBack text
          (numbered (t.count + 1) (openingEvent path :: actions.flatMap Action.events)) ↔
        ∀ a ∈ actions, ∀ formula ∈ a.texts, '\n' ∉ formula.toList) := by
  obtain ⟨files, file, hattach, hempty, -⟩ := exists_of_attach hopened
  have hrun : (t.attach path).2.runAll actions =
      { t with files := files, attached := some file }.writeAll
        (openingEvent path :: actions.flatMap Action.events) := by
    rw [runAll_eq_writeAll hactions, hattach]
    rfl
  rw [hrun]
  refine ⟨file, _, attached_writeAll _ _, text?_writeAll rfl hempty _, ?_⟩
  have hplain : ∀ e ∈ openingEvent path :: actions.flatMap Action.events, e.Plain := by
    refine List.forall_mem_cons.mpr ⟨Event.plain_mk (by decide) (by decide) _, fun e he => ?_⟩
    obtain ⟨a, -, he⟩ := List.mem_flatMap.mp he
    exact a.plain_of_mem_events e he
  have hopening : '\n' ∉ (openingEvent path).message.toList := by
    simpa [openingEvent, Event.info] using hpath
  rw [String.empty_append, readsBack_iff hplain, List.forall_mem_cons, List.forall_mem_flatMap]
  simp only [hopening, not_false_eq_true, true_and, Action.lineBreak_notMem_events]

/-- A file is made where there is nothing yet. -/
theorem create_empty : Files.create ⟨[], []⟩ "a" = (⟨[], [(["a"], "")]⟩, some ["a"]) := by
  -- the loop that splits a path does not evaluate, so its rounds are taken one by one
  have hbefore : "".splitOn "/" = [""] := by
    rw [String.splitOn, if_neg (by decide), String.splitOnAux, if_pos (by decide +kernel)]
    decide +kernel
  have hname : "a".splitOn "/" = ["a"] := by
    rw [String.splitOn, if_neg (by decide), String.splitOnAux, if_neg (by decide +kernel),
      if_neg (by decide +kernel), String.splitOnAux, if_pos (by decide +kernel)]
    decide +kernel
  have hform : Files.namesDirectory "a" = false := by decide +kernel
  have hsize : "a".utf8ByteSize = 1 := by decide
  simp [Files.create, Files.splitName?, hname, Files.makeDirectories, Files.parts, hbefore,
    Files.leads, Files.isPath, Files.descend, hform, hsize, Files.isDirectory, Files.put,
    Files.maxPathBytes, Files.maxNameBytes]

/-- A bar in a text does no harm. -/
theorem readsBack_runAll_bar :
    ((ofFiles ⟨[], []⟩).attach "a").1 = true ∧ ∃ file text,
      (((ofFiles ⟨[], []⟩).attach "a").2.runAll [.ofText {} "x|"]).attached = some file ∧
      (((ofFiles ⟨[], []⟩).attach "a").2.runAll [.ofText {} "x|"]).files.text? file = some text ∧
      ReadsBack text [⟨1, "I", "LOG", "log file opened at a"⟩,
        ⟨2, "I", "PARSE", "'x|' rejected: code 5 at 1"⟩] := by
  have hopened : ((ofFiles ⟨[], []⟩).attach "a").1 = true := by
    rw [attach, ofFiles, create_empty]
  have hactions : ∀ a ∈ [Action.ofText {} "x|"], a.OnFormula :=
    List.forall_mem_singleton.mpr trivial
  have hentries : numbered 1 (openingEvent "a" :: [Action.ofText {} "x|"].flatMap Action.events) =
      [⟨1, "I", "LOG", "log file opened at a"⟩,
        ⟨2, "I", "PARSE", "'x|' rejected: code 5 at 1"⟩] := by
    decide +kernel
  obtain ⟨file, text, hattached, htext, hread⟩ := readsBack_runAll_iff hopened (by decide) hactions
  refine ⟨hopened, file, text, hattached, htext, ?_⟩
  rw [← hentries]
  exact hread.mpr (by decide)

/-- A line break between two tokens, where a formula may have one, tears a line apart, and what it
leaves is no line. -/
theorem entries?_of_lineBreak :
    ∃ text,
      (((ofFiles ⟨[], []⟩).attach "a").2.runAll [.ofText {} "x\n"]).files.text? ["a"] = some text ∧
      text.toList.splitOn '\n' = ["1|I|LOG|log file opened at a".toList,
        "2|D|PARSE|compiled 'x".toList, "' (1 nodes, depth 1)".toList, []] ∧
      entries? text = none := by
  refine ⟨"1|I|LOG|log file opened at a\n2|D|PARSE|compiled 'x\n' (1 nodes, depth 1)\n", ?_, ?_, ?_⟩
  · rw [attach, ofFiles, create_empty]
    decide +kernel
  · decide +kernel
  · decide +kernel

end Trace

end Formulary
