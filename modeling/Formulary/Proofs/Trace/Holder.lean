import Formulary.Proofs.Evaluation.Local
import Formulary.Proofs.Trace.Entries

/-!
# A formula that is held

Whoever holds a formula gives it other texts and asks it for values, in any order. The tree that is
kept is always the one of the text that was given last, so every reply is that of a formula that has
just been made of this text; and the trace is told of each reading and of each series, and of
nothing else.

* `Use`, `Reply` — what can be done with a formula that is held, and what comes back;
* `Holder` — the formula and the trace that it tells; `Use.apply` — one use;
* `replyTo` — the reply that the text of a formula calls for;
* `TellsReading`, `TellsSeries`, `TellsUse`, `Tells` — what the trace has to be told of a reading,
  of a series, of a use and of a run, given the replies;
* `Holder.UpToDate` — what holds after a run; `Holder.upToDate_start` — it does.
-/

namespace Formulary

/-! ## Uses -/

/-- What can be done with a formula that is held. -/
inductive Use
  /-- it is given another text -/
  | setText (text : String)
  /-- its value is asked for -/
  | evaluate (x : Binary64)
  /-- its values at the samples of a series are asked for -/
  | evaluateSeries (series : List Binary64)
  /-- it is asked whether it is linear -/
  | isLinear
  /-- its value is asked for as one number -/
  | evaluatePlain (x : Binary64)

/-- What comes back. -/
inductive Reply
  | done
  | value (result : Except Failure Binary64)
  | values (results : List (Except Failure Binary64))
  | truth (answer : Bool)
  | number (x : Binary64)

/-- A formula that is held, and the trace that it tells. -/
structure Holder where
  /-- the formula -/
  formula : Formula
  /-- the trace -/
  trace : Trace

/-- A use of a formula: the reply, and the formula and the trace after it. -/
def Use.apply (h : Holder) : Use → Reply × Holder
  | setText text =>
    let (f, events) := h.formula.setText text
    (.done, ⟨f, h.trace.writeAll events⟩)
  | evaluate x => (.value (h.formula.evaluate x), h)
  | evaluateSeries series =>
    let (results, events) := h.formula.evaluateSeries series
    (.values results, { h with trace := h.trace.writeAll events })
  | isLinear => (.truth h.formula.isLinear, h)
  | evaluatePlain x => (.number (h.formula.evaluatePlain x), h)

namespace Holder

/-- A formula that has just been made. -/
def start (t : Trace) (settings : Settings) (text : String) : Holder :=
  let (f, events) := Formula.ofText settings text
  ⟨f, t.writeAll events⟩

/-- The formula and the trace after some uses. -/
def after (h : Holder) (uses : List Use) : Holder := uses.foldl (fun h u => (u.apply h).2) h

/-- The replies to some uses. -/
def replies (h : Holder) : List Use → List Reply
  | [] => []
  | u :: uses => (u.apply h).1 :: replies (u.apply h).2 uses

end Holder

/-! ## What has to come back -/

/-- The text of a formula after some uses. -/
def currentText (text : String) (uses : List Use) : String :=
  uses.foldl (fun text u => match u with | .setText new => new | _ => text) text

/-- The reply that the text of a formula calls for. -/
def replyTo (settings : Settings) (text : String) (u : Use) : Reply :=
  match Expr.ofText settings text, u with
  | _, .setText _ => .done
  | .ok t, .evaluate x => .value (t.evaluate (.ofValue x))
  | .ok t, .evaluateSeries series =>
    .values ((List.range series.length).map fun index => t.evaluate (.ofSample series index))
  | .ok t, .isLinear => .truth t.isLinear
  | .ok t, .evaluatePlain x => .number (plainValue (t.evaluate (.ofValue x)))
  | .error _, .evaluate _ => .value (.error .noValue)
  | .error _, .evaluateSeries series => .values (List.replicate series.length (.error .noValue))
  | .error _, .isLinear => .truth false
  | .error _, .evaluatePlain _ => .number missingValue

/-! ## What the trace has to be told -/

/-- What the trace is told of a reading. -/
inductive TellsReading (settings : Settings) (text : String) : Event → Prop
  /-- how large the tree is -/
  | read {t : Expr Binary64} (h : Expr.ofText settings text = .ok t) :
    TellsReading settings text
      ⟨"D", "PARSE", s!"compiled '{text}' ({t.nodeCount} nodes, depth {t.depth})"⟩
  /-- which error it is, and where -/
  | refused {e : SyntaxError} (h : Expr.ofText settings text = .error e) :
    TellsReading settings text
      ⟨"I", "PARSE", s!"'{text}' rejected: code {e.kind.code} at {e.position}"⟩

/-- The calculation of a value has failed. -/
def Fails (r : Except Failure Binary64) : Prop := ∃ e, r = .error (.calculation e)

instance : DecidablePred Fails
  | .ok _ => .isFalse nofun
  | .error (.calculation e) => .isTrue ⟨e, rfl⟩
  | .error .noValue => .isFalse nofun

/-- The line before a series. -/
def seriesBegins (text : String) (size : Nat) : Event :=
  ⟨"D", "EVAL", s!"ENTER evaluate_series formula={text} samples={size}"⟩

/-- The line after a series. -/
def seriesEnds (failed missing : Nat) : Event :=
  ⟨"D", "EVAL", s!"EXIT evaluate_series failed={failed} missing={missing}"⟩

/-- What the trace is told of the values along a series. There is a warning between the two other
lines if at least one calculation has failed, and only then. -/
inductive TellsSeries (text : String) (size : Nat) (results : List (Except Failure Binary64)) :
    List Event → Prop
  | smooth (hnone : ∀ r ∈ results, ¬ Fails r) :
    TellsSeries text size results
      [seriesBegins text size, seriesEnds 0 (results.count (.error .noValue))]
  | failures (hsome : ∃ r ∈ results, Fails r) :
    TellsSeries text size results
      [seriesBegins text size,
        ⟨"W", "EVAL",
          s!"{results.countP Fails} of {size} points failed to calculate for {text}"⟩,
        seriesEnds (results.countP Fails) (results.count (.error .noValue))]

/-- What the trace is told of a use, given the text before it and the reply. -/
inductive TellsUse (settings : Settings) (text : String) : Use → Reply → List Event → Prop
  | setText {new : String} {e : Event} (h : TellsReading settings new e) :
    TellsUse settings text (.setText new) .done [e]
  /-- a series at which there is a formula -/
  | series {series : List Binary64} {results : List (Except Failure Binary64)}
    {events : List Event} {t : Expr Binary64} (hread : Expr.ofText settings text = .ok t)
    (h : TellsSeries text series.length results events) :
    TellsUse settings text (.evaluateSeries series) (.values results) events
  /-- a series at which there is none -/
  | seriesOfNone {series : List Binary64} {results : List (Except Failure Binary64)}
    {e : SyntaxError} (hread : Expr.ofText settings text = .error e) :
    TellsUse settings text (.evaluateSeries series) (.values results) []
  | evaluate {x : Binary64} {r : Reply} : TellsUse settings text (.evaluate x) r []
  | isLinear {r : Reply} : TellsUse settings text .isLinear r []
  | evaluatePlain {x : Binary64} {r : Reply} : TellsUse settings text (.evaluatePlain x) r []

/-- What the trace is told of a run, given the text before it and the replies. -/
inductive Tells (settings : Settings) : String → List Use → List Reply → List Event → Prop
  | nil {text : String} : Tells settings text [] [] []
  | cons {text : String} {u : Use} {r : Reply} {uses : List Use} {replies : List Reply}
    {events later : List Event} (h : TellsUse settings text u r events)
    (hlater : Tells settings (currentText text [u]) uses replies later) :
    Tells settings text (u :: uses) (r :: replies) (events ++ later)

/-- What holds of a formula that has been made of a text and then used. -/
structure Holder.UpToDate (t : Trace) (settings : Settings) (text : String) (uses : List Use) :
    Prop where
  /-- the text is the one that was given last, and the tree or the error is that of this text -/
  formula : ((start t settings text).after uses).formula =
    ⟨currentText text uses, settings, Expr.ofText settings (currentText text uses)⟩
  /-- the reply to any use is the one that this text calls for -/
  reply : ∀ u : Use, (u.apply ((start t settings text).after uses)).1 =
    replyTo settings (currentText text uses) u
  /-- so it is the reply of a formula that has just been made of this text -/
  fresh : ∀ (u : Use) (t' : Trace), (u.apply ((start t settings text).after uses)).1 =
    (u.apply (start t' settings (currentText text uses))).1
  /-- the trace has been told of the making and of every use, and of nothing else -/
  told : ∃ e events, TellsReading settings text e ∧
    Tells settings text uses ((start t settings text).replies uses) events ∧
    ((start t settings text).after uses).trace.records =
      t.records ++ (numbered (t.count + 1) (e :: events)).map Entry.record

/-! ## The lines of a use -/

theorem tellsReading_readEvent (settings : Settings) (text : String) :
    TellsReading settings text (Formula.readEvent text (Expr.ofText settings text)) := by
  rcases hread : Expr.ofText settings text with e | t
  · exact .refused hread
  · exact .read hread

section

variable (text : String) (size failed missing : Nat) (results : List (Except Failure Binary64))

theorem failedCount_eq : Formula.failedCount results = results.countP Fails := by
  refine List.countP_congr fun r _ => ?_
  rcases r with (e | _) | x <;> simp [Fails]

theorem missingCount_eq : Formula.missingCount results = results.count (.error .noValue) := by
  refine List.countP_congr fun r _ => ?_
  rcases r with (e | _) | x <;> simp

/-- A verb and a name in front of details that begin with a word. -/
theorem Event.step_append {verb name front : String} (hfront : front ≠ "") (rest : String) :
    step verb name (front ++ rest) = verb ++ " " ++ name ++ " " ++ front ++ rest := by
  have hne : (front ++ rest).isEmpty = false := by simp [hfront]
  rw [step, hne, if_neg Bool.false_ne_true, ← String.append_assoc]

theorem entered_eq : Event.entered "D" "EVAL" "evaluate_series" s!"formula={text} samples={size}" =
    seriesBegins text size := by
  rw [Event.entered, seriesBegins]
  simp only [String.append_assoc]
  rw [Event.step_append (by decide)]
  simp only [String.append_assoc]
  rfl

theorem exited_eq :
    Event.exited "D" "EVAL" "evaluate_series" s!"failed={failed} missing={missing}" =
      seriesEnds failed missing := by
  rw [Event.exited, seriesEnds]
  simp only [String.append_assoc]
  rw [Event.step_append (by decide)]
  simp only [String.append_assoc]
  rfl

theorem tellsSeries_seriesEvents :
    TellsSeries text results.length results (Formula.seriesEvents text results) := by
  simp only [Formula.seriesEvents, failedCount_eq, missingCount_eq, entered_eq, exited_eq]
  split
  · next hsome => exact .failures (List.countP_pos_iff.mp hsome |>.imp fun r => by simp)
  · next hnone =>
    have hzero : results.countP Fails = 0 := Nat.eq_zero_of_not_pos hnone
    rw [hzero]
    exact .smooth fun r hr => by simpa using List.countP_eq_zero.mp hzero r hr

end

namespace Holder

variable {settings : Settings} {text : String} {h : Holder}

/-! ## One use -/

/-- After a use the formula is that of the text that is given last. -/
theorem formula_apply (hh : h.formula = (Formula.ofText settings text).1) (u : Use) :
    (u.apply h).2.formula = (Formula.ofText settings (currentText text [u])).1 := by
  cases u with
  | setText new =>
    rw [Use.apply, Formula.setText, hh]
    rfl
  | evaluate | evaluateSeries | isLinear | evaluatePlain => exact hh

/-- **The reply to a use** is the one that the text calls for. -/
theorem reply_apply (hh : h.formula = (Formula.ofText settings text).1) (u : Use) :
    (u.apply h).1 = replyTo settings text u := by
  have htree : h.formula.tree = Expr.ofText settings text := congrArg Formula.tree hh
  cases u with
  | setText new => rfl
  | evaluate x | isLinear | evaluatePlain x =>
    simp only [Use.apply, Formula.evaluatePlain, Formula.evaluate, Formula.evaluateAt,
      Formula.isLinear, replyTo, htree]
    rcases Expr.ofText settings text with e | t <;> rfl
  | evaluateSeries series =>
    simp only [Use.apply, Formula.evaluateSeries, Formula.evaluateAt, replyTo, htree]
    rcases Expr.ofText settings text with e | t
    · simp [List.map_const']
    · rfl

/-- **The trace is told** what it has to be told of a use. -/
theorem tells_apply (hh : h.formula = (Formula.ofText settings text).1) (u : Use) :
    ∃ events, (u.apply h).2.trace = h.trace.writeAll events ∧
      TellsUse settings text u (u.apply h).1 events := by
  have htree : h.formula.tree = Expr.ofText settings text := congrArg Formula.tree hh
  cases u with
  | setText new =>
    have hsettings : h.formula.settings = settings := congrArg Formula.settings hh
    refine ⟨[Formula.readEvent new (Expr.ofText settings new)], ?_,
      .setText (tellsReading_readEvent settings new)⟩
    rw [← hsettings]
    rfl
  | evaluate x => exact ⟨[], rfl, .evaluate⟩
  | isLinear => exact ⟨[], rfl, .isLinear⟩
  | evaluatePlain x => exact ⟨[], rfl, .evaluatePlain⟩
  | evaluateSeries series =>
    refine ⟨(h.formula.evaluateSeries series).2, rfl, ?_⟩
    rcases hread : Expr.ofText settings text with e | t
    · have hvalid : h.formula.isValid = false := by rw [Formula.isValid, htree, hread]; rfl
      have hevents : (h.formula.evaluateSeries series).2 = [] := by
        simp only [Formula.evaluateSeries, hvalid, Bool.false_eq_true, if_false]
      rw [hevents]
      exact .seriesOfNone hread
    · have hvalid : h.formula.isValid = true := by rw [Formula.isValid, htree, hread]; rfl
      have htext : h.formula.text = text := congrArg Formula.text hh
      have hevents : (h.formula.evaluateSeries series).2 =
          Formula.seriesEvents text (h.formula.evaluateSeries series).1 := by
        simp only [Formula.evaluateSeries, hvalid, if_true, htext]
      have htells := tellsSeries_seriesEvents text (h.formula.evaluateSeries series).1
      rw [Formula.length_evaluateSeries] at htells
      rw [hevents]
      exact .series hread htells

/-! ## Runs -/

/-- After a run the formula is that of the text that was given last. -/
theorem formula_after (hh : h.formula = (Formula.ofText settings text).1) (uses : List Use) :
    (h.after uses).formula = (Formula.ofText settings (currentText text uses)).1 := by
  induction uses generalizing h text with
  | nil => exact hh
  | cons u uses ih => exact ih (formula_apply hh u)

/-- After a run the trace has been told what the run calls for. -/
theorem tells_after (hh : h.formula = (Formula.ofText settings text).1) (uses : List Use) :
    ∃ events, (h.after uses).trace = h.trace.writeAll events ∧
      Tells settings text uses (h.replies uses) events := by
  induction uses generalizing h text with
  | nil => exact ⟨[], rfl, .nil⟩
  | cons u uses ih =>
    obtain ⟨events, htrace, htells⟩ := tells_apply hh u
    obtain ⟨later, hlater, htold⟩ := ih (formula_apply hh u)
    refine ⟨events ++ later, ?_, .cons htells htold⟩
    rw [Trace.writeAll_append, ← htrace]
    exact hlater

/-- **A formula that is held is never out of date**, and the trace is told exactly what has been
done with it. -/
theorem upToDate_start (t : Trace) (settings : Settings) (text : String) (uses : List Use) :
    UpToDate t settings text uses where
  formula := formula_after rfl uses
  reply := reply_apply (formula_after rfl uses)
  fresh u t' := (reply_apply (formula_after rfl uses) u).trans (reply_apply rfl u).symm
  told := by
    obtain ⟨events, htrace, htells⟩ := tells_after (h := start t settings text) rfl uses
    refine ⟨_, events, tellsReading_readEvent settings text, htells, ?_⟩
    rw [htrace, start]
    dsimp only
    rw [← Trace.writeAll_append, Trace.records_writeAll]
    rfl

end Holder

end Formulary
