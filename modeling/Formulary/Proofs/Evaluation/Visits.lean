import Mathlib.Data.List.Basic
import Formulary.Proofs.Evaluation.Parts

/-!
# The order of an evaluation

An evaluation visits the nodes of a tree one after the other: the right side of an operator, its
left side, then the operator; the argument of a function, then the function. `DELTA` first looks for
the sample before the point, then its argument is visited at the point and at that sample, and last
its subtraction is made. A visit fails by itself, on values that its children have. The evaluation
succeeds if no visit fails, and otherwise fails as the first of them does.

* `visits` — the visits of an evaluation, in their order;
* `Operations.Yields` — the value of a tree, by a rule for each kind of node;
* `Operations.Fails` — how a visit fails on the values of its children;
* `Operations.evaluate_eq_ok_iff_yields`, `Operations.evaluate_eq_ok_iff_passes`,
  `Operations.evaluate_eq_error_iff` — the outcome of an evaluation in these terms;
* `Expr.evaluate_strict` — the same for double-precision numbers, and what follows from it.
-/

namespace Formulary

variable {α : Type}

/-! ## Visits -/

/-- A step of an evaluation. -/
inductive Visit (α : Type)
  /-- `DELTA` at a point looks for the sample before it -/
  | look (p : Point α)
  /-- a node is computed at a point, from the values of its children -/
  | node (p : Point α) (t : Expr α)

/-- The visits of an evaluation in their order. Without a sample before the point, `DELTA` visits
nothing else. -/
def visits (p : Point α) : Expr α → List (Visit α)
  | .binary left op right => visits p right ++ (visits p left ++ [.node p (.binary left op right)])
  | .call (.pointwise f) arg => visits p arg ++ [.node p (.call (.pointwise f) arg)]
  | .call .delta arg =>
    .look p :: match p.previous? with
      | none => []
      | some before => visits p arg ++ (visits before arg ++ [.node p (.call .delta arg)])
  | leaf => [.node p leaf]

namespace Operations

variable (ops : Operations α)

/-- The value of a tree at a point. -/
inductive Yields : Point α → Expr α → α → Prop
  | number {p : Point α} (x : α) : Yields p (.number x) x
  | constant {p : Point α} (c : Constant) : Yields p (.constant c) (ops.constant c)
  | freeVariable {p : Point α} {x : α} (hp : p.value = some x) (hx : ops.admits x = true) :
    Yields p .freeVariable x
  | binary {p : Point α} {left right : Expr α} {op : Operator} {x y z : α}
    (hr : Yields p right y) (hl : Yields p left x) (h : ops.binary op x y = .ok z) :
    Yields p (.binary left op right) z
  | pointwise {p : Point α} {f : Pointwise} {arg : Expr α} {x z : α}
    (harg : Yields p arg x) (h : ops.apply f x = .ok z) : Yields p (.call (.pointwise f) arg) z
  | delta {p before : Point α} {arg : Expr α} {current previous z : α}
    (hp : p.previous? = some before) (hcurrent : Yields p arg current)
    (hprevious : Yields before arg previous)
    (h : ops.binary .subtract current previous = .ok z) : Yields p (.call .delta arg) z

/-- How a visit fails, the children of its node having values. -/
inductive Fails : Visit α → Failure → Prop
  /-- there is no sample before -/
  | look {p : Point α} (hp : p.previous? = none) : Fails (.look p) .noValue
  /-- the variable has no value -/
  | missing {p : Point α} (hp : p.value = none) : Fails (.node p .freeVariable) .noValue
  /-- the variable has a value that is not finite -/
  | notAdmitted {p : Point α} {x : α} (hp : p.value = some x) (hx : ops.admits x = false) :
    Fails (.node p .freeVariable) (.calculation .nonFiniteInput)
  /-- an operator has no result -/
  | binary {p : Point α} {left right : Expr α} {op : Operator} {x y : α} {e : CalculationError}
    (hr : ops.Yields p right y) (hl : ops.Yields p left x) (h : ops.binary op x y = .error e) :
    Fails (.node p (.binary left op right)) (.calculation e)
  /-- a function has no result -/
  | pointwise {p : Point α} {f : Pointwise} {arg : Expr α} {x : α} {e : CalculationError}
    (harg : ops.Yields p arg x) (h : ops.apply f x = .error e) :
    Fails (.node p (.call (.pointwise f) arg)) (.calculation e)
  /-- the subtraction of `DELTA` has no result -/
  | delta {p before : Point α} {arg : Expr α} {current previous : α} {e : CalculationError}
    (hp : p.previous? = some before) (hcurrent : ops.Yields p arg current)
    (hprevious : ops.Yields before arg previous)
    (h : ops.binary .subtract current previous = .error e) :
    Fails (.node p (.call .delta arg)) (.calculation e)

/-- No visit fails. -/
def Passes (vs : List (Visit α)) : Prop := ∀ v ∈ vs, ∀ e, ¬ ops.Fails v e

/-- The failure of the first visit that fails. -/
inductive FirstFailure : List (Visit α) → Failure → Prop
  | here {v : Visit α} {vs : List (Visit α)} {e : Failure} (h : ops.Fails v e) :
    FirstFailure (v :: vs) e
  | later {v : Visit α} {vs : List (Visit α)} {e : Failure} (hv : ∀ e, ¬ ops.Fails v e)
    (h : FirstFailure vs e) : FirstFailure (v :: vs) e

variable {ops} {p before : Point α} {t left right arg : Expr α} {op : Operator} {f : Pointwise}
  {x y z : α} {e e' : Failure} {v : Visit α} {vs ws : List (Visit α)}

/-! ## Values -/

/-- The evaluation gives the value of a tree. -/
theorem Yields.evaluate_eq (h : ops.Yields p t z) : ops.evaluate p t = .ok z := by
  induction h with
  | number x => rfl
  | constant c => rfl
  | freeVariable hp hx => simp [evaluate, variableValue, hp, hx]
  | binary _ _ h ihr ihl =>
    rw [evaluate_binary, ihr, ihl]
    exact congrArg calculated h
  | pointwise _ h ih =>
    rw [evaluate_pointwise, ih]
    exact congrArg calculated h
  | delta hp _ _ h ihcurrent ihprevious =>
    rw [evaluate_delta_of_some hp, ihcurrent, ihprevious]
    exact congrArg calculated h

theorem Yields.unique (h : ops.Yields p t x) (h' : ops.Yields p t y) : x = y :=
  Except.ok.inj (h.evaluate_eq.symm.trans h'.evaluate_eq)

/-! ## Failures -/

theorem calculated_eq_error_iff {result : Except CalculationError α} :
    calculated result = .error e ↔ ∃ c, result = .error c ∧ e = .calculation c := by
  rcases result with c | z <;> simp [calculated, Except.mapError, eq_comm]

theorem variableValue_eq_ok (h : ops.variableValue p = .ok z) :
    p.value = some z ∧ ops.admits z = true := by
  rw [variableValue] at h
  split at h
  · cases h
  · next x hp =>
    split at h
    · next hx =>
      obtain rfl := Except.ok.inj h
      exact ⟨hp, hx⟩
    · cases h

theorem fails_freeVariable_iff :
    ops.Fails (.node p .freeVariable) e ↔ ops.variableValue p = .error e := by
  constructor
  · intro h
    cases h with
    | missing hp => simp [variableValue, hp]
    | notAdmitted hp hx => simp [variableValue, hp, hx]
  · intro h
    rcases hp : p.value with _ | x
    · simp only [variableValue, hp, Except.error.injEq] at h
      exact h ▸ .missing hp
    · rcases hx : ops.admits x with _ | _
      · simp only [variableValue, hp, hx, Bool.false_eq_true, if_false, Except.error.injEq] at h
        exact h ▸ .notAdmitted hp hx
      · simp [variableValue, hp, hx] at h

/-- An operator fails as the calculation on the values of its sides does. -/
theorem fails_binary_iff (hr : ops.Yields p right y) (hl : ops.Yields p left x) :
    ops.Fails (.node p (.binary left op right)) e ↔ calculated (ops.binary op x y) = .error e := by
  rw [calculated_eq_error_iff]
  constructor
  · intro h
    cases h with
    | binary hr' hl' h =>
      rw [hr.unique hr', hl.unique hl']
      exact ⟨_, h, rfl⟩
  · rintro ⟨c, h, rfl⟩
    exact .binary hr hl h

theorem fails_pointwise_iff (harg : ops.Yields p arg x) :
    ops.Fails (.node p (.call (.pointwise f) arg)) e ↔ calculated (ops.apply f x) = .error e := by
  rw [calculated_eq_error_iff]
  constructor
  · intro h
    cases h with
    | pointwise harg' h =>
      rw [harg.unique harg']
      exact ⟨_, h, rfl⟩
  · rintro ⟨c, h, rfl⟩
    exact .pointwise harg h

theorem fails_delta_iff (hp : p.previous? = some before) (hcurrent : ops.Yields p arg x)
    (hprevious : ops.Yields before arg y) :
    ops.Fails (.node p (.call .delta arg)) e ↔
      calculated (ops.binary .subtract x y) = .error e := by
  rw [calculated_eq_error_iff]
  constructor
  · intro h
    cases h with
    | delta hp' hcurrent' hprevious' h =>
      obtain rfl := Option.some.inj (hp.symm.trans hp')
      rw [hcurrent.unique hcurrent', hprevious.unique hprevious']
      exact ⟨_, h, rfl⟩
  · rintro ⟨c, h, rfl⟩
    exact .delta hp hcurrent hprevious h

/-- A visit fails in one way. -/
theorem Fails.unique (h : ops.Fails v e) (h' : ops.Fails v e') : e = e' := by
  have hsame {result : Except Failure α} (hfails : result = .error e)
      (hfails' : result = .error e') : e = e' := Except.error.inj (hfails.symm.trans hfails')
  cases h with
  | look hp =>
    cases h'
    rfl
  | missing hp =>
    exact hsame (fails_freeVariable_iff.mp (.missing hp)) (fails_freeVariable_iff.mp h')
  | notAdmitted hp hx =>
    exact hsame (fails_freeVariable_iff.mp (.notAdmitted hp hx)) (fails_freeVariable_iff.mp h')
  | binary hr hl h => exact hsame (congrArg calculated h) ((fails_binary_iff hr hl).mp h')
  | pointwise harg h => exact hsame (congrArg calculated h) ((fails_pointwise_iff harg).mp h')
  | delta hp hcurrent hprevious h =>
    exact hsame (congrArg calculated h) ((fails_delta_iff hp hcurrent hprevious).mp h')

/-! ## The first failure -/

theorem Passes.append (hvs : ops.Passes vs) (hws : ops.Passes ws) : ops.Passes (vs ++ ws) := by
  intro v hv
  rcases List.mem_append.mp hv with hv | hv
  · exact hvs v hv
  · exact hws v hv

theorem FirstFailure.append_right (h : ops.FirstFailure vs e) (ws : List (Visit α)) :
    ops.FirstFailure (vs ++ ws) e := by
  induction h with
  | here h => exact .here h
  | later hv _ ih => exact .later hv ih

theorem FirstFailure.append_left (hvs : ops.Passes vs) (h : ops.FirstFailure ws e) :
    ops.FirstFailure (vs ++ ws) e := by
  induction vs with
  | nil => exact h
  | cons v vs ih =>
    obtain ⟨hv, hvs⟩ := List.forall_mem_cons.mp hvs
    exact .later hv (ih hvs)

theorem FirstFailure.not_passes (h : ops.FirstFailure vs e) : ¬ ops.Passes vs := by
  intro hvs
  induction h with
  | here h => exact hvs _ List.mem_cons_self _ h
  | later _ _ ih => exact ih fun v hv => hvs v (List.mem_cons_of_mem _ hv)

theorem FirstFailure.unique (h : ops.FirstFailure vs e) (h' : ops.FirstFailure vs e') : e = e' := by
  induction h with
  | here h =>
    cases h' with
    | here h' => exact h.unique h'
    | later hv _ => exact absurd h (hv _)
  | later hv _ ih =>
    cases h' with
    | here h' => exact absurd h' (hv _)
    | later _ h' => exact ih h'

/-! ## Outcomes -/

variable (ops) in
/-- An outcome that some visits account for: a value if all of them pass, and otherwise the failure
of the first that fails. -/
def AccountsFor (vs : List (Visit α)) (Q : α → Prop) : Except Failure α → Prop
  | .ok z => ops.Passes vs ∧ Q z
  | .error e => ops.FirstFailure vs e

/-- **One evaluation after another**: the second one is visited if the first one has a value. -/
theorem AccountsFor.bind {Q R : α → Prop} {result : Except Failure α} {next : α → Except Failure α}
    (h : ops.AccountsFor vs Q result) (hnext : ∀ y, Q y → ops.AccountsFor ws R (next y)) :
    ops.AccountsFor (vs ++ ws) R (result >>= next) := by
  rcases result with e | y
  · exact h.append_right ws
  · obtain ⟨hvs, hy⟩ := h
    have hws := hnext y hy
    change ops.AccountsFor (vs ++ ws) R (next y)
    rcases hresult : next y with e | z <;> rw [hresult] at hws
    · exact .append_left hvs hws
    · exact ⟨hvs.append hws.1, hws.2⟩

/-- The visit of a node. -/
theorem accountsFor_node {result : Except Failure α}
    (hfails : ∀ e, ops.Fails (.node p t) e ↔ result = .error e)
    (hyields : ∀ z, result = .ok z → ops.Yields p t z) :
    ops.AccountsFor [.node p t] (ops.Yields p t) result := by
  rcases result with e | z
  · exact .here ((hfails e).mpr rfl)
  · refine ⟨?_, hyields z rfl⟩
    intro v hv e he
    obtain rfl := List.mem_singleton.mp hv
    cases (hfails e).mp he

/-- `DELTA` has found the sample before. -/
theorem AccountsFor.look {Q : α → Prop} {result : Except Failure α} (hp : p.previous? = some before)
    (h : ops.AccountsFor vs Q result) : ops.AccountsFor (.look p :: vs) Q result := by
  have hlook (e : Failure) : ¬ ops.Fails (.look p) e := by
    rintro ⟨hnone⟩
    rw [hp] at hnone
    cases hnone
  rcases result with e | z
  · exact .later hlook h
  · exact ⟨List.forall_mem_cons.mpr ⟨hlook, h.1⟩, h.2⟩

variable (ops) in
/-- **The visits of an evaluation account for its outcome.** -/
theorem accountsFor_evaluate (p : Point α) (t : Expr α) :
    ops.AccountsFor (visits p t) (ops.Yields p t) (ops.evaluate p t) := by
  induction t generalizing p with
  | number x =>
    refine accountsFor_node (fun e => ⟨nofun, nofun⟩) ?_
    rintro z ⟨⟩
    exact .number x
  | constant c =>
    refine accountsFor_node (fun e => ⟨nofun, nofun⟩) ?_
    rintro z ⟨⟩
    exact .constant c
  | freeVariable =>
    refine accountsFor_node (fun e => fails_freeVariable_iff) ?_
    intro z hz
    obtain ⟨hp, hx⟩ := variableValue_eq_ok hz
    exact .freeVariable hp hx
  | binary left op right ihl ihr =>
    refine (ihr p).bind fun y hr => (ihl p).bind fun x hl => ?_
    exact accountsFor_node (fun e => fails_binary_iff hr hl)
      fun z hz => .binary hr hl (calculated_eq_ok hz)
  | call f arg ih =>
    cases f with
    | pointwise f =>
      refine (ih p).bind fun x harg => ?_
      exact accountsFor_node (fun e => fails_pointwise_iff harg)
        fun z hz => .pointwise harg (calculated_eq_ok hz)
    | delta =>
      rw [visits]
      rcases hp : p.previous? with _ | before
      · rw [evaluate_delta_of_none hp]
        exact .here (.look hp)
      · rw [evaluate_delta_of_some hp]
        refine AccountsFor.look hp ?_
        refine (ih p).bind fun x hcurrent => (ih before).bind fun y hprevious => ?_
        exact accountsFor_node (fun e => fails_delta_iff hp hcurrent hprevious)
          fun z hz => .delta hp hcurrent hprevious (calculated_eq_ok hz)

theorem evaluate_eq_ok_iff_yields : ops.evaluate p t = .ok z ↔ ops.Yields p t z := by
  refine ⟨fun h => ?_, Yields.evaluate_eq⟩
  have haccounts := accountsFor_evaluate ops p t
  rw [h] at haccounts
  exact haccounts.2

/-- **An evaluation succeeds if and only if no visit fails.** -/
theorem evaluate_eq_ok_iff_passes :
    (∃ z, ops.evaluate p t = .ok z) ↔ ops.Passes (visits p t) := by
  have haccounts := accountsFor_evaluate ops p t
  rcases h : ops.evaluate p t with e | z <;> rw [h] at haccounts
  · simpa using FirstFailure.not_passes haccounts
  · simpa using haccounts.1

/-- **An evaluation fails as the first visit that fails.** -/
theorem evaluate_eq_error_iff :
    ops.evaluate p t = .error e ↔ ops.FirstFailure (visits p t) e := by
  have haccounts := accountsFor_evaluate ops p t
  rcases h : ops.evaluate p t with e' | z <;> rw [h] at haccounts
  · constructor
    · rintro ⟨⟩
      exact haccounts
    · intro hfirst
      rw [FirstFailure.unique haccounts hfirst]
  · refine ⟨nofun, fun hfirst => ?_⟩
    exact absurd haccounts.1 hfirst.not_passes

/-! ## No failure is hidden -/

/-- The right side comes first. -/
theorem evaluate_binary_of_right (h : ops.evaluate p right = .error e) (left : Expr α)
    (op : Operator) : ops.evaluate p (.binary left op right) = .error e := by
  rw [evaluate_binary, h]
  rfl

theorem evaluate_binary_of_left (hr : ops.evaluate p right = .ok y)
    (h : ops.evaluate p left = .error e) (op : Operator) :
    ops.evaluate p (.binary left op right) = .error e := by
  rw [evaluate_binary, hr, h]
  rfl

/-- **Where the variable has no finite value**, and there is no series, only what does not hold the
variable has a value. -/
theorem variableFree_of_evaluate (hvalue : p.value = some x) (hx : ops.admits x = false)
    (hindex : p.index = none) (h : ops.evaluate p t = .ok z) : t.variableFree = true := by
  induction t generalizing z with
  | number _ | constant _ => rfl
  | freeVariable =>
    obtain ⟨hp, hz⟩ := variableValue_eq_ok h
    obtain rfl := Option.some.inj (hvalue.symm.trans hp)
    rw [hx] at hz
    cases hz
  | binary left op right ihl ihr =>
    obtain ⟨y, x, hr, hl, -⟩ := exists_of_evaluate_binary h
    simp [Expr.variableFree, ihl hl, ihr hr]
  | call f arg ih =>
    cases f with
    | pointwise f =>
      obtain ⟨y, hy, -⟩ := exists_of_evaluate_pointwise h
      exact ih hy
    | delta =>
      obtain ⟨before, _, _, hp, -⟩ := exists_of_evaluate_delta h
      simp [Point.previous?, hindex] at hp

end Operations

namespace Expr

/-- **An evaluation is strict, and the first failure wins.** Its visits are made in their order; it
has a value if and only if none of them fails, and otherwise the failure of the first one that does.
So an operator fails if one of its sides does, whatever the other side is, and outside of a series
every tree that holds the variable fails where the value of the variable is not finite. -/
theorem evaluate_strict (t : Expr Binary64) (p : Point Binary64) :
    (∀ z, t.evaluate p = .ok z ↔ Binary64.arithmetic.operations.Yields p t z) ∧
    ((∃ z, t.evaluate p = .ok z) ↔ Binary64.arithmetic.operations.Passes (visits p t)) ∧
    (∀ e, t.evaluate p = .error e ↔
      Binary64.arithmetic.operations.FirstFailure (visits p t) e) ∧
    (∀ op other e, t.evaluate p = .error e →
      (binary other op t).evaluate p = .error e ∧
      ∀ y, other.evaluate p = .ok y → (binary t op other).evaluate p = .error e) ∧
    (t.variableFree = false → ∀ x : Binary64, x.isFinite = false → p.value = some x →
      p.index = none → ∃ e, t.evaluate p = .error e) := by
  refine ⟨fun z => Operations.evaluate_eq_ok_iff_yields, Operations.evaluate_eq_ok_iff_passes,
    fun e => Operations.evaluate_eq_error_iff, ?_, ?_⟩
  · intro op other e he
    exact ⟨Operations.evaluate_binary_of_right he other op,
      fun y hy => Operations.evaluate_binary_of_left hy he op⟩
  · intro ht x hx hvalue hindex
    rcases h : t.evaluate p with e | z
    · exact ⟨e, rfl⟩
    · rw [Operations.variableFree_of_evaluate hvalue hx hindex h] at ht
      cases ht

/-- The logarithm and the root of a negative number: the root comes first, a product with zero does
not hide it, and neither has a value at infinity. -/
theorem evaluate_strict_root :
    ∃ t : Expr Binary64,
      t = binary (call (.pointwise .ln) freeVariable) .add (call (.pointwise .sqrt) freeVariable) ∧
      Binary64.arithmetic.operations.FirstFailure (visits (.ofValue (-1)) t)
        (.calculation .sqrtOfNegative) ∧
      (binary (number 0) .multiply t).evaluate (.ofValue (-1)) =
        .error (.calculation .sqrtOfNegative) ∧
      ∃ e, t.evaluate (.ofValue (.ofPlace false Binary64.infinityPlace)) = .error e := by
  refine ⟨_, rfl, ?_, ?_, ?_⟩
  · exact ((evaluate_strict _ (.ofValue (-1))).2.2.1 _).mp (by decide +kernel)
  · exact ((evaluate_strict _ (.ofValue (-1))).2.2.2.1 .multiply (number 0) _
      (by decide +kernel)).1
  · exact (evaluate_strict _ (.ofValue (.ofPlace false Binary64.infinityPlace))).2.2.2.2 rfl _
      (by decide +kernel) rfl rfl

end Expr

end Formulary
