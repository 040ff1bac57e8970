import Formulary.Proofs.Reading.Bounds

/-!
# Derivations are read

The reading goes through the tokens of every derivation. If the derivation fits into the bounds, a
stage is reached in which a primary has ended and settling up to the level of the derivation gives
its tree; otherwise a bound is exceeded, and nothing else is ever wrong.

* `Derivation.Read` — the statement above for one derivation; `Derivation.read` proves it by
  induction, with one lemma for brackets and calls (`primaryRead_bracketed`) and one for the three
  kinds of chains (`LevelRead.chain`);
* `Derivation.answer_of_fits`, `Derivation.answer_of_not_fits` — what the whole run answers to the
  tokens of a formula.
-/

namespace Formulary

/-! ## Reading derivations -/

namespace Derivation

variable {limits : Limits} {level sub : Level} {p : Progress}

/-- A primary is read: if it fits, the `E^` in front of it have been counted and what they stand
before is the primary that has ended. -/
def PrimaryRead (limits : Limits) (p : Progress) (d : Derivation .primary) : Prop :=
  (d.Fits limits p → ∃ count core,
    (Stage.term p).after limits d.tokens = .ok (.primary (p.deepenedBy count) (.ofExpr core)) ∧
    d.tree = core.exponentiated count) ∧
  (¬ d.Fits limits p →
    Stage.Overruns limits .primary ((Stage.term p).after limits d.tokens))

/-- A derivation is read: if it fits, settling up to its level gives its tree and leads back to the
state in which it began. -/
def LevelRead (limits : Limits) (p : Progress) (d : Derivation level) : Prop :=
  (d.Fits limits p → ∃ p' node q,
    (Stage.term p).after limits d.tokens = .ok (.primary p' node) ∧
    p'.settleAt limits node level = .ok (q, .ofExpr d.tree) ∧ level.Keeps p q) ∧
  (¬ d.Fits limits p → Stage.Overruns limits level ((Stage.term p).after limits d.tokens))

/-- A derivation is read wherever one of its level can begin. -/
def Read (limits : Limits) : {level : Level} → Derivation level → Prop
  | .primary, d => ∀ p : Progress, p.Within limits → d.PrimaryRead limits p
  | level, d => ∀ p : Progress, level.Starts p → p.Within limits → d.LevelRead limits p

/-! ### Primaries -/

theorem primaryRead_leaf (hpos : 0 < limits.depth) (hw : p.Within limits) {t : Token}
    {d : Derivation .primary} (htokens : d.tokens = [t])
    (hnext : (Stage.term p).next limits t = .ok (.primary p (.ofExpr d.tree)))
    (hnesting : d.nesting = 0) (hdelta : d.tree.deltaNesting = 0) (hdepth : d.tree.depth = 1) :
    d.PrimaryRead limits p := by
  have hfits : d.Fits limits p :=
    ⟨by rw [hnesting]; exact hw.nesting, by rw [hdelta]; exact hw.delta, by rw [hdepth]; exact hpos⟩
  refine ⟨fun _ => ⟨0, d.tree, ?_, rfl⟩, fun h => absurd hfits h⟩
  rw [htokens, Stage.after_cons_ok hnext, Progress.deepenedBy_zero, Stage.after_nil]

theorem fits_bracketed_iff (opener : Opener) (d : Derivation .sum) :
    (opener.derivation d).Fits limits p ↔
      (p.nesting < limits.nesting ∧ p.deltaNesting + opener.deltas ≤ maxDeltaNesting) ∧
      d.Fits limits (p.inside opener) ∧ (opener.derivation d).tree.depth ≤ limits.depth := by
  have hdepth := opener.depth_le_derivation d
  have hnesting := opener.nesting_derivation d
  have hdelta := opener.deltaNesting_derivation d
  constructor
  · rintro ⟨h₁, h₂, h₃⟩
    refine ⟨⟨by omega, by omega⟩, ⟨?_, ?_, by omega⟩, h₃⟩
    · simp only [Progress.inside]
      omega
    · simp only [Progress.inside]
      omega
  · rintro ⟨-, ⟨h₁, h₂, -⟩, h₃⟩
    simp only [Progress.inside] at h₁ h₂
    exact ⟨by omega, by omega, h₃⟩

/-- **Brackets and calls**: the expression in them is read in a state of its own, and the closing
bracket leads back to the state around them. -/
theorem primaryRead_bracketed (opener : Opener) {d : Derivation .sum} (hw : p.Within limits)
    (hread : d.Read limits) : (opener.derivation d).PrimaryRead limits p := by
  have hopen : (Stage.term p).after limits opener.tokens =
      .ok (Stage.afterOpening limits p opener) := by
    cases opener <;> rfl
  rw [PrimaryRead, fits_bracketed_iff, opener.tokens_derivation, Stage.after_append_ok hopen]
  -- a bound can be exceeded at the opening bracket, inside, or at the closing one
  by_cases ho : p.nesting < limits.nesting ∧ p.deltaNesting + opener.deltas ≤ maxDeltaNesting
  · have hstage : Stage.afterOpening limits p opener = .term (p.inside opener) := by
      rw [Stage.afterOpening, Progress.opened_ok ho.1 ho.2]
    have hinside : (p.inside opener).Within limits := ⟨ho.1, ho.2⟩
    obtain ⟨hfits, hover⟩ := hread (p.inside opener) rfl hinside
    rw [hstage]
    by_cases hd : d.Fits limits (p.inside opener)
    · obtain ⟨p', node, q, hafter, hsettle, hkeeps⟩ := hfits hd
      rw [Stage.after_append_ok hafter]
      by_cases hdepth : (opener.derivation d).tree.depth ≤ limits.depth
      · have hnext : (Stage.primary p' node).next limits .closeBracket =
            .ok (.primary p (.ofExpr (opener.derivation d).tree)) := by
          rw [Stage.next_closeBracket_of_keeps hsettle hkeeps, Progress.bracketed_of_le hdepth,
            Option.elim_some]
        refine ⟨fun _ => ⟨0, (opener.derivation d).tree, ?_, rfl⟩,
          fun h => absurd ⟨ho, hd, hdepth⟩ h⟩
        rw [Stage.after_cons_ok hnext, Progress.deepenedBy_zero, Stage.after_nil]
      · have hnext : (Stage.primary p' node).next limits .closeBracket = .ok (.exceeded p) := by
          rw [Stage.next_closeBracket_of_keeps hsettle hkeeps,
            Progress.bracketed_of_lt hd.depth (Nat.lt_of_not_le hdepth), Option.elim_none]
        refine ⟨fun h => absurd h.2.2 hdepth, fun _ => ?_⟩
        rw [Stage.after_cons_ok hnext, Stage.after_nil]
        trivial
    · exact ⟨fun h => absurd h.2.1 hd, fun _ => (hover hd).append (Nat.le_refl _) _ []⟩
  · obtain ⟨q, hq⟩ := Progress.opened_error ho hw
    have hstage : Stage.afterOpening limits p opener = .exceeded q := by
      rw [Stage.afterOpening, hq]
    rw [hstage]
    exact ⟨fun h => absurd h.1 ho, fun _ => Stage.overruns_exceeded q (by simp)⟩

theorem fits_exponential_iff (d : Derivation .primary) :
    (exponential d).Fits limits p ↔
      p.nesting < limits.nesting ∧ d.Fits limits (p.deepenedBy 1) ∧
        (exponential d).tree.depth ≤ limits.depth := by
  have hdepth : (exponential d).tree.depth = 1 + d.tree.depth := rfl
  have hnesting : (exponential d).nesting = 1 + d.nesting := rfl
  have hdelta : (exponential d).tree.deltaNesting = d.tree.deltaNesting := by
    simp [tree, Expr.deltaNesting]
  constructor
  · rintro ⟨h₁, h₂, h₃⟩
    refine ⟨by omega, ⟨?_, ?_, by omega⟩, h₃⟩
    · simp only [Progress.deepenedBy]
      omega
    · simp only [Progress.deepenedBy]
      omega
  · rintro ⟨-, ⟨h₁, h₂, -⟩, h₃⟩
    simp only [Progress.deepenedBy] at h₁ h₂
    exact ⟨by omega, by omega, h₃⟩

/-- `E^` before a primary is counted until the primary has ended. -/
theorem primaryRead_exponential {d : Derivation .primary} (hw : p.Within limits)
    (hread : d.Read limits) : (exponential d).PrimaryRead limits p := by
  have hopen : (Stage.term p).next limits .exponential =
      .ok (Stage.afterExponential limits p) := rfl
  rw [PrimaryRead, fits_exponential_iff, tokens, Stage.after_cons_ok hopen]
  by_cases hn : p.nesting < limits.nesting
  · have hstage : Stage.afterExponential limits p = .term (p.deepenedBy 1) := by
      simp only [Stage.afterExponential, Progress.deepen, if_neg (Nat.not_le.mpr hn)]
      rfl
    obtain ⟨hfits, hover⟩ := hread (p.deepenedBy 1) ⟨hn, hw.delta⟩
    rw [hstage]
    by_cases hd : d.Fits limits (p.deepenedBy 1)
    · obtain ⟨count, core, hafter, htree⟩ := hfits hd
      have hexp : (exponential d).tree = core.exponentiated (1 + count) := by
        rw [tree, htree, Expr.call_exponentiated, Nat.add_comm]
      rw [hafter, Progress.deepenedBy_deepenedBy]
      by_cases hdepth : (exponential d).tree.depth ≤ limits.depth
      · exact ⟨fun _ => ⟨1 + count, core, rfl, hexp⟩, fun h => absurd ⟨hn, hd, hdepth⟩ h⟩
      · -- the excess is noticed only when the `E^` are applied
        refine ⟨fun h => absurd h.2.2 hdepth, fun _ => ?_⟩
        rw [hexp] at hdepth
        exact Progress.settleAt_primary_of_lt (by omega) (Nat.lt_of_not_le hdepth)
    · exact ⟨fun h => absurd h.2.1 hd, fun _ => hover hd⟩
  · have hstage : Stage.afterExponential limits p = .exceeded p := by
      simp only [Stage.afterExponential, Progress.deepen, if_pos (Nat.le_of_not_lt hn)]
    rw [hstage]
    exact ⟨fun h => absurd h.1 hn, fun _ => Stage.overruns_exceeded p d.tokens_ne_nil⟩

/-! ### Chains -/

theorem PrimaryRead.levelRead {d : Derivation .primary} (h : d.PrimaryRead limits p)
    (hp : p.current.exponentials = 0) : d.LevelRead limits p := by
  refine ⟨fun hd => ?_, h.2⟩
  obtain ⟨count, core, hafter, htree⟩ := h.1 hd
  have hdepth : (core.exponentiated count).depth ≤ limits.depth := htree ▸ hd.depth
  refine ⟨_, _, p, hafter, ?_, rfl⟩
  rw [htree]
  exact Progress.settleAt_primary_of_le hp hdepth

/-- **The last part of a phrase**: `front` stands before it, and `close` joins it to what `front`
has left in the state. -/
theorem LevelRead.extend {d : Derivation sub} {d' : Derivation level} {p₁ : Progress}
    {close : Unfinished → Node → Option Node} (front : List Token) (hrank : sub.rank ≤ level.rank)
    (hsettle : ∀ (p : Progress) (node : Node), p.settleAt limits node level =
      p.settleAt limits node sub >>= Progress.settleBy close)
    (hfront : (Stage.term p).after limits front = .ok (.term p₁))
    (htokens : d'.tokens = front ++ d.tokens)
    (hfits : d'.Fits limits p ↔ d.Fits limits p₁ ∧ d'.tree.depth ≤ limits.depth)
    (hclose : d.tree.depth ≤ limits.depth → ∀ q, sub.Keeps p₁ q → level.Keeps p q ∧
      close q.current (.ofExpr d.tree) =
        if d'.tree.depth ≤ limits.depth then some (.ofExpr d'.tree) else none)
    (h : d.LevelRead limits p₁) : d'.LevelRead limits p := by
  rw [LevelRead, hfits, htokens, Stage.after_append_ok hfront]
  by_cases hd : d.Fits limits p₁
  · obtain ⟨p', node, q, hafter, hsub, hkeeps⟩ := h.1 hd
    obtain ⟨hkeeps', hjoin⟩ := hclose hd.depth q hkeeps
    by_cases hdepth : d'.tree.depth ≤ limits.depth
    · rw [if_pos hdepth] at hjoin
      refine ⟨fun _ => ⟨p', node, q, hafter, ?_, hkeeps'⟩, fun h => absurd ⟨hd, hdepth⟩ h⟩
      rw [hsettle, hsub]
      exact Progress.settleBy_some hjoin
    · rw [if_neg hdepth] at hjoin
      refine ⟨fun h => absurd h.2 hdepth, fun _ => ?_⟩
      rw [hafter]
      refine ⟨q, ?_⟩
      rw [hsettle, hsub]
      exact Progress.settleBy_none hjoin
  · exact ⟨fun h => absurd h.1 hd, fun _ => (h.2 hd).of_le hrank⟩

/-- A phrase of a single part needs no joining. -/
theorem LevelRead.single {d : Derivation sub} {d' : Derivation level}
    {close : Unfinished → Node → Option Node} (hrank : sub.rank ≤ level.rank)
    (hsettle : ∀ (p : Progress) (node : Node), p.settleAt limits node level =
      p.settleAt limits node sub >>= Progress.settleBy close)
    (htokens : d'.tokens = d.tokens) (htree : d'.tree = d.tree)
    (hnesting : d'.nesting = d.nesting)
    (hclose : ∀ q, sub.Keeps p q → level.Keeps p q ∧
      close q.current (.ofExpr d.tree) = some (.ofExpr d.tree))
    (h : d.LevelRead limits p) : d'.LevelRead limits p := by
  refine h.extend [] hrank hsettle rfl htokens ?_ ?_
  · constructor
    · rintro ⟨h₁, h₂, h₃⟩
      rw [hnesting] at h₁
      rw [htree] at h₂
      exact ⟨⟨h₁, h₂, htree ▸ h₃⟩, h₃⟩
    · rintro ⟨⟨h₁, h₂, -⟩, h₃⟩
      rw [← hnesting] at h₁
      rw [← htree] at h₂
      exact ⟨h₁, h₂, h₃⟩
  · intro hdepth q hkeeps
    obtain ⟨hkeeps', hjoin⟩ := hclose q hkeeps
    rw [htree, if_pos hdepth]
    exact ⟨hkeeps', hjoin⟩

/-- **A chain and one more part**: the operator finishes the chain, and the last part is joined to
it. `signs` are further signs after the operator. -/
theorem LevelRead.chain {l d : Derivation level} {r : Derivation sub} {p₁ : Progress}
    {close : Unfinished → Node → Option Node} (op joining : Operator) (signs : List Token)
    (hrank : sub.rank ≤ level.rank)
    (hsettle : ∀ (p : Progress) (node : Node), p.settleAt limits node level =
      p.settleAt limits node sub >>= Progress.settleBy close)
    (hlevel : op.level = level)
    (htokens : d.tokens = l.tokens ++ .operator op :: (signs ++ r.tokens))
    (htree : d.tree = .binary l.tree joining r.tree)
    (hnesting : d.nesting = max l.nesting r.nesting)
    (hsigns : (Stage.term (p.awaiting (.ofExpr l.tree) op)).after limits signs =
      .ok (.term p₁))
    (hp₁ : p₁.nesting = p.nesting ∧ p₁.deltaNesting = p.deltaNesting)
    (hclose : ∀ q, sub.Keeps p₁ q → level.Keeps p q ∧
      close q.current (.ofExpr r.tree) = limits.accept (.ofExpr d.tree))
    (hl : l.LevelRead limits p) (hr : r.LevelRead limits p₁) : d.LevelRead limits p := by
  subst hlevel
  have hdepth : d.tree.depth = 1 + max l.tree.depth r.tree.depth := by rw [htree, Expr.depth]
  have hdelta : d.tree.deltaNesting = max l.tree.deltaNesting r.tree.deltaNesting := by
    rw [htree, Expr.deltaNesting]
  by_cases hfits : l.Fits limits p
  · obtain ⟨p', node, q, hafter, hleft, hkeeps⟩ := hl.1 hfits
    have hnext : (Stage.primary p' node).next limits (.operator op) =
        .ok (.term (p.awaiting (.ofExpr l.tree) op)) := by
      rw [Stage.next_operator hleft, hkeeps.awaiting_eq]
    refine hr.extend (l.tokens ++ .operator op :: signs) hrank hsettle ?_ ?_ ?_ ?_
    · rw [Stage.after_append_ok hafter, Stage.after_cons_ok hnext, hsigns]
    · rw [htokens, List.append_assoc, List.cons_append]
    · constructor
      · rintro ⟨h₁, h₂, h₃⟩
        exact ⟨⟨by omega, by omega, by omega⟩, h₃⟩
      · rintro ⟨⟨h₁, h₂, -⟩, h₃⟩
        have hn := hfits.nesting
        have hδ := hfits.delta
        exact ⟨by omega, by omega, h₃⟩
    · intro _ q hq
      rw [← Limits.accept_eq]
      exact hclose q hq
  · -- the operator refuses what has not fitted before it
    have hnot : ¬ d.Fits limits p := by
      rintro ⟨h₁, h₂, h₃⟩
      exact hfits ⟨by omega, by omega, by omega⟩
    refine ⟨fun h => absurd h hnot, fun _ => ?_⟩
    rw [htokens]
    exact (hl.2 hfits).append (Nat.le_refl _) _ _

/-! ### All derivations -/

theorem read_ofPrimary {d : Derivation .primary} (h : d.Read limits) :
    (ofPrimary d).Read limits := by
  intro p hp hw
  obtain ⟨hpower, hexp⟩ := hp
  refine LevelRead.single (by decide) (Progress.settleAt_power limits) rfl rfl rfl ?_
    ((h p hw).levelRead hexp)
  rintro q rfl
  exact ⟨rfl, Unfinished.closePower_none hpower _⟩

theorem read_raise {left : Derivation .power} {right : Derivation .primary}
    (hl : left.Read limits) (hr : right.Read limits) : (raise left right).Read limits := by
  intro p hp hw
  have hright : right.LevelRead limits (p.awaiting (.ofExpr left.tree) .power) :=
    (hr _ (hw.awaiting _ _)).levelRead hp.2
  refine LevelRead.chain .power .power [] (by decide)
    (Progress.settleAt_power limits) rfl rfl rfl rfl rfl ⟨rfl, rfl⟩ ?_ (hl p hp hw) hright
  rintro q rfl
  have hpower : (p.awaiting (.ofExpr left.tree) .power).current.power =
    some (.ofExpr left.tree) := rfl
  exact ⟨rfl, Unfinished.closePower_some hpower _⟩

theorem read_ofPower {d : Derivation .power} (h : d.Read limits) : (ofPower d).Read limits := by
  intro p hp hw
  obtain ⟨hproduct, hpower⟩ := hp
  refine LevelRead.single (by decide) (Progress.settleAt_product limits) rfl rfl rfl ?_
    (h p hpower hw)
  intro q hq
  have hq' : q.current.product = none := by
    rw [hq]
    exact hproduct
  refine ⟨?_, Unfinished.closeProduct_none hq' _⟩
  rw [Level.Keeps, hq]

theorem read_scale {left : Derivation .product} {right : Derivation .power} {op : Operator}
    (hop : op.precedence = .multiplicative) (hl : left.Read limits) (hr : right.Read limits) :
    (scale left op hop right).Read limits := by
  intro p hp hw
  have hstate : p.awaiting (.ofExpr left.tree) op = { p with
      current := { p.current with power := none, product := some (.ofExpr left.tree, op) } } := by
    cases op with
    | multiply | divide => rfl
    | add | subtract | power => cases hop
  have hright : right.LevelRead limits (p.awaiting (.ofExpr left.tree) op) := by
    refine hr _ ?_ (hw.awaiting _ _)
    rw [hstate]
    exact ⟨rfl, hp.2.2⟩
  refine LevelRead.chain op op [] (by decide) (Progress.settleAt_product limits)
    (Operator.level_of_multiplicative hop) rfl rfl rfl rfl ?_ ?_ (hl p hp hw) hright
  · rw [hstate]
    exact ⟨rfl, rfl⟩
  · intro q hq
    rw [hstate] at hq
    have hproduct : q.current.product = some (.ofExpr left.tree, op) := by rw [hq]
    refine ⟨?_, Unfinished.closeProduct_some hproduct _⟩
    rw [Level.Keeps, hq]

theorem fits_ofProduct_iff (signs : List Sign) (d : Derivation .product) :
    (ofProduct signs d).Fits limits p ↔
      d.Fits limits (p.signedBy signs) ∧ (ofProduct signs d).tree.depth ≤ limits.depth := by
  have hdelta : (ofProduct signs d).tree.deltaNesting = d.tree.deltaNesting := by
    rw [tree]
    split
    · exact Expr.deltaNesting_negated d.tree
    · rfl
  have hdepth : d.tree.depth ≤ (ofProduct signs d).tree.depth := by
    rw [tree]
    split
    · exact Expr.depth_le_depth_negated d.tree
    · exact Nat.le_refl _
  constructor
  · rintro ⟨h₁, h₂, h₃⟩
    rw [hdelta] at h₂
    exact ⟨⟨h₁, h₂, Nat.le_trans hdepth h₃⟩, h₃⟩
  · rintro ⟨⟨h₁, h₂, -⟩, h₃⟩
    rw [← hdelta] at h₂
    exact ⟨h₁, h₂, h₃⟩

theorem read_ofProduct (hpos : 0 < limits.depth) (signs : List Sign) {d : Derivation .product}
    (h : d.Read limits) : (ofProduct signs d).Read limits := by
  intro p hp hw
  -- a term that is a number takes the sign itself, so the depth of its tree stays as it is
  have hp : p.current = {} := hp
  have hsign : p.current.takesSign = true := by
    rw [hp]
    rfl
  have hstate : (p.signedBy signs).current = { negative := Sign.oddMinus signs } := by
    simp [Progress.signedBy, hp]
  have hread : d.LevelRead limits (p.signedBy signs) := by
    refine h _ ?_ ⟨hw.nesting, hw.delta⟩
    rw [Level.Starts, hstate]
    exact ⟨rfl, rfl, rfl⟩
  refine hread.extend _ (by decide) (Progress.settleAt_sum limits) (Stage.after_signs signs hsign)
    rfl (fits_ofProduct_iff signs d) ?_
  intro hd q hq
  have hsum : q.current.sum = none := by
    rw [hq]
    simp only [hstate]
  have hnegative : q.current.negative = Sign.oddMinus signs := by
    rw [hq]
    simp only [hstate]
  refine ⟨?_, ?_⟩
  · rw [Level.Keeps, hq]
    rfl
  · rw [Unfinished.closeSum_none hsum, hnegative, tree]
    by_cases hodd : Sign.oddMinus signs = true
    · simp only [if_pos hodd]
      exact Limits.negate_eq hpos d.tree
    · simp only [if_neg hodd, if_pos hd]

theorem read_join (sign : Sign) (signs : List Sign) {left : Derivation .sum}
    {right : Derivation .product} (hl : left.Read limits) (hr : right.Read limits) :
    (join left sign signs right).Read limits := by
  intro p hp hw
  have hsign : (p.awaiting (.ofExpr left.tree) sign.operator).current.takesSign = true := by
    cases sign <;> rfl
  have hlevel : sign.operator.level = .sum := by cases sign <;> rfl
  have hstate : (p.awaiting (.ofExpr left.tree) sign.operator).signedBy signs = { p with
      current :=
        { sum := some (.ofExpr left.tree), negative := Sign.oddMinus (sign :: signs) } } := by
    cases sign <;> simp [Sign.operator, Progress.awaiting, Progress.signedBy, Sign.oddMinus_plus,
      Sign.oddMinus_minus]
  have hread : right.LevelRead limits
      ((p.awaiting (.ofExpr left.tree) sign.operator).signedBy signs) := by
    rw [hstate]
    exact hr _ ⟨rfl, rfl, rfl⟩ ⟨hw.nesting, hw.delta⟩
  refine LevelRead.chain _ _ _ (by decide) (Progress.settleAt_sum limits) hlevel rfl rfl rfl
    (Stage.after_signs signs hsign) ?_ ?_ (hl p hp hw) hread
  · rw [hstate]
    exact ⟨rfl, rfl⟩
  · intro q hq
    rw [hstate] at hq
    have hsum : q.current.sum = some (.ofExpr left.tree) := by rw [hq]
    have hnegative : q.current.negative = Sign.oddMinus (sign :: signs) := by rw [hq]
    refine ⟨?_, ?_⟩
    · rw [Level.Keeps, hq]
    · rw [Unfinished.closeSum_some hsum, hnegative]
      rfl

/-- **Every derivation is read**, and is refused only where a bound is exceeded. -/
theorem read (hpos : 0 < limits.depth) (d : Derivation level) : d.Read limits := by
  -- the state is arbitrary in each hypothesis, as the parts begin in states of their own
  induction d with
  | number x =>
    intro p hw
    exact primaryRead_leaf hpos hw (t := .number x) rfl rfl rfl rfl rfl
  | constant c =>
    intro p hw
    exact primaryRead_leaf hpos hw (t := .constant c) rfl rfl rfl rfl rfl
  | freeVariable =>
    intro p hw
    exact primaryRead_leaf hpos hw (t := .freeVariable) rfl rfl rfl rfl rfl
  | group inner ih =>
    intro p hw
    exact primaryRead_bracketed .group hw ih
  | call f arg ih =>
    intro p hw
    exact primaryRead_bracketed (.call f) hw ih
  | exponential arg ih =>
    intro p hw
    exact primaryRead_exponential hw ih
  | ofPrimary d ih => exact read_ofPrimary ih
  | raise left right ihl ihr => exact read_raise ihl ihr
  | ofPower d ih => exact read_ofPower ih
  | scale left op hop right ihl ihr => exact read_scale hop ihl ihr
  | ofProduct signs d ih => exact read_ofProduct hpos signs ih
  | join left sign signs right ihl ihr => exact read_join sign signs ihl ihr

end Derivation

/-! ## The whole formula -/

namespace Derivation

variable {limits : Limits} {d : Derivation .sum}

theorem fits_start_iff : d.Fits limits .start ↔
    d.nesting ≤ limits.nesting ∧ d.tree.deltaNesting ≤ maxDeltaNesting ∧
      d.tree.depth ≤ limits.depth := by
  constructor
  · rintro ⟨h₁, h₂, h₃⟩
    simp only [Progress.start] at h₁ h₂
    exact ⟨by omega, by omega, h₃⟩
  · rintro ⟨h₁, h₂, h₃⟩
    refine ⟨?_, ?_, h₃⟩ <;> simp only [Progress.start] <;> omega

theorem levelRead_start (hpos : 0 < limits.depth) (d : Derivation .sum) :
    d.LevelRead limits .start :=
  read hpos d .start rfl ⟨Nat.zero_le _, Nat.zero_le _⟩

/-- A formula that fits into the bounds is read to its end. -/
theorem exists_finish_of_fits (hpos : 0 < limits.depth) (h : d.Fits limits .start) :
    ∃ s p, (Stage.term .start).after limits d.tokens = .ok s ∧
      s.finish limits = .ok (p, .ofExpr d.tree) := by
  obtain ⟨p', node, q, hafter, hsettle, hkeeps⟩ := (levelRead_start hpos d).1 h
  exact ⟨_, q, hafter, Stage.finish_primary hsettle hkeeps.enclosing_eq⟩

/-- The answer to a formula that fits into the bounds is its tree. -/
theorem answer_of_fits (hpos : 0 < limits.depth) (h : d.Fits limits .start)
    {located : List Located} (hl : located.map Located.token = d.tokens) (finish : Nat) :
    ((Stage.term .start).run limits finish located).answer = .ok d.tree := by
  obtain ⟨s, p, hafter, hfinish⟩ := exists_finish_of_fits hpos h
  rw [← hl] at hafter
  exact Stage.answer_of_finish hafter hfinish finish

/-- The answer to any other formula is that it is nested too deeply. -/
theorem answer_of_not_fits (hpos : 0 < limits.depth) (h : ¬ d.Fits limits .start)
    {located : List Located} (hl : located.map Located.token = d.tokens) (finish : Nat) :
    ∃ position, ((Stage.term .start).run limits finish located).answer =
      .error ⟨.tooDeeplyNested, position⟩ := by
  have hover := (levelRead_start hpos d).2 h
  rw [← hl] at hover
  rcases ha : (Stage.term .start).after limits (located.map Located.token) with r | s
  · -- a token of the formula is refused, and it is no error by itself
    rw [ha] at hover
    have hkind : r.kind = .tooDeeplyNested := hover
    obtain ⟨before, t, rest, s', rfl, hbefore, hnext⟩ := Stage.exists_of_after_error ha
    have herror : t.token.isError = false := by
      refine d.not_isError_of_mem ?_
      rw [← hl]
      exact List.mem_map_of_mem (List.mem_append_right _ List.mem_cons_self)
    have hrefuses : s'.Refuses limits r (t :: rest) := hnext
    refine ⟨t.start, ?_⟩
    rw [Stage.run_append hbefore, Stage.answer_of_refuses hrefuses, Progress.errorAt, hkind,
      Progress.kindAt_of_not_isError herror]
  · -- all tokens are read, and the end is refused
    rw [ha] at hover
    obtain ⟨p, hp⟩ := Stage.Blocked.finish hover
    have hrefuses : s.Refuses limits ⟨.tooDeeplyNested, p⟩ [] := hp
    refine ⟨finish, ?_⟩
    rw [Stage.run_of_after ha, Stage.answer_of_refuses hrefuses]
    rfl

end Derivation

end Formulary
