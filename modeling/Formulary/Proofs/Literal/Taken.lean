import Formulary.Proofs.NumberText

/-!
# What a number literal takes

The parts that a literal takes from the front of a text, stated as rules beside the functions that
read them, and what becomes of a literal when a comma stands in it for a point.

* `Numeral.Takes` — the parts that a literal takes, and the rest of the text;
* `Numeral.takes_iff` — reading gives these parts, and no others;
* `Numeral.LacksDigits` — a separator or a sign has no digit after it;
* `Numeral.pointed`, `Numeral.Takes.text_eq` — the text of a literal is what has been taken, with a
  point for a comma;
* `Numeral.Takes.withSeparator` — with the other separator, the same is taken.
-/

namespace Formulary

namespace Numeral

/-! ## What is taken -/

/-- All digits at the front of a text are taken. -/
structure TakesDigits (text digits rest : List Char) : Prop where
  /-- they are the front of the text -/
  append : text = digits ++ rest
  /-- they are digits -/
  isDigit : ∀ c ∈ digits, c.isDigit = true
  /-- no digit is left behind -/
  ends : ∀ c ∈ rest.head?, c.isDigit = false

/-- A point or a comma is taken with all digits after it. -/
inductive TakesFraction : List Char → Option Fraction → List Char → Prop
  /-- neither comes next -/
  | absent {text : List Char} (h : ∀ c ∈ text.head?, isSeparator c = false) :
    TakesFraction text none text
  /-- one of them comes next -/
  | present {c : Char} {text digits rest : List Char} (hc : isSeparator c = true)
    (h : TakesDigits text digits rest) : TakesFraction (c :: text) (some ⟨c, digits⟩) rest

/-- The letter of a power is taken if a digit or a sign is after it, with at most one sign and all
digits after it. -/
inductive TakesPower : List Char → Option Power → List Char → Prop
  /-- there is no such letter, or neither is after it -/
  | absent {text : List Char} (h : NoPower text) : TakesPower text none text
  /-- a sign is after it -/
  | signed {mark sign : Char} {text digits rest : List Char} (hmark : mark = 'e' ∨ mark = 'E')
    (hsign : sign = '+' ∨ sign = '-') (h : TakesDigits text digits rest) :
    TakesPower (mark :: sign :: text) (some ⟨mark, some sign, digits⟩) rest
  /-- a digit is after it -/
  | unsigned {mark : Char} {text digits rest : List Char} (hmark : mark = 'e' ∨ mark = 'E')
    (hne : digits ≠ []) (h : TakesDigits text digits rest) :
    TakesPower (mark :: text) (some ⟨mark, none, digits⟩) rest

/-- A literal is taken from the front of a text. -/
inductive Takes : List Char → Numeral → List Char → Prop
  /-- a separator without digits ends it -/
  | bare {text whole more rest : List Char} {separator : Char}
    (hwhole : TakesDigits text whole more)
    (hfraction : TakesFraction more (some ⟨separator, []⟩) rest) :
    Takes text ⟨whole, some ⟨separator, []⟩, none⟩ rest
  /-- otherwise a power may follow -/
  | full {text whole more later rest : List Char} {fraction : Option Fraction}
    {power : Option Power} (hwhole : TakesDigits text whole more)
    (hfraction : TakesFraction more fraction later)
    (hdigits : ∀ separator, fraction ≠ some ⟨separator, []⟩)
    (hpower : TakesPower later power rest) : Takes text ⟨whole, fraction, power⟩ rest

variable {cs text digits rest whole : List Char} {n : Numeral} {fraction : Option Fraction}
  {power : Option Power}

theorem takesDigits_iff : TakesDigits text digits rest ↔ readDigits text = (digits, rest) := by
  constructor
  · rintro ⟨rfl, hdigits, hends⟩
    exact readDigits_of_append hdigits hends
  · intro h
    obtain ⟨rfl, rfl⟩ := Prod.mk.inj h
    refine ⟨(readDigits_append text).symm, fun c hc => List.mem_takeWhile_imp hc, fun c hc => ?_⟩
    have hhead := List.head?_dropWhile_not Char.isDigit text
    rw [Option.mem_def.mp hc] at hhead
    simpa using hhead

theorem takesDigits_readDigits (text : List Char) :
    TakesDigits text (readDigits text).1 (readDigits text).2 :=
  takesDigits_iff.mpr rfl

theorem takesFraction_iff :
    TakesFraction text fraction rest ↔ readFraction text = (fraction, rest) := by
  constructor
  · rintro (h | ⟨hc, h⟩)
    · exact readFraction_none h
    · rw [readFraction_separator hc, takesDigits_iff.mp h]
  · intro h
    rcases readFraction_cases text with ⟨hhead, heq⟩ | ⟨c, more, rfl, hc, heq⟩ <;>
      obtain ⟨rfl, rfl⟩ := Prod.mk.inj (heq.symm.trans h)
    · exact .absent hhead
    · exact .present hc (takesDigits_readDigits more)

theorem takesPower_iff : TakesPower text power rest ↔ readPower text = (power, rest) := by
  constructor
  · rintro (h | ⟨hmark, hsign, h⟩ | ⟨hmark, hne, h⟩)
    · exact readPower_none h
    · rw [readPower_sign hmark hsign, takesDigits_iff.mp h]
    · have hread := takesDigits_iff.mp h
      obtain ⟨d, digits, rfl⟩ := List.exists_cons_of_ne_nil hne
      obtain ⟨rfl, hdigits, -⟩ := h
      rw [List.cons_append] at hread ⊢
      rw [readPower_digit hmark (hdigits d List.mem_cons_self), hread]
  · intro h
    rcases readPower_cases text with hnone | ⟨mark, sign, more, rfl, hmark, hsign⟩ |
      ⟨mark, d, more, rfl, hmark, hd⟩
    · obtain ⟨rfl, rfl⟩ := Prod.mk.inj ((readPower_none hnone).symm.trans h)
      exact .absent hnone
    · obtain ⟨rfl, rfl⟩ := Prod.mk.inj ((readPower_sign hmark hsign more).symm.trans h)
      exact .signed hmark hsign (takesDigits_readDigits more)
    · obtain ⟨rfl, rfl⟩ := Prod.mk.inj ((readPower_digit hmark hd more).symm.trans h)
      refine .unsigned hmark ?_ (takesDigits_readDigits _)
      simp [readDigits, hd]

/-- **Reading a literal gives the parts that are taken**, and no others. -/
theorem takes_iff : Takes text n rest ↔ read text = (n, rest) := by
  constructor
  · intro h
    cases h with
    | bare hwhole hfraction =>
      obtain ⟨rfl, rfl⟩ := Prod.mk.inj (takesDigits_iff.mp hwhole)
      exact read_of_bare (takesFraction_iff.mp hfraction)
    | full hwhole hfraction hdigits hpower =>
      obtain ⟨rfl, rfl⟩ := Prod.mk.inj (takesDigits_iff.mp hwhole)
      rw [read_of_fraction (takesFraction_iff.mp hfraction) hdigits, takesPower_iff.mp hpower]
      rfl
  · intro h
    rcases hfraction : readFraction (readDigits text).2 with ⟨fraction, later⟩
    have htaken := takesFraction_iff.mpr hfraction
    by_cases hbare : ∃ separator, fraction = some ⟨separator, []⟩
    · obtain ⟨separator, rfl⟩ := hbare
      obtain ⟨rfl, rfl⟩ := Prod.mk.inj ((read_of_bare hfraction).symm.trans h)
      exact .bare (takesDigits_readDigits text) htaken
    · have hdigits := not_exists.mp hbare
      obtain ⟨rfl, rfl⟩ := Prod.mk.inj ((read_of_fraction hfraction hdigits).symm.trans h)
      exact .full (takesDigits_readDigits text) htaken hdigits (takesPower_iff.mpr rfl)

theorem Takes.append (h : Takes text n rest) : n.written ++ rest = text := by
  have hread := read_append text
  rwa [takes_iff.mp h] at hread

/-- A literal begins with the digit that its text begins with. -/
theorem Takes.exists_whole_cons {c : Char} (h : Takes (c :: cs) n rest) (hc : c.isDigit = true) :
    ∃ ds, n.whole = c :: ds := by
  have hwhole := read_whole hc cs
  rw [takes_iff.mp h] at hwhole
  exact ⟨_, hwhole⟩

/-! ## Missing digits -/

/-- A separator or the sign of a power is not followed by a digit. -/
def LacksDigits (n : Numeral) : Prop :=
  (∃ separator, n.fraction = some ⟨separator, []⟩) ∨
    ∃ mark sign, n.power = some ⟨mark, some sign, []⟩

theorem isComplete_iff : n.isComplete = true ↔
    (∀ separator, n.fraction ≠ some ⟨separator, []⟩) ∧
      ∀ mark sign, n.power ≠ some ⟨mark, sign, []⟩ := by
  rcases n with ⟨whole, _ | ⟨separator, _ | _⟩, _ | ⟨mark, sign, _ | _⟩⟩ <;> simp [isComplete]

/-- A power lacks its digits only after a sign. -/
theorem TakesPower.exists_sign {mark : Char} {sign : Option Char}
    (h : TakesPower text (some ⟨mark, sign, []⟩) rest) : ∃ c, sign = some c := by
  cases h with
  | signed => exact ⟨_, rfl⟩
  | unsigned _ hne => exact absurd rfl hne

theorem Takes.isComplete_iff (h : Takes text n rest) : n.isComplete = true ↔ ¬ n.LacksDigits := by
  rw [Numeral.isComplete_iff, LacksDigits, not_or, not_exists]
  refine and_congr_right fun _ => ⟨?_, fun hpower mark sign heq => ?_⟩
  · rintro hpower ⟨mark, sign, heq⟩
    exact hpower mark sign heq
  · cases h with
    | bare => cases heq
    | full _ _ _ htaken =>
      obtain rfl := heq
      obtain ⟨c, rfl⟩ := htaken.exists_sign
      exact hpower ⟨mark, c, rfl⟩

/-! ## A comma for a point -/

/-- A comma read as a point. -/
def pointed (c : Char) : Char := if c = ',' then '.' else c

theorem isSeparator_iff {c : Char} : isSeparator c = true ↔ pointed c = '.' := by
  rw [isSeparator, Bool.or_eq_true, beq_iff_eq, beq_iff_eq, pointed]
  split
  · next hc => simp [hc]
  · next hc => simp [hc]

theorem isSeparator_pointed (c : Char) : isSeparator (pointed c) = isSeparator c := by
  rw [pointed]
  split
  · next hc => rw [hc]; rfl
  · rfl

theorem pointed_of_not_separator {c : Char} (h : isSeparator c = false) : pointed c = c := by
  rw [pointed, if_neg]
  rintro rfl
  cases h

theorem map_pointed (h : ∀ c ∈ cs, isSeparator c = false) : cs.map pointed = cs := by
  have hmap := List.map_congr_left fun c hc => pointed_of_not_separator (h c hc)
  rw [hmap, List.map_id']

/-- Where no separator stands, none has been exchanged. -/
theorem eq_of_map_pointed {v : List Char} (h : ∀ c ∈ cs, isSeparator c = false)
    (hv : v.map pointed = cs.map pointed) : v = cs := by
  rw [map_pointed h] at hv
  rw [← hv, map_pointed]
  intro c hc
  rw [← isSeparator_pointed]
  exact h _ (by rw [← hv]; exact List.mem_map_of_mem hc)

theorem isSeparator_of_isDigit {c : Char} (h : c.isDigit = true) : isSeparator c = false := by
  rcases hsep : isSeparator c with _ | _
  · rfl
  · rw [isSeparator, Bool.or_eq_true, beq_iff_eq, beq_iff_eq] at hsep
    rcases hsep with rfl | rfl <;> cases h

theorem TakesDigits.not_separator (h : TakesDigits text digits rest) :
    ∀ c ∈ digits, isSeparator c = false :=
  fun c hc => isSeparator_of_isDigit (h.isDigit c hc)

theorem TakesPower.not_separator (h : TakesPower text power rest) :
    ∀ c ∈ power.elim [] Power.written, isSeparator c = false := by
  cases h with
  | absent => nofun
  | signed hmark hsign htaken =>
    refine List.forall_mem_cons.mpr
      ⟨?_, List.forall_mem_cons.mpr ⟨?_, htaken.not_separator⟩⟩
    · rcases hmark with rfl | rfl <;> rfl
    · rcases hsign with rfl | rfl <;> rfl
  | unsigned hmark _ htaken =>
    refine List.forall_mem_cons.mpr ⟨?_, htaken.not_separator⟩
    rcases hmark with rfl | rfl <;> rfl

/-- Only the separator of a literal is one. -/
theorem Takes.not_separator (h : Takes text n rest) :
    (∀ c ∈ n.whole, isSeparator c = false) ∧ (∀ c ∈ n.places, isSeparator c = false) ∧
      ∀ c ∈ n.power.elim [] Power.written, isSeparator c = false := by
  cases h with
  | bare hwhole => exact ⟨hwhole.not_separator, nofun, nofun⟩
  | full hwhole hfraction _ hpower =>
    refine ⟨hwhole.not_separator, ?_, hpower.not_separator⟩
    cases hfraction with
    | absent => nofun
    | present _ htaken => exact htaken.not_separator

/-- The separator that a literal is given instead of its own, if it has one. -/
def withSeparator (c : Char) (n : Numeral) : Numeral :=
  { n with fraction := n.fraction.map fun f => { f with separator := c } }

theorem text_withSeparator (c : Char) (n : Numeral) : (n.withSeparator c).text = n.text := by
  rcases n with ⟨whole, _ | f, power⟩ <;> rfl

theorem value?_withSeparator (c : Char) (n : Numeral) :
    (n.withSeparator c).value? = n.value? := by
  rcases n with ⟨whole, _ | f, power⟩ <;> rfl

/-- A literal has a point or a comma for its separator. -/
theorem Takes.exists_separator (h : Takes text n rest) :
    ∃ c, isSeparator c = true ∧ n.withSeparator c = n := by
  have hfraction {text rest whole : List Char} {fraction : Option Fraction} {power : Option Power}
      (h : TakesFraction text fraction rest) : ∃ c, isSeparator c = true ∧
        (⟨whole, fraction, power⟩ : Numeral).withSeparator c = ⟨whole, fraction, power⟩ := by
    cases h with
    | absent => exact ⟨'.', rfl, rfl⟩
    | present hc => exact ⟨_, hc, rfl⟩
  cases h with
  | bare _ h => exact hfraction h
  | full _ h => exact hfraction h

/-- Whichever separator stands in a literal, its text has a point there. -/
theorem Takes.map_pointed_withSeparator {c : Char} (h : Takes text n rest)
    (hc : isSeparator c = true) : (n.withSeparator c).written.map pointed = n.text := by
  obtain ⟨hwhole, hplaces, hpower⟩ := h.not_separator
  obtain ⟨whole, fraction, power⟩ := n
  rcases fraction with _ | ⟨separator, digits⟩
  · simp only [withSeparator, written, Numeral.text, Option.map_none, Option.elim_none,
      List.append_nil, List.map_append]
    rw [map_pointed hwhole, map_pointed hpower]
  · simp only [withSeparator, written, Numeral.text, Option.map_some, Option.elim_some,
      List.map_append, List.map_cons]
    have hdigits : digits.map pointed = digits := map_pointed hplaces
    rw [map_pointed hwhole, hdigits, map_pointed hpower, isSeparator_iff.mp hc]

theorem Takes.text_eq (h : Takes text n rest) : n.text = n.written.map pointed := by
  obtain ⟨c, hc, heq⟩ := h.exists_separator
  rw [← h.map_pointed_withSeparator hc, heq]

/-- A literal in which points and commas have been exchanged is one with another separator. -/
theorem Takes.exists_withSeparator {v : List Char} (h : Takes text n rest)
    (hv : v.map pointed = n.written.map pointed) :
    ∃ c, isSeparator c = true ∧ v = (n.withSeparator c).written := by
  obtain ⟨hwhole, hplaces, hpower⟩ := h.not_separator
  obtain ⟨whole, fraction, power⟩ := n
  rcases fraction with _ | ⟨separator, digits⟩
  · refine ⟨'.', rfl, eq_of_map_pointed (fun c hc => ?_) hv⟩
    simp only [withSeparator, written, Option.map_none, Option.elim_none, List.append_nil,
      List.mem_append] at hc
    exact hc.elim (hwhole c) (hpower c)
  · rw [← h.text_eq] at hv
    simp only [Numeral.text, Option.elim_some, List.append_assoc, List.cons_append] at hv
    obtain ⟨front, back, rfl, hfront, hback⟩ := List.map_eq_append_iff.mp hv
    obtain ⟨c, tail, rfl, hc, htail⟩ := List.map_eq_cons_iff.mp hback
    obtain rfl := eq_of_map_pointed hwhole (by rw [hfront, map_pointed hwhole])
    have hbehind : ∀ d ∈ digits ++ power.elim [] Power.written, isSeparator d = false :=
      fun d hd => (List.mem_append.mp hd).elim (hplaces d) (hpower d)
    obtain rfl := eq_of_map_pointed hbehind (by rw [htail, map_pointed hbehind])
    refine ⟨c, isSeparator_iff.mpr hc, ?_⟩
    simp [withSeparator, written]

/-- **With another separator a literal is taken as before.** -/
theorem Takes.withSeparator {c : Char} (h : Takes text n rest) (hc : isSeparator c = true) :
    Takes ((n.withSeparator c).written ++ rest) (n.withSeparator c) rest := by
  have hdigits {whole more tail : List Char} (h : TakesDigits text whole more) :
      TakesDigits (whole ++ c :: tail) whole (c :: tail) := by
    refine ⟨rfl, h.isDigit, ?_⟩
    rintro d ⟨⟩
    rcases hd : c.isDigit with _ | _
    · rfl
    · rw [isSeparator_of_isDigit hd] at hc
      cases hc
  suffices htext : ∃ taken, Takes taken (n.withSeparator c) rest by
    obtain ⟨taken, htaken⟩ := htext
    rwa [htaken.append]
  cases h with
  | bare hwhole hfraction =>
    cases hfraction with
    | present _ htaken => exact ⟨_, .bare (hdigits hwhole) (.present hc htaken)⟩
  | full hwhole hfraction hbare hpower =>
    cases hfraction with
    | absent h => exact ⟨_, .full hwhole (.absent h) hbare hpower⟩
    | present _ htaken =>
      refine ⟨_, .full (hdigits hwhole) (.present hc htaken) ?_ hpower⟩
      rintro separator ⟨⟩
      exact hbare _ rfl

end Numeral

end Formulary
