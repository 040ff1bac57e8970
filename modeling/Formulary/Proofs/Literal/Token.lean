import Formulary.Proofs.Literal.Denoted
import Formulary.Proofs.Scanning

/-!
# The token of a number literal

A digit begins a literal, and the literal is all of the token. Its token is the number nearest to
what its characters denote once a comma counts as a point. It is an error if a separator or a sign
has no digit after it, or if the number is beyond the finite ones, and in no other case.

* `Numeral.token` — the token of a literal;
* `Scanner.next_of_takes` — what a call does when a literal comes next;
* `Scanner.Recognizes` — what there is to know about this call;
* `Scanner.recognizes_literal` — all of it holds wherever a digit comes next.
-/

namespace Formulary

open Numeral (Takes LacksDigits Denotes pointed takes_iff)

namespace Binary64

theorem magnitude_ofDecimal (d : Decimal) : (ofDecimal d).magnitude = placeOfDecimal d :=
  Nat.min_eq_left ((placeOfDecimal_le d).trans (by decide))

theorem isFinite_ofDecimal {d : Decimal} :
    (ofDecimal d).isFinite = true ↔ placeOfDecimal d ≠ infinityPlace := by
  rw [isFinite, magnitude_ofDecimal, decide_eq_true_eq]
  exact Nat.lt_iff_le_and_ne.trans (and_iff_right (placeOfDecimal_le d))

end Binary64

variable {text rest : List Char} {n : Numeral}

/-! ## The token -/

namespace Numeral

/-- The token of a literal. -/
def token (n : Numeral) : Token :=
  match n.value? with
  | some x => .number x
  | none => .malformed n.text

theorem token_withSeparator (c : Char) (n : Numeral) : (n.withSeparator c).token = n.token := by
  rw [token, token, value?_withSeparator, text_withSeparator]

theorem Takes.token_of_lacksDigits (h : Takes text n rest) (hn : n.LacksDigits) :
    n.token = .malformed (n.written.map pointed) := by
  have hcomplete : n.isComplete = false := by
    rw [← Bool.not_eq_true, h.isComplete_iff, not_not]
    exact hn
  rw [token, value?, hcomplete, ← h.text_eq]
  rfl

theorem Takes.token_of_not_lacksDigits (h : Takes text n rest) (hn : ¬ n.LacksDigits) :
    n.token = if (Binary64.ofDecimal n.decimal).isFinite then
      .number (.ofDecimal n.decimal) else .malformed (n.written.map pointed) := by
  rw [token, value?, h.isComplete_iff.mpr hn, ← h.text_eq]
  by_cases hfinite : (Binary64.ofDecimal n.decimal).isFinite = true <;> simp [hfinite]

/-- What a literal with all its digits denotes, and the number nearest to it. -/
theorem Takes.denotes_written (h : Takes text n rest) (hwhole : n.whole ≠ [])
    (hn : ¬ n.LacksDigits) :
    (∀ q, Denotes (n.written.map pointed) q ↔ q = n.decimal.toRat) ∧
      Binary64.Nearest n.decimal.toRat (Binary64.ofDecimal n.decimal).magnitude := by
  have hdenotes := h.denotes_text hwhole (h.isComplete_iff.mpr hn)
  rw [h.text_eq] at hdenotes
  constructor
  · refine fun q => ⟨fun hq => hq.unique hdenotes, ?_⟩
    rintro rfl
    exact hdenotes
  · rw [Binary64.magnitude_ofDecimal]
    exact Binary64.nearest_placeOfDecimal n.decimal

/-- **The token is an error only for missing digits or a number out of range.** -/
theorem Takes.token_malformed_iff (h : Takes text n rest) (hwhole : n.whole ≠ []) :
    (∃ collected, n.token = .malformed collected) ↔ n.LacksDigits ∨
      ∃ q, Denotes (n.written.map pointed) q ∧ Binary64.Nearest q Binary64.infinityPlace := by
  by_cases hn : n.LacksDigits
  · simp [hn, h.token_of_lacksDigits hn]
  · obtain ⟨hdenotes, hnearest⟩ := h.denotes_written hwhole hn
    rw [h.token_of_not_lacksDigits hn]
    by_cases hfinite : (Binary64.ofDecimal n.decimal).isFinite = true
    · simp only [hfinite, if_true, reduceCtorEq, exists_false, hn, false_or, false_iff]
      rintro ⟨q, hq, hinfinity⟩
      obtain rfl := (hdenotes q).mp hq
      rw [Binary64.magnitude_ofDecimal] at hnearest
      exact Binary64.isFinite_ofDecimal.mp hfinite (hnearest.unique hinfinity)
    · have hplace := not_not.mp (mt Binary64.isFinite_ofDecimal.mpr hfinite)
      rw [Binary64.magnitude_ofDecimal, hplace] at hnearest
      simp only [hfinite, Bool.false_eq_true, if_false, Token.malformed.injEq, exists_eq', true_iff]
      exact .inr ⟨_, (hdenotes _).mpr rfl, hnearest⟩

end Numeral

/-! ## The call -/

namespace Scanner

variable {s : Scanner} {blanks : List Char}

/-- A literal that comes next is the next token, and its characters are passed. -/
theorem next_of_takes (hs : s.stopped = false) (hrest : s.rest = blanks ++ text)
    (hblanks : ∀ b ∈ blanks, isBlank b = true) (h : Takes text n rest)
    (hwhole : ∃ c ∈ n.whole.head?, c.isDigit = true) :
    s.next = (n.token, { s with
      rest := rest
      position := s.position + blanks.length + n.written.length
      start := s.position + blanks.length
      stopped := n.token.isError }) := by
  obtain ⟨c, hhead, hc⟩ := hwhole
  obtain ⟨cs, rfl⟩ : ∃ cs, text = c :: cs := by
    obtain ⟨ds, hwhole⟩ := List.head?_eq_some_iff.mp hhead
    rw [← h.append, Numeral.written, hwhole]
    exact ⟨_, rfl⟩
  have hends : ∀ b ∈ (c :: cs).head?, isBlank b = false := by
    rintro b ⟨⟩
    exact isBlank_of_isDigit hc
  obtain ⟨htake, hdrop⟩ := takeWhile_dropWhile_append hblanks hends
  rw [← hrest] at htake hdrop
  have hlexeme : lexeme s.name c cs = ⟨n.token, n.written, rest⟩ := by
    rw [lexeme_of_isDigit hc, numberLexeme, takes_iff.mp h]
    rfl
  rw [next_of_lexeme hs hdrop, hlexeme, htake]

/-- What there is to know about the next token if it is the literal `n` behind some blanks, with
`rest` after it. -/
structure Recognizes (s : Scanner) (blanks : List Char) (n : Numeral) (rest : List Char) :
    Prop where
  /-- the blanks and the literal are passed, and nothing else -/
  passed : s.next.2 = { s with
    rest := rest
    position := s.position + blanks.length + n.written.length
    start := s.position + blanks.length
    stopped := s.next.1.isError }
  /-- digits that are missing make an error of it -/
  lacking : n.LacksDigits → s.next.1 = .malformed (n.written.map pointed)
  /-- otherwise its characters denote just one number, and it is the number nearest to this one, or
  an error if there is no such number but infinity -/
  denoted : ¬ n.LacksDigits → ∃ (q : ℚ) (x : Binary64),
    (∀ r, Denotes (n.written.map pointed) r ↔ r = q) ∧ x.negative = false ∧
      Binary64.Nearest q x.magnitude ∧
      s.next.1 = if x.isFinite then .number x else .malformed (n.written.map pointed)
  /-- in no other case is it an error -/
  malformed_iff : (∃ collected, s.next.1 = .malformed collected) ↔ n.LacksDigits ∨
    ∃ q, Denotes (n.written.map pointed) q ∧ Binary64.Nearest q Binary64.infinityPlace
  /-- points and commas may be exchanged in it -/
  exchanged : ∀ written : List Char, written.map pointed = n.written.map pointed →
    next { s with rest := blanks ++ (written ++ rest) } = s.next

/-- **Number literals are recognised exactly.** Where a digit comes next, there is one literal that
is taken, and it is the next token. -/
theorem recognizes_literal {c : Char} {cs : List Char} (hs : s.stopped = false)
    (hrest : s.rest = blanks ++ c :: cs) (hblanks : ∀ b ∈ blanks, isBlank b = true)
    (hc : c.isDigit = true) :
    ∃ n rest, (∀ n' rest', Takes (c :: cs) n' rest' ↔ n' = n ∧ rest' = rest) ∧
      s.Recognizes blanks n rest := by
  obtain ⟨n, rest, hread⟩ : ∃ n rest, Numeral.read (c :: cs) = (n, rest) := ⟨_, _, rfl⟩
  have h := takes_iff.mpr hread
  obtain ⟨ds, hwhole⟩ := h.exists_whole_cons hc
  have hhead : ∃ d ∈ n.whole.head?, d.isDigit = true := ⟨c, by rw [hwhole]; rfl, hc⟩
  have hne : n.whole ≠ [] := by
    rw [hwhole]
    exact List.cons_ne_nil c ds
  have hnext := next_of_takes hs hrest hblanks h hhead
  refine ⟨n, rest, fun n' rest' => ?_, ?_, ?_, ?_, ?_, ?_⟩
  · rw [takes_iff, hread, Prod.mk.injEq, eq_comm, @eq_comm _ rest]
  · rw [hnext]
  · intro hn
    rw [hnext, h.token_of_lacksDigits hn]
  · intro hn
    obtain ⟨hdenotes, hnearest⟩ := h.denotes_written hne hn
    rw [hnext]
    exact ⟨_, _, hdenotes, rfl, hnearest, h.token_of_not_lacksDigits hn⟩
  · rw [hnext]
    exact h.token_malformed_iff hne
  · intro written hwritten
    obtain ⟨separator, hseparator, rfl⟩ := h.exists_withSeparator hwritten
    have hlength : (n.withSeparator separator).written.length = n.written.length := by
      simpa using congrArg List.length hwritten
    have hagain : next { s with rest := blanks ++ ((n.withSeparator separator).written ++ rest) } =
        _ := next_of_takes hs rfl hblanks (h.withSeparator hseparator) hhead
    rw [hagain, hnext, Numeral.token_withSeparator, hlength]

/-- A comma for a point, and a letter that ends the literal. -/
theorem recognizes_literal_comma :
    (ofText "x" "1,5E-3x").Recognizes []
      ⟨['1'], some ⟨',', ['5']⟩, some ⟨'E', some '-', ['3']⟩⟩ ['x'] ∧
    (ofText "x" "1.5E-3x").next = (ofText "x" "1,5E-3x").next := by
  obtain ⟨n, rest, htakes, h⟩ := recognizes_literal (s := ofText "x" "1,5E-3x") rfl
    (List.nil_append _).symm nofun (c := '1') rfl
  obtain ⟨rfl, rfl⟩ := (htakes ⟨['1'], some ⟨',', ['5']⟩, some ⟨'E', some '-', ['3']⟩⟩ ['x']).mp
    (takes_iff.mpr rfl)
  exact ⟨h, h.exchanged "1.5E-3".toList rfl⟩

end Scanner

end Formulary
