import Formulary.Proofs.TokenEnd
import Mathlib.Data.Nat.Find

/-!
# Nothing of a text is lost

A scanner may be asked for the next token any number of times. The tokens that it gives cover the
text from left to right, and what lies between them is blank. Nothing around a token has a part in
it: its own characters are scanned as the same token.

* `Scanner.after`, `Scanner.tokenAt` — the scanner after some calls, and the token of a call;
  `Scanner.startAt`, `Scanner.finishAt` — the places where this token begins and ends;
* `Scanner.At` — the scanner has passed a text up to its position, which every call keeps up;
* `Scanner.At.isBlank_before_start`, `Scanner.At.next_alone` — what one call passes over, and what
  it takes;
* `Scanner.Lossless` — what holds of all calls on one text; `Scanner.lossless_ofText` — it does.
-/

namespace Formulary

namespace Scanner

variable {s : Scanner} {text : List Char}

/-! ## One call -/

theorem name_next (s : Scanner) : s.next.2.name = s.name := by
  rcases next_cases s with ⟨-, h⟩ | ⟨-, -, h⟩ | ⟨_, _, _, -, -, -, -, h⟩ <;> rw [h]

/-- An error stops the scanner, and nothing else does. -/
theorem stopped_next (s : Scanner) : s.next.2.stopped = (s.stopped || s.next.1.isError) := by
  rcases next_cases s with ⟨hs, h⟩ | ⟨hs, -, h⟩ | ⟨_, _, _, hs, -, -, -, h⟩ <;>
  · rw [h]
    simp [hs, Token.isError]

/-- Once the end has been given, a call changes nothing any more. -/
theorem next_of_end (h : s.next.1 = .endOfText) : s.next.2.next = (.endOfText, s.next.2) := by
  rcases next_cases s with ⟨hs, hnext⟩ | ⟨hs, -, hnext⟩ | ⟨_, c, cs, -, -, -, -, hnext⟩
  · rw [hnext]
    exact next_of_stopped hs
  · rw [hnext]
    exact next_of_blanks hs rfl
  · rw [hnext] at h
    exact absurd h (readable_lexeme s.name c cs).ne_endOfText

/-- The scanner has passed a text up to its position, and the rest is left. -/
structure At (text : List Char) (s : Scanner) : Prop where
  /-- there is no place behind the end -/
  position_le : s.position ≤ text.length
  /-- what is left is the text from there on -/
  rest_eq : s.rest = text.drop s.position

theorem at_ofText (name text : String) : At text.toList (ofText name text) := ⟨Nat.zero_le _, rfl⟩

namespace At

theorem length_rest (h : At text s) : s.position + s.rest.length = text.length := by
  have hle := h.position_le
  rw [h.rest_eq, List.length_drop]
  omega

/-- A character that is left, by its place in the text. -/
theorem getElem?_rest (h : At text s) {place : Nat} (hle : s.position ≤ place) :
    s.rest[place - s.position]? = text[place]? := by
  rw [h.rest_eq, List.getElem?_drop, Nat.add_sub_cancel' hle]

/-- The scanner behind some characters that are left. -/
theorem pass (h : At text s) {passed rest : List Char} {t : Scanner}
    (hrest : s.rest = passed ++ rest) (hposition : t.position = s.position + passed.length)
    (hleft : t.rest = rest) : At text t where
  position_le := by
    have hlength := h.length_rest
    rw [hrest, List.length_append] at hlength
    omega
  rest_eq := by rw [hposition, ← List.drop_drop, ← h.rest_eq, hrest, List.drop_left, hleft]

/-- **A call keeps up with the text**: it counts all that it passes. -/
theorem next (h : At text s) : At text s.next.2 := by
  rcases next_cases s with ⟨-, hnext⟩ | ⟨-, -, hnext⟩ | ⟨blanks, c, cs, -, hrest, -, -, hnext⟩
  · rw [hnext]
    exact ⟨h.position_le, h.rest_eq⟩
  · rw [hnext]
    exact h.pass (List.append_nil _).symm rfl rfl
  · rw [hnext]
    have hsplit : s.rest =
        (blanks ++ (lexeme s.name c cs).written) ++ (lexeme s.name c cs).rest := by
      rw [List.append_assoc, lexeme_append, hrest]
    refine h.pass hsplit ?_ rfl
    rw [List.length_append, Nat.add_assoc]

/-- Whatever a call passes over in front of a token is blank. -/
theorem isBlank_before_start (h : At text s) {place : Nat} {c : Char} (hc : text[place]? = some c)
    (hle : s.position ≤ place) (hlt : place < s.next.2.start) : isBlank c = true := by
  rw [← h.getElem?_rest hle] at hc
  rcases next_cases s with
    ⟨-, hnext⟩ | ⟨-, hblanks, -⟩ | ⟨blanks, d, ds, -, hrest, hblanks, -, hnext⟩
  · rw [hnext] at hlt
    exact absurd hle (Nat.not_le.mpr hlt)
  · exact hblanks c (List.mem_of_getElem? hc)
  · rw [hnext] at hlt
    have hplace : place - s.position < blanks.length := by
      dsimp only at hlt
      omega
    rw [hrest, List.getElem?_append_left hplace] at hc
    exact hblanks c (List.mem_of_getElem? hc)

/-- Where the text ends without an error, nothing but blanks is left, and all of it is passed. -/
theorem end_of_not_stopped (h : At text s) (hs : s.stopped = false) (ht : s.next.1 = .endOfText) :
    (∀ c ∈ s.rest, isBlank c = true) ∧ s.next.2.start = text.length := by
  rcases next_cases s with ⟨hstopped, -⟩ | ⟨-, hblanks, hnext⟩ | ⟨_, c, cs, -, -, -, -, hnext⟩
  · rw [hs] at hstopped
    cases hstopped
  · rw [hnext]
    exact ⟨hblanks, h.length_rest⟩
  · rw [hnext] at ht
    exact absurd ht (readable_lexeme s.name c cs).ne_endOfText

/-- **A token stands alone**: it covers some characters, and these are scanned as the same token. -/
theorem next_alone (h : At text s) (ht : s.next.1 ≠ .endOfText) :
    s.next.2.start < s.next.2.position ∧
    ∀ alone : Scanner, alone.name = s.name → alone.stopped = false →
      alone.rest = text.extract s.next.2.start s.next.2.position →
      alone.next.1 = s.next.1 ∧ alone.next.2.next.1 = .endOfText := by
  rcases next_cases s with ⟨-, hnext⟩ | ⟨-, -, hnext⟩ | ⟨blanks, c, cs, -, hrest, -, hc, hnext⟩
  · exact absurd (congrArg Prod.fst hnext) ht
  · exact absurd (congrArg Prod.fst hnext) ht
  · obtain ⟨written, hwritten, hsplit⟩ := exists_written_cons s.name c cs
    rw [hnext]
    dsimp only
    refine ⟨by rw [hwritten, List.length_cons]; omega, fun alone hname hstopped halone => ?_⟩
    -- the characters from the start of the token on, as many as it has
    have hextract : text.extract (s.position + blanks.length)
        (s.position + blanks.length + (lexeme s.name c cs).written.length) = c :: written := by
      rw [List.extract_eq_take_drop, ← List.drop_drop, ← h.rest_eq, hrest, List.drop_left,
        Nat.add_sub_cancel_left, hwritten, ← hsplit, ← List.cons_append, List.take_left]
    have hdrop : alone.rest.dropWhile isBlank = c :: written := by
      rw [halone, hextract, List.dropWhile_cons_of_neg (by rw [hc]; exact Bool.false_ne_true)]
    have hlexeme : lexeme s.name c written = { lexeme s.name c cs with rest := [] } := by
      have hend : EndsAlike (lexeme s.name c cs).rest [] := .breaks nofun
      have hsame := lexeme_of_endsAlike hend hwritten
      rwa [List.append_nil] at hsame
    rw [next_of_lexeme hstopped hdrop, hname, hlexeme]
    refine ⟨rfl, ?_⟩
    dsimp only
    rcases herror : (lexeme s.name c cs).token.isError with _ | _
    · rw [next_of_blanks rfl rfl]
    · rw [next_of_stopped rfl]

end At

/-- A call goes on from where the calls before it have come to. -/
theorem position_le_start (s : Scanner) :
    s.position ≤ s.next.2.start ∧ s.next.2.start ≤ s.next.2.position := by
  rcases next_cases s with ⟨-, h⟩ | ⟨-, -, h⟩ | ⟨_, _, _, -, -, -, -, h⟩ <;>
  · rw [h]
    dsimp only
    omega

/-! ## All calls -/

/-- The scanner after some calls. -/
def after (s : Scanner) : Nat → Scanner
  | 0 => s
  | calls + 1 => (s.after calls).next.2

/-- The token of a call, the calls being counted from zero. -/
def tokenAt (s : Scanner) (call : Nat) : Token := (s.after call).next.1

/-- The place of the first character of this token. -/
def startAt (s : Scanner) (call : Nat) : Nat := (s.after (call + 1)).start

/-- The place behind its last character. -/
def finishAt (s : Scanner) (call : Nat) : Nat := (s.after (call + 1)).position

/-- What the calls on a text give, the first `count` of them being those that give a token. -/
structure Lossless (name text : String) (count : Nat) : Prop where
  /-- there are no more tokens than characters -/
  count_le : count ≤ text.length
  /-- the calls after them give the end -/
  ends : ∀ call, (ofText name text).tokenAt call = .endOfText ↔ count ≤ call
  /-- each token covers some characters of the text -/
  covers : ∀ call < count, (ofText name text).startAt call < (ofText name text).finishAt call ∧
    (ofText name text).finishAt call ≤ text.length
  /-- each token comes after those before it -/
  ordered : ∀ call later, call < later → later < count →
    (ofText name text).finishAt call ≤ (ofText name text).startAt later
  /-- a character before the end of a token is blank, or a token covers it -/
  between : ∀ place c, text.toList[place]? = some c →
    (∃ call < count, place < (ofText name text).finishAt call) →
    isBlank c = true ∨ ∃ call < count,
      (ofText name text).startAt call ≤ place ∧ place < (ofText name text).finishAt call
  /-- if no token is an error, the characters behind the last one are blank, and the end is behind
  them -/
  finish : (∀ call < count, ((ofText name text).tokenAt call).isError = false) →
    (∀ place c, text.toList[place]? = some c →
      (∀ call < count, (ofText name text).finishAt call ≤ place) → isBlank c = true) ∧
    ∀ call, count ≤ call → (ofText name text).startAt call = text.length
  /-- the characters of a token, for themselves, are this token and nothing else -/
  alone : ∀ call < count, ∀ piece, piece = String.ofList (text.toList.extract
      ((ofText name text).startAt call) ((ofText name text).finishAt call)) →
    (ofText name piece).tokenAt 0 = (ofText name text).tokenAt call ∧
      (ofText name piece).tokenAt 1 = .endOfText
  /-- after a token that is an error, every call gives the end, which is behind this token, and
  nothing more of the text is passed -/
  latched : ∀ call, ((ofText name text).tokenAt call).isError = true → ∀ later, call < later →
    (ofText name text).tokenAt later = .endOfText ∧
    (ofText name text).startAt later = (ofText name text).finishAt call ∧
    ((ofText name text).after (later + 1)).rest = ((ofText name text).after (call + 1)).rest ∧
    ((ofText name text).after (later + 1)).position = (ofText name text).finishAt call

section

variable (s) {calls call later : Nat}

theorem name_after (calls : Nat) : (s.after calls).name = s.name := by
  induction calls with
  | zero => rfl
  | succ calls ih => rw [after, name_next, ih]

theorem At.after (h : At text s) (calls : Nat) : At text (s.after calls) := by
  induction calls with
  | zero => exact h
  | succ calls ih => exact ih.next

/-- The scanner is stopped after some calls if one of them has given an error. -/
theorem stopped_after (hs : s.stopped = false)
    (h : ∀ call < calls, (s.tokenAt call).isError = false) : (s.after calls).stopped = false := by
  induction calls with
  | zero => exact hs
  | succ calls ih =>
    have hbefore := ih fun call hlt => h call (Nat.lt_succ_of_lt hlt)
    have hlast : (s.after calls).next.1.isError = false := h calls (Nat.lt_succ_self calls)
    rw [Scanner.after, stopped_next, hbefore, hlast, Bool.or_self]

theorem position_after_le (h : call ≤ later) :
    (s.after call).position ≤ (s.after later).position := by
  induction h with
  | refl => exact Nat.le_refl _
  | @step later _ ih =>
    have hstep := position_le_start (s.after later)
    exact ih.trans (hstep.1.trans hstep.2)

/-- Once the end has been given, nothing changes any more. -/
theorem after_of_end (h : s.tokenAt call = .endOfText) (hle : call + 1 ≤ later) :
    s.after later = s.after (call + 1) ∧ s.tokenAt later = .endOfText := by
  have hend : (s.after (call + 1)).next = (.endOfText, s.after (call + 1)) := next_of_end h
  have hsame : s.after later = s.after (call + 1) := by
    induction hle with
    | refl => rfl
    | step _ ih => rw [Scanner.after, ih, hend]
  exact ⟨hsame, by rw [tokenAt, hsame, hend]⟩

/-- After an error the end is given again and again, and nothing more of the text is passed. -/
theorem latched (herror : (s.tokenAt call).isError = true) (hlt : call < later) :
    s.tokenAt later = .endOfText ∧ s.startAt later = s.finishAt call ∧
      (s.after (later + 1)).rest = (s.after (call + 1)).rest ∧
      (s.after (later + 1)).position = s.finishAt call := by
  have hstopped : (s.after (call + 1)).stopped = true := by
    rw [Scanner.after, stopped_next, show (s.after call).next.1.isError = true from herror,
      Bool.or_true]
  have hnext := next_of_stopped hstopped
  have hend : s.tokenAt (call + 1) = .endOfText := congrArg Prod.fst hnext
  have hsame := (s.after_of_end hend (Nat.succ_le_succ hlt)).1
  have htoken : s.tokenAt later = .endOfText := by
    rcases Nat.eq_or_lt_of_le hlt with rfl | hlater
    · exact hend
    · exact (s.after_of_end hend hlater).2
  have hafter : s.after (call + 1 + 1) =
      { s.after (call + 1) with start := (s.after (call + 1)).position } := congrArg Prod.snd hnext
  rw [startAt, hsame, hafter]
  exact ⟨htoken, rfl, rfl, rfl⟩

/-- Each token takes at least one character. -/
theorem length_rest_after (calls : Nat) (h : ∀ call < calls, s.tokenAt call ≠ .endOfText) :
    (s.after calls).rest.length + calls ≤ s.rest.length := by
  induction calls with
  | zero => exact Nat.le_refl _
  | succ calls ih =>
    have hbefore := ih fun call hlt => h call (Nat.lt_succ_of_lt hlt)
    have hlast := length_rest_next_lt (h calls (Nat.lt_succ_self calls))
    rw [Scanner.after]
    omega

/-- **The end comes** after no more tokens than there are characters. -/
theorem exists_end :
    ∃ count ≤ s.rest.length, ∀ call, s.tokenAt call = .endOfText ↔ count ≤ call := by
  have hex : ∃ call, s.tokenAt call = .endOfText := by
    by_contra hnone
    have hlength := s.length_rest_after (s.rest.length + 1) fun call _ hend => hnone ⟨call, hend⟩
    omega
  have hfind := Nat.find_spec hex
  refine ⟨Nat.find hex, ?_, fun call => ⟨fun hend => Nat.find_le hend, fun hle => ?_⟩⟩
  · have hlength := s.length_rest_after (Nat.find hex) fun call hlt => Nat.find_min hex hlt
    omega
  · rcases Nat.eq_or_lt_of_le hle with rfl | hlt
    · exact hfind
    · exact (s.after_of_end hfind hlt).2

/-- A character that has been passed is blank, or it is in the token of a call. -/
theorem covered_after (h : At text s) {place : Nat} {c : Char} (hc : text[place]? = some c)
    (hle : s.position ≤ place) (hlt : place < (s.after calls).position) :
    isBlank c = true ∨ ∃ call < calls, s.startAt call ≤ place ∧ place < s.finishAt call := by
  induction calls with
  | zero => exact absurd hle (Nat.not_le.mpr hlt)
  | succ calls ih =>
    by_cases hbefore : place < (s.after calls).position
    · obtain hblank | ⟨call, hcall, hcovers⟩ := ih hbefore
      · exact .inl hblank
      · exact .inr ⟨call, Nat.lt_succ_of_lt hcall, hcovers⟩
    · by_cases hstart : place < (s.after calls).next.2.start
      · exact .inl ((h.after s calls).isBlank_before_start hc (Nat.not_lt.mp hbefore) hstart)
      · exact .inr ⟨calls, Nat.lt_succ_self calls, Nat.not_lt.mp hstart, hlt⟩

end

/-- **Nothing of a text is lost, and its tokens stand alone.** -/
theorem lossless_ofText (name text : String) : ∃ count, Lossless name text count := by
  obtain ⟨count, hcount, hends⟩ := (ofText name text).exists_end
  have hat (calls : Nat) := (at_ofText name text).after _ calls
  have hlength : text.toList.length = text.length := String.length_toList
  have htoken (call : Nat) (hlt : call < count) :
      ((ofText name text).after call).next.1 ≠ .endOfText :=
    fun hend => Nat.not_le.mpr hlt ((hends call).mp hend)
  refine ⟨count, ?_, hends, ?_, ?_, ?_, ?_, ?_, ?_⟩
  · rwa [← hlength]
  · intro call hlt
    refine ⟨((hat call).next_alone (htoken call hlt)).1, ?_⟩
    rw [← hlength]
    exact (hat (call + 1)).position_le
  · intro call later hlt _
    exact (position_after_le _ hlt).trans (position_le_start _).1
  · rintro place c hc ⟨call, hcall, hlt⟩
    obtain hblank | ⟨before, hbefore, hcovers⟩ :=
      covered_after _ (at_ofText name text) hc (Nat.zero_le _) hlt
    · exact .inl hblank
    · exact .inr ⟨before, by omega, hcovers⟩
  · intro herrors
    have hstopped := stopped_after _ rfl herrors
    obtain ⟨hblanks, hstart⟩ :=
      (hat count).end_of_not_stopped hstopped ((hends count).mpr (Nat.le_refl _))
    refine ⟨fun place c hc hbehind => ?_, fun call hle => ?_⟩
    · -- behind the last token, and so left after the calls that give one
      have hle : ((ofText name text).after count).position ≤ place := by
        cases count with
        | zero => exact Nat.zero_le _
        | succ last => exact hbehind last (Nat.lt_succ_self last)
      rw [← (hat count).getElem?_rest hle] at hc
      exact hblanks c (List.mem_of_getElem? hc)
    · have hend := after_of_end _ ((hends count).mpr (Nat.le_refl _)) (Nat.succ_le_succ hle)
      rw [startAt, hend.1, ← hlength]
      exact hstart
  · rintro call hlt piece rfl
    refine ((hat call).next_alone (htoken call hlt)).2 _ ?_ rfl ?_
    · exact (name_after (ofText name text) call).symm
    · exact String.toList_ofList
  · exact fun call herror later hlt => latched _ herror hlt

/-- A character that belongs to no formula is the last token, and the end comes right behind it. -/
example : (ofText "x" "x ?x").tokenAt 1 = .illegal '?' ∧ (ofText "x" "x ?x").startAt 2 = 3 := by
  decide

end Scanner

end Formulary
