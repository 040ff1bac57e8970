import Formulary.Token.Scan
import Mathlib.Data.List.TakeWhile

/-!
# The tokens of a text

Scanning goes on until nothing but blanks is left or a token is an error. `Cut` says what the run
makes of a text, and what there is to know about the tokens is proved of it by induction:

* `Scanner.cut` — a run cuts its text in this way;
* `Cut.eq_nil_iff` — only a text of blanks has no tokens;
* `Cut.finish_eq` — a text without an error ends at its last character;
* `Cut.unique` — a text is cut in one way only;
* `Cut.exists_lexeme_of_mem` — every token stands in the text, at its place;
* `Cut.readable_of_mem` — numbers among the tokens are finite, and the end is not among them;
* `Cut.pairwise_places` — no two tokens stand at the same place;
* `Lexes` — the tokens at the front of a text without blanks.
-/

namespace Formulary

/-! ## One token -/

/-- A token that can stand in a text: it is not the end, and if it is a number, this is finite. -/
def Token.Readable : Token → Prop
  | number x => x.isFinite = true
  | endOfText => False
  | _ => True

theorem isFinite_circleNumber : circleNumber.isFinite = true := by decide +kernel

theorem isFinite_naturalBase : naturalBase.isFinite = true := by decide +kernel

/-- A literal has a finite value or none. -/
theorem Numeral.isFinite_of_value? {n : Numeral} {x : Binary64} (h : n.value? = some x) :
    x.isFinite = true := by
  rw [value?] at h
  obtain ⟨hx, heq⟩ := Option.ite_none_right_eq_some.mp h
  rw [← Option.some.inj heq]
  exact (Bool.and_eq_true_iff.mp hx).2

theorem readable_of_signToken? {c : Char} {t : Token} (h : signToken? c = some t) :
    t.Readable := by
  rw [signToken?.eq_def] at h
  split at h <;> cases h <;> trivial

theorem readable_wordToken (name word : List Char) : (wordToken name word).Readable := by
  rw [wordToken]
  split
  · exact isFinite_circleNumber
  · split
    · exact isFinite_naturalBase
    · split
      · trivial
      · split <;> trivial

theorem readable_wordLexeme (name cs : List Char) : (wordLexeme name cs).token.Readable := by
  simp only [wordLexeme]
  split
  · split
    · trivial
    · exact readable_wordToken name _
  · exact readable_wordToken name _

theorem readable_constantLexeme (cs : List Char) : (constantLexeme cs).token.Readable := by
  simp only [constantLexeme]
  split <;> trivial

theorem readable_numberLexeme (cs : List Char) : (numberLexeme cs).token.Readable := by
  simp only [numberLexeme]
  split
  · next x hx => exact Numeral.isFinite_of_value? hx
  · trivial

theorem readable_lexeme (name : List Char) (c : Char) (cs : List Char) :
    (lexeme name c cs).token.Readable := by
  rw [lexeme]
  split
  · next t ht => exact readable_of_signToken? ht
  · split
    · exact readable_constantLexeme cs
    · split
      · exact readable_numberLexeme (c :: cs)
      · split
        · exact readable_wordLexeme name (c :: cs)
        · trivial

theorem Token.Readable.ne_endOfText {t : Token} (h : t.Readable) : t ≠ .endOfText := by
  rintro rfl
  exact h

namespace Scanner

variable {s s' : Scanner} {t : Token}

theorem next_of_stopped (h : s.stopped = true) :
    s.next = (.endOfText, { s with start := s.position }) := by
  rw [next, if_pos h]

theorem next_of_blanks (hs : s.stopped = false) (h : s.rest.dropWhile isBlank = []) :
    s.next = (.endOfText, { s with
      rest := []
      position := s.position + (s.rest.takeWhile isBlank).length
      start := s.position + (s.rest.takeWhile isBlank).length }) := by
  rw [next, if_neg (by rw [hs]; exact Bool.false_ne_true)]
  simp only [h]

theorem next_of_lexeme {c : Char} {cs : List Char} (hs : s.stopped = false)
    (h : s.rest.dropWhile isBlank = c :: cs) :
    s.next = ((lexeme s.name c cs).token, { s with
      rest := (lexeme s.name c cs).rest
      position := s.position + (s.rest.takeWhile isBlank).length +
        (lexeme s.name c cs).written.length
      start := s.position + (s.rest.takeWhile isBlank).length
      stopped := (lexeme s.name c cs).token.isError }) := by
  rw [next, if_neg (by rw [hs]; exact Bool.false_ne_true)]
  simp only [h]

/-- What a call does: the text has ended at an error, or nothing but blanks is left, or there is a
token behind some blanks. -/
theorem next_cases (s : Scanner) :
    (s.stopped = true ∧ s.next = (.endOfText, { s with start := s.position })) ∨
    (s.stopped = false ∧ (∀ c ∈ s.rest, isBlank c = true) ∧
      s.next = (.endOfText, { s with
        rest := []
        position := s.position + s.rest.length
        start := s.position + s.rest.length })) ∨
    ∃ (blanks : List Char) (c : Char) (cs : List Char), s.stopped = false ∧
      s.rest = blanks ++ c :: cs ∧ (∀ b ∈ blanks, isBlank b = true) ∧ isBlank c = false ∧
      s.next = ((lexeme s.name c cs).token, { s with
        rest := (lexeme s.name c cs).rest
        position := s.position + blanks.length + (lexeme s.name c cs).written.length
        start := s.position + blanks.length
        stopped := (lexeme s.name c cs).token.isError }) := by
  by_cases hs : s.stopped = true
  · exact .inl ⟨hs, next_of_stopped hs⟩
  · rw [Bool.not_eq_true] at hs
    have htext : s.rest.takeWhile isBlank ++ s.rest.dropWhile isBlank = s.rest :=
      List.takeWhile_append_dropWhile
    have hblanks : ∀ b ∈ s.rest.takeWhile isBlank, isBlank b = true :=
      fun b hb => List.mem_takeWhile_imp hb
    rcases hd : s.rest.dropWhile isBlank with _ | ⟨c, cs⟩
    · rw [hd, List.append_nil] at htext
      have hnext := next_of_blanks hs hd
      rw [htext] at hnext hblanks
      exact .inr (.inl ⟨hs, hblanks, hnext⟩)
    · rw [hd] at htext
      have hc : isBlank c = false := by
        have hhead := List.head?_dropWhile_not isBlank s.rest
        rw [hd] at hhead
        exact hhead
      exact .inr (.inr ⟨_, c, cs, hs, htext.symm, hblanks, hc, next_of_lexeme hs hd⟩)

theorem tokens_of_end (h : s.next = (.endOfText, s')) : s.tokens = ([], s'.start) := by
  rw [tokens]
  split
  next token after hn =>
    obtain ⟨rfl, rfl⟩ := Prod.mk.inj (h.symm.trans hn)
    rw [dif_pos rfl]

theorem tokens_of_token (h : s.next = (t, s')) (ht : t ≠ .endOfText) :
    s.tokens = (⟨t, s'.start⟩ :: s'.tokens.1, s'.tokens.2) := by
  rw [tokens]
  split
  next token after hn =>
    obtain ⟨rfl, rfl⟩ := Prod.mk.inj (h.symm.trans hn)
    rw [dif_neg ht]

end Scanner

/-! ## All tokens -/

/-- How a text is cut into tokens with their places, the place of its first character being given,
and where it ends. -/
inductive Cut (name : List Char) : Nat → List Char → List Located → Nat → Prop
  /-- nothing but blanks is left -/
  | blanks {place : Nat} {blanks : List Char} (hblanks : ∀ b ∈ blanks, isBlank b = true) :
    Cut name place blanks [] (place + blanks.length)
  /-- a token that is an error is the last one -/
  | error {place : Nat} {blanks : List Char} {c : Char} {cs : List Char}
    (hblanks : ∀ b ∈ blanks, isBlank b = true) (hc : isBlank c = false)
    (herror : (lexeme name c cs).token.isError = true) :
    Cut name place (blanks ++ c :: cs) [⟨(lexeme name c cs).token, place + blanks.length⟩]
      (place + blanks.length + (lexeme name c cs).written.length)
  /-- any other token, with what follows it -/
  | token {place : Nat} {blanks : List Char} {c : Char} {cs : List Char} {later : List Located}
    {finish : Nat} (hblanks : ∀ b ∈ blanks, isBlank b = true) (hc : isBlank c = false)
    (herror : (lexeme name c cs).token.isError = false)
    (hlater : Cut name (place + blanks.length + (lexeme name c cs).written.length)
      (lexeme name c cs).rest later finish) :
    Cut name place (blanks ++ c :: cs)
      (⟨(lexeme name c cs).token, place + blanks.length⟩ :: later) finish

/-- The text at a place after the first token. -/
theorem drop_later {name cs : List Char} {c : Char} {place start : Nat} (blanks : List Char)
    (hstart : place + blanks.length + (lexeme name c cs).written.length ≤ start) :
    (blanks ++ c :: cs).drop (start - place) = (lexeme name c cs).rest.drop
      (start - (place + blanks.length + (lexeme name c cs).written.length)) := by
  obtain ⟨more, rfl⟩ := Nat.exists_eq_add_of_le hstart
  have hfront : place + blanks.length + (lexeme name c cs).written.length + more - place =
      (blanks ++ (lexeme name c cs).written).length + more := by
    rw [List.length_append]
    omega
  rw [Nat.add_sub_cancel_left, hfront, ← lexeme_append name c cs, ← List.append_assoc,
    List.drop_length_add_append]

/-- The places of some tokens and of the end after them. -/
def places (located : List Located) (finish : Nat) : List Nat :=
  located.map Located.start ++ [finish]

theorem places_append (before rest : List Located) (finish : Nat) :
    places (before ++ rest) finish = before.map Located.start ++ places rest finish := by
  simp [places]

/-- **A run cuts the text that is left.** -/
theorem Scanner.cut (s : Scanner) (hs : s.stopped = false) :
    Cut s.name s.position s.rest s.tokens.1 s.tokens.2 := by
  rcases next_cases s with
    ⟨hstopped, -⟩ | ⟨-, hblanks, hnext⟩ | ⟨blanks, c, cs, -, hrest, hblanks, hc, hnext⟩
  · rw [hs] at hstopped
    cases hstopped
  · rw [tokens_of_end hnext]
    exact .blanks hblanks
  · -- what follows depends on whether the token ends the text
    have htokens := tokens_of_token hnext (readable_lexeme s.name c cs).ne_endOfText
    rw [hrest]
    rcases herror : (lexeme s.name c cs).token.isError with _ | _
    · have hshort : (lexeme s.name c cs).rest.length < s.rest.length := by
        have hrest' := length_rest_lexeme_lt s.name c cs
        rw [hrest, List.length_append, List.length_cons]
        omega
      have hlater := cut ⟨s.name, (lexeme s.name c cs).rest,
        s.position + blanks.length + (lexeme s.name c cs).written.length,
        s.position + blanks.length, false⟩ rfl
      rw [herror] at htokens
      rw [htokens]
      exact .token hblanks hc herror hlater
    · rw [herror, tokens_of_end (next_of_stopped (s := ⟨_, _, _, _, true⟩) rfl)] at htokens
      rw [htokens]
      exact .error hblanks hc herror
  termination_by s.rest.length

theorem not_forall_isBlank {c : Char} (hc : isBlank c = false) (blanks cs : List Char) :
    ¬ ∀ b ∈ blanks ++ c :: cs, isBlank b = true := by
  intro hall
  rw [hall c (List.mem_append_right _ List.mem_cons_self)] at hc
  cases hc

namespace Cut

variable {name : List Char} {place finish : Nat} {text : List Char} {located : List Located}

/-- **Only a text of blanks has no tokens.** -/
theorem eq_nil_iff (h : Cut name place text located finish) :
    located = [] ↔ ∀ c ∈ text, isBlank c = true := by
  cases h with
  | blanks hblanks => exact ⟨fun _ => hblanks, fun _ => rfl⟩
  | error _ hc _ | token _ hc _ _ =>
    exact ⟨nofun, fun hall => absurd hall (not_forall_isBlank hc _ _)⟩

/-- **A text without an error ends at its last character.** -/
theorem finish_eq (h : Cut name place text located finish)
    (herrors : ∀ t ∈ located, t.token.isError = false) : finish = place + text.length := by
  induction h with
  | blanks _ => rfl
  | error _ _ herror =>
    rw [herrors _ List.mem_cons_self] at herror
    cases herror
  | @token place blanks c cs later finish _ _ _ _ ih =>
    have hlength := length_written_add_length_rest name c cs
    -- the blanks, the token and the rest make up the text
    rw [ih fun t ht => herrors t (List.mem_cons_of_mem _ ht), List.length_append,
      List.length_cons, ← hlength]
    omega

/-- **A text is cut in one way only.** -/
theorem unique (h : Cut name place text located finish) {located' : List Located} {finish' : Nat}
    (h' : Cut name place text located' finish') : located = located' ∧ finish = finish' := by
  -- the blanks in front are all there are before a character that is none
  have hfront {blanks blanks' cs cs' : List Char} {c c' : Char}
      (hblanks : ∀ b ∈ blanks, isBlank b = true) (hc : isBlank c = false)
      (hblanks' : ∀ b ∈ blanks', isBlank b = true) (hc' : isBlank c' = false)
      (heq : blanks ++ c :: cs = blanks' ++ c' :: cs') :
      blanks = blanks' ∧ c = c' ∧ cs = cs' := by
    have htake := congrArg (List.takeWhile isBlank) heq
    rw [List.takeWhile_append_of_pos hblanks, List.takeWhile_append_of_pos hblanks',
      List.takeWhile_cons_of_neg (Bool.not_eq_true _ ▸ hc),
      List.takeWhile_cons_of_neg (Bool.not_eq_true _ ▸ hc'), List.append_nil,
      List.append_nil] at htake
    rw [htake] at heq
    obtain ⟨rfl, rfl⟩ := List.cons.inj (List.append_cancel_left heq)
    exact ⟨htake, rfl, rfl⟩
  induction h generalizing located' finish' with
  | blanks hblanks =>
    obtain rfl := h'.eq_nil_iff.mpr hblanks
    exact ⟨rfl, (h'.finish_eq nofun).symm⟩
  | @error place blanks c cs hblanks hc herror =>
    generalize htext : blanks ++ c :: cs = text at h'
    cases h' with
    | blanks hblanks' => exact absurd (htext ▸ hblanks') (not_forall_isBlank hc _ _)
    | error hblanks' hc' _ =>
      obtain ⟨rfl, rfl, rfl⟩ := hfront hblanks hc hblanks' hc' htext
      exact ⟨rfl, rfl⟩
    | token hblanks' hc' herror' _ =>
      obtain ⟨rfl, rfl, rfl⟩ := hfront hblanks hc hblanks' hc' htext
      rw [herror] at herror'
      cases herror'
  | @token place blanks c cs later finish hblanks hc herror _ ih =>
    generalize htext : blanks ++ c :: cs = text at h'
    cases h' with
    | blanks hblanks' => exact absurd (htext ▸ hblanks') (not_forall_isBlank hc _ _)
    | error hblanks' hc' herror' =>
      obtain ⟨rfl, rfl, rfl⟩ := hfront hblanks hc hblanks' hc' htext
      rw [herror] at herror'
      cases herror'
    | token hblanks' hc' _ hlater =>
      obtain ⟨rfl, rfl, rfl⟩ := hfront hblanks hc hblanks' hc' htext
      obtain ⟨rfl, rfl⟩ := ih hlater
      exact ⟨rfl, rfl⟩

/-- **Every token stands in the text**, at its place. -/
theorem exists_lexeme_of_mem (h : Cut name place text located finish) {t : Located}
    (ht : t ∈ located) : ∃ (before : List Char) (c : Char) (cs : List Char),
      text = before ++ c :: cs ∧ t.start = place + before.length ∧ isBlank c = false ∧
        t.token = (lexeme name c cs).token := by
  induction h with
  | blanks _ => cases ht
  | error _ hc _ =>
    obtain rfl := List.mem_singleton.mp ht
    exact ⟨_, _, _, rfl, rfl, hc, rfl⟩
  | @token place blanks c cs later finish _ hc _ _ ih =>
    rcases List.mem_cons.mp ht with rfl | ht
    · exact ⟨_, _, _, rfl, rfl, hc, rfl⟩
    · obtain ⟨before, d, ds, hrest, hstart, hd, htoken⟩ := ih ht
      refine ⟨blanks ++ (lexeme name c cs).written ++ before, d, ds, ?_, ?_, hd, htoken⟩
      · rw [← lexeme_append name c cs, hrest]
        simp only [List.append_assoc]
      · rw [hstart]
        simp only [List.length_append]
        omega

theorem readable_of_mem (h : Cut name place text located finish) {t : Located}
    (ht : t ∈ located) : t.token.Readable := by
  obtain ⟨_, c, cs, _, _, _, htoken⟩ := h.exists_lexeme_of_mem ht
  rw [htoken]
  exact readable_lexeme name c cs

/-- Nothing stands before the text. -/
theorem le_of_mem_places (h : Cut name place text located finish) {position : Nat}
    (hposition : position ∈ places located finish) : place ≤ position := by
  induction h with
  | blanks _ =>
    obtain rfl := List.mem_singleton.mp hposition
    omega
  | error _ _ _ =>
    rcases List.mem_cons.mp hposition with rfl | hlater
    · exact Nat.le_add_right ..
    · obtain rfl := List.mem_singleton.mp hlater
      omega
  | token _ _ _ _ ih =>
    rcases List.mem_cons.mp hposition with rfl | hlater
    · exact Nat.le_add_right ..
    · have hle := ih hlater
      omega

/-- **No two tokens stand at the same place**: each comes after those before it, and the end after
all of them. -/
theorem pairwise_places (h : Cut name place text located finish) :
    (places located finish).Pairwise (· < ·) := by
  have hwritten (c : Char) (cs : List Char) : 0 < (lexeme name c cs).written.length :=
    List.length_pos_iff.mpr (written_ne_nil name c cs)
  induction h with
  | blanks _ => exact List.pairwise_singleton ..
  | @error place blanks c cs _ _ _ =>
    refine List.pairwise_cons.mpr ⟨?_, List.pairwise_singleton ..⟩
    intro position hposition
    obtain rfl := List.mem_singleton.mp hposition
    exact Nat.lt_add_of_pos_right (hwritten c cs)
  | @token place blanks c cs later finish _ _ _ hlater ih =>
    refine List.pairwise_cons.mpr ⟨?_, ih⟩
    intro position hposition
    have hle := hlater.le_of_mem_places hposition
    exact Nat.lt_of_lt_of_le (Nat.lt_add_of_pos_right (hwritten c cs)) hle

end Cut

/-! ## Texts without blanks -/

/-- Tokens that stand at the front of a text, with no blank among them and no error, and the text
after them. -/
inductive Lexes (name : List Char) : List Char → List Token → List Char → Prop
  | nil {text : List Char} : Lexes name text [] text
  | cons {c : Char} {cs more : List Char} {ts : List Token} (hc : isBlank c = false)
    (herror : (lexeme name c cs).token.isError = false)
    (hrest : Lexes name (lexeme name c cs).rest ts more) :
    Lexes name (c :: cs) ((lexeme name c cs).token :: ts) more

namespace Lexes

variable {name text middle more : List Char} {ts us : List Token}

/-- The text of a single token. -/
theorem single {c : Char} {cs : List Char} {t : Token} (written : List Char)
    (hc : isBlank c = false) (ht : t.isError = false)
    (hlexeme : lexeme name c cs = ⟨t, written, more⟩) :
    Lexes name (c :: cs) [t] more := by
  have hlexes : Lexes name (c :: cs) [(lexeme name c cs).token] (lexeme name c cs).rest :=
    .cons hc (by rw [hlexeme]; exact ht) .nil
  rwa [hlexeme] at hlexes

theorem append (h : Lexes name text ts middle) (h' : Lexes name middle us more) :
    Lexes name text (ts ++ us) more := by
  induction h with
  | nil => exact h'
  | cons hc herror _ ih => exact .cons hc herror (ih h')

theorem exists_cut (h : Lexes name text ts more) (hmore : more = []) (place : Nat) :
    ∃ located finish, Cut name place text located finish ∧ located.map Located.token = ts := by
  induction h generalizing place with
  | nil =>
    subst hmore
    exact ⟨[], place, .blanks nofun, rfl⟩
  | @cons c cs more ts hc herror _ ih =>
    obtain ⟨later, finish, hlater, htokens⟩ :=
      ih hmore (place + (lexeme name c cs).written.length)
    have hcut : Cut name place ([] ++ c :: cs) _ finish := .token nofun hc herror hlater
    exact ⟨_, finish, hcut, congrArg _ htokens⟩

/-- Such a text is cut into these tokens. -/
theorem map_token_eq {place finish : Nat} {located : List Located} (h : Lexes name text ts [])
    (hcut : Cut name place text located finish) : located.map Located.token = ts := by
  obtain ⟨located', finish', hcut', htokens⟩ := h.exists_cut rfl place
  rw [(hcut.unique hcut').1, htokens]

end Lexes

end Formulary
