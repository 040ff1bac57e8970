import Formulary.Proofs.MovedTokens
import Formulary.Proofs.TokenEnd

/-!
# Blanks between tokens

Blanks may be put anywhere but inside a token: they change the places of the tokens after them, and
nothing else. A token that is an error ends the text, so after it there is no token they could
break.

* `InsideToken` — the places where no blank may be put;
* `Cut.shift`, `Cut.insert` — the tokens of a text that begins later, and of a text with more blanks
  in it;
* `Expr.ofText_insert_blanks` — the answer to such a text.
-/

namespace Formulary

/-! ## Places -/

/-- How many characters the token at the front of a text has. -/
def tokenLength (name : List Char) : List Char → Nat
  | [] => 0
  | c :: cs => (lexeme name c cs).written.length

/-- A place of a text after the first character of a token and before its end. -/
def InsideToken (settings : Settings) (text : String) (place : Nat) : Prop :=
  ∃ t ∈ locatedOf settings text, t.start < place ∧
    place < t.start + tokenLength settings.variableName.toList (text.toList.drop t.start)

instance (settings : Settings) (text : String) (place : Nat) :
    Decidable (InsideToken settings text place) :=
  inferInstanceAs (Decidable (∃ t ∈ locatedOf settings text, _ ∧ _))

/-- The place of a character after `count` characters have been put in front of the one at
`from`. -/
def placeAfter (first count place : Nat) : Nat := if place < first then place else place + count

theorem placeAfter_of_lt {first place : Nat} (h : place < first) (count : Nat) :
    placeAfter first count place = place := if_pos h

theorem placeAfter_of_le {first place : Nat} (h : first ≤ place) (count : Nat) :
    placeAfter first count place = place + count := if_neg (Nat.not_lt.mpr h)

/-- A token at another place. -/
def Located.at (move : Nat → Nat) (t : Located) : Located := ⟨t.token, move t.start⟩

/-! ## The first token -/

/-- Where the first token of a text ends before a place, it is the same token with blanks put in
there. -/
theorem exists_lexeme_insert {name blanks u v w cs : List Char} {c : Char}
    (hblanks : ∀ b ∈ blanks, isBlank b = true) (hw : ∀ b ∈ w, isBlank b = true)
    (htext : blanks ++ c :: cs = u ++ v) (hu : ¬ ∀ b ∈ u, isBlank b = true)
    (hend : blanks.length < u.length →
      blanks.length + (lexeme name c cs).written.length ≤ u.length) :
    ∃ written after, u = blanks ++ c :: (written ++ after) ∧
      (lexeme name c cs).written = c :: written ∧ (lexeme name c cs).rest = after ++ v ∧
      lexeme name c (written ++ (after ++ (w ++ v))) =
        { lexeme name c cs with rest := after ++ (w ++ v) } := by
  obtain ⟨written, hwritten, hrest⟩ := exists_written_cons name c cs
  have hsplit : blanks ++ (c :: written) ++ (lexeme name c cs).rest = u ++ v := by
    rw [← htext, List.append_assoc, List.cons_append, hrest]
  obtain ⟨after, hafter, hrest⟩ : ∃ after, u = blanks ++ (c :: written) ++ after ∧
      (lexeme name c cs).rest = after ++ v := by
    -- the place is after the blanks, and so after the token
    have hlong : blanks.length < u.length := by
      by_contra hshort
      rcases List.append_eq_append_iff.mp htext with ⟨after, heq, hafter⟩ | ⟨more, heq, -⟩
      · rw [heq, List.length_append] at hshort
        obtain rfl : after = [] := List.eq_nil_of_length_eq_zero (by omega)
        exact hu (by rwa [heq, List.append_nil])
      · refine hu fun b hb => hblanks b ?_
        rw [heq]
        exact List.mem_append_left _ hb
    have hlength := hend hlong
    rw [hwritten] at hlength
    rcases List.append_eq_append_iff.mp hsplit with ⟨after, heq, hafter⟩ | ⟨more, heq, hv⟩
    · exact ⟨after, heq, hafter⟩
    · have hsum := congrArg List.length heq
      rw [List.length_append, List.length_append] at hsum
      obtain rfl : more = [] := List.eq_nil_of_length_eq_zero (by omega)
      exact ⟨[], by rw [heq]; simp, hv.symm⟩
  refine ⟨written, after, by rw [hafter]; simp, hwritten, hrest, ?_⟩
  refine lexeme_of_endsAlike ?_ hwritten
  rw [hrest]
  exact .insert hw after v

/-! ## All tokens -/

/-- No token of a text begins before a place and ends after it. -/
def NoneAcross (name : List Char) (place : Nat) (text : List Char) (located : List Located)
    (first : Nat) : Prop :=
  ∀ t ∈ located, t.start < first → t.start + tokenLength name (text.drop (t.start - place)) ≤ first

namespace NoneAcross

variable {name blanks cs u : List Char} {c : Char} {t : Token} {place first : Nat}
  {later : List Located}

theorem head (h : NoneAcross name place (blanks ++ c :: cs) (⟨t, place + blanks.length⟩ :: later)
    (place + u.length)) (hlong : blanks.length < u.length) :
    blanks.length + (lexeme name c cs).written.length ≤ u.length := by
  have hend := h _ List.mem_cons_self (Nat.add_lt_add_left hlong place)
  dsimp only at hend
  rw [Nat.add_sub_cancel_left, List.drop_left, Nat.add_assoc] at hend
  exact Nat.le_of_add_le_add_left hend

theorem tail {finish : Nat}
    (h : NoneAcross name place (blanks ++ c :: cs) (⟨t, place + blanks.length⟩ :: later) first)
    (hlater : Cut name (place + blanks.length + (lexeme name c cs).written.length)
      (lexeme name c cs).rest later finish) :
    NoneAcross name (place + blanks.length + (lexeme name c cs).written.length)
      (lexeme name c cs).rest later first := by
  intro t ht
  have hstart := hlater.le_of_mem_places (List.mem_append_left _ (List.mem_map_of_mem ht))
  rw [← drop_later blanks hstart]
  exact h t (List.mem_cons_of_mem _ ht)

end NoneAcross

namespace Cut

variable {name u v w : List Char} {place finish : Nat} {text : List Char} {located : List Located}

/-- **A text that begins later** has its tokens later. -/
theorem shift (h : Cut name place text located finish) (count : Nat) :
    Cut name (place + count) text (located.map (.at (· + count))) (finish + count) := by
  have hplace (place length : Nat) : place + count + length = place + length + count := by omega
  induction h with
  | @blanks place blanks hblanks =>
    have hcut : Cut name (place + count) blanks [] _ := .blanks hblanks
    rwa [hplace] at hcut
  | @error place blanks c cs hblanks hc herror =>
    have hcut : Cut name (place + count) _ _ _ := .error hblanks hc herror
    rwa [hplace, hplace] at hcut
  | @token place blanks c cs later finish hblanks hc herror _ ih =>
    rw [← hplace, ← hplace] at ih
    have hcut : Cut name (place + count) _ _ _ := .token hblanks hc herror ih
    rwa [hplace] at hcut

/-- Blanks may be put in front. -/
theorem append_blanks (hu : ∀ b ∈ u, isBlank b = true)
    (h : Cut name (place + u.length) v located finish) :
    Cut name place (u ++ v) located finish := by
  have hall {blanks : List Char} (hblanks : ∀ b ∈ blanks, isBlank b = true) :
      ∀ b ∈ u ++ blanks, isBlank b = true := List.forall_mem_append.mpr ⟨hu, hblanks⟩
  have hplace (blanks : List Char) : place + u.length + blanks.length =
      place + (u ++ blanks).length := by
    rw [List.length_append, Nat.add_assoc]
  generalize hbegin : place + u.length = begin at h
  cases h with subst hbegin
  | blanks hblanks =>
    rw [hplace]
    exact .blanks (hall hblanks)
  | error hblanks hc herror =>
    rw [hplace, ← List.append_assoc]
    exact .error (hall hblanks) hc herror
  | token hblanks hc herror hlater =>
    rw [hplace] at hlater
    rw [hplace, ← List.append_assoc]
    exact .token (hall hblanks) hc herror hlater

/-- Blanks in front may be left out. -/
theorem of_append_blanks (hu : ∀ b ∈ u, isBlank b = true)
    (h : Cut name place (u ++ v) located finish) :
    Cut name (place + u.length) v located finish := by
  have hcut := (Scanner.mk name v (place + u.length) (place + u.length) false).cut rfl
  obtain ⟨hlocated, hfinish⟩ := h.unique (hcut.append_blanks hu)
  rw [hlocated, hfinish]
  exact hcut

/-- Where nothing but blanks stands before the place, the blanks put in there move all tokens
alike. -/
theorem insert_front (hw : ∀ b ∈ w, isBlank b = true) (hu : ∀ b ∈ u, isBlank b = true)
    (h : Cut name place (u ++ v) located finish) :
    Cut name place (u ++ (w ++ v)) (located.map (.at (placeAfter (place + u.length) w.length)))
      (finish + w.length) := by
  have hlater := h.of_append_blanks hu
  have hmap : located.map (Located.at (placeAfter (place + u.length) w.length)) =
      located.map (Located.at (· + w.length)) := by
    refine List.map_congr_left fun t ht => ?_
    have hle := hlater.le_of_mem_places (List.mem_append_left _ (List.mem_map_of_mem ht))
    rw [Located.at, placeAfter_of_le hle, Located.at]
  rw [hmap]
  exact ((hlater.shift w.length).append_blanks hw).append_blanks hu

/-- **Blanks may be put in anywhere but inside a token**: it moves the tokens after them. -/
theorem insert (hw : ∀ b ∈ w, isBlank b = true) (h : Cut name place text located finish)
    (htext : text = u ++ v) (hacross : NoneAcross name place text located (place + u.length)) :
    ∃ finish', Cut name place (u ++ (w ++ v))
      (located.map (.at (placeAfter (place + u.length) w.length))) finish' := by
  induction h generalizing u with
  | blanks hblanks =>
    rw [htext, List.forall_mem_append] at hblanks
    exact ⟨_, .blanks (List.forall_mem_append.mpr
      ⟨hblanks.1, List.forall_mem_append.mpr ⟨hw, hblanks.2⟩⟩)⟩
  | @error place blanks c cs hblanks hc herror =>
    by_cases hu : ∀ b ∈ u, isBlank b = true
    · have hcut : Cut name place (blanks ++ c :: cs) _ _ := .error hblanks hc herror
      rw [htext] at hcut
      exact ⟨_, hcut.insert_front hw hu⟩
    · obtain ⟨written, after, rfl, -, -, hlexeme⟩ :=
        exists_lexeme_insert hblanks hw htext hu hacross.head
      have herror' : (lexeme name c (written ++ (after ++ (w ++ v)))).token.isError = true := by
        rw [hlexeme]
        exact herror
      have hcut : Cut name place _ _ _ := .error hblanks hc herror'
      rw [hlexeme] at hcut
      rw [List.map_singleton, Located.at, placeAfter_of_lt (by simp), List.append_assoc,
        List.cons_append, List.append_assoc]
      exact ⟨_, hcut⟩
  | @token place blanks c cs later finish hblanks hc herror hlater ih =>
    by_cases hu : ∀ b ∈ u, isBlank b = true
    · have hcut : Cut name place (blanks ++ c :: cs) _ _ := .token hblanks hc herror hlater
      rw [htext] at hcut
      exact ⟨_, hcut.insert_front hw hu⟩
    · obtain ⟨written, after, rfl, hwritten, hrest, hlexeme⟩ :=
        exists_lexeme_insert hblanks hw htext hu hacross.head
      have hplace : place + (blanks ++ c :: (written ++ after)).length =
          place + blanks.length + (lexeme name c cs).written.length + after.length := by
        rw [hwritten, List.length_append, ← List.cons_append, List.length_append]
        omega
      have htail := hacross.tail hlater
      rw [hplace] at htail ⊢
      obtain ⟨finish', hlater'⟩ := ih hrest htail
      have herror' : (lexeme name c (written ++ (after ++ (w ++ v)))).token.isError = false := by
        rw [hlexeme]
        exact herror
      have hcut : Cut name place _ _ _ :=
        .token hblanks hc herror' (by rw [hlexeme]; exact hlater')
      rw [hlexeme] at hcut
      have hstart : place + blanks.length <
          place + blanks.length + (lexeme name c cs).written.length + after.length := by
        rw [hwritten, List.length_cons]
        omega
      rw [List.map_cons, Located.at, placeAfter_of_lt hstart, List.append_assoc,
        List.cons_append, List.append_assoc]
      exact ⟨finish', hcut⟩

end Cut

/-! ## Texts -/

namespace Expr

variable {settings : Settings} {u v w : String}

/-- The tokens of a text with more blanks, and the place of its end. -/
theorem tokens_insert_blanks (houtside : ¬ InsideToken settings (u ++ v) u.length)
    (hw : ∀ c ∈ w.toList, isBlank c = true) :
    locatedOf settings (u ++ w ++ v) =
        (locatedOf settings (u ++ v)).map (.at (placeAfter u.length w.length)) ∧
      ((∀ t ∈ locatedOf settings (u ++ v), t.token.isError = false) →
        finishOf settings (u ++ w ++ v) =
          placeAfter u.length w.length (finishOf settings (u ++ v))) := by
  have hacross : NoneAcross settings.variableName.toList 0 (u ++ v).toList
      (locatedOf settings (u ++ v)) (0 + u.toList.length) := by
    intro t ht hstart
    rw [Nat.zero_add, String.length_toList] at hstart ⊢
    by_contra hend
    exact houtside ⟨t, ht, hstart, Nat.lt_of_not_le hend⟩
  have hcut := cut_ofText settings (u ++ v)
  have hcut' := cut_ofText settings (u ++ w ++ v)
  rw [String.toList_append, String.toList_append, List.append_assoc] at hcut'
  obtain ⟨finish', hinsert⟩ := hcut.insert hw String.toList_append hacross
  obtain ⟨hlocated, rfl⟩ := hcut'.unique hinsert
  rw [Nat.zero_add, String.length_toList, String.length_toList] at hlocated
  refine ⟨hlocated, fun herrors => ?_⟩
  -- both texts end at their last characters
  have herrors' : ∀ t ∈ locatedOf settings (u ++ w ++ v), t.token.isError = false := by
    rw [hlocated, List.forall_mem_map]
    exact herrors
  rw [hcut'.finish_eq herrors', hcut.finish_eq herrors, String.toList_append,
    placeAfter_of_le (by rw [List.length_append, String.length_toList]; omega)]
  simp only [List.length_append, String.length_toList]
  omega

/-- **Blanks between the tokens of a text** change nothing but the place of an error after them. -/
theorem ofText_insert_blanks (houtside : ¬ InsideToken settings (u ++ v) u.length)
    (hw : ∀ c ∈ w.toList, isBlank c = true) :
    (∀ t, ofText settings (u ++ w ++ v) = .ok t ↔ ofText settings (u ++ v) = .ok t) ∧
    ∀ e, ofText settings (u ++ v) = .error e →
      ofText settings (u ++ w ++ v) = .error ⟨e.kind,
        if e.kind = .emptyFormula then 0
        else if e.position < u.length then e.position else e.position + w.length⟩ := by
  obtain ⟨hlocated, hfinish⟩ := tokens_insert_blanks houtside hw
  by_cases hnil : locatedOf settings (u ++ v) = []
  · have hnil' : locatedOf settings (u ++ w ++ v) = [] := by rw [hlocated, hnil, List.map_nil]
    rw [ofText_of_nil hnil, ofText_of_nil hnil']
    refine ⟨fun t => Iff.rfl, ?_⟩
    rintro e ⟨⟩
    rfl
  · have hmoved : List.Forall₂ (Located.Moved (placeAfter u.length w.length))
        (locatedOf settings (u ++ v)) (locatedOf settings (u ++ w ++ v)) := by
      rw [hlocated, List.forall₂_map_right_iff, List.forall₂_same]
      exact fun t _ => ⟨.refl _, rfl⟩
    rw [ofText_moved rfl hmoved hfinish hnil]
    constructor
    · intro t
      rcases ofText settings (u ++ v) with e | tree
      · exact ⟨nofun, nofun⟩
      · exact Iff.rfl
    · intro e he
      rw [he, if_neg (kind_ne_emptyFormula_of_ofText hnil he)]
      rfl

/-- Two blanks after the first number of `2e3*x+?` move the error at its end. -/
theorem ofText_insert_blanks_number :
    ¬ InsideToken {} ("2e3" ++ "*x+?") "2e3".length ∧
    (∀ c ∈ "\u2003\n".toList, isBlank c = true) ∧
    ofText {} ("2e3" ++ "*x+?") = .error ⟨.illegalCharacter, 6⟩ ∧
    ofText {} ("2e3" ++ "\u2003\n" ++ "*x+?") = .error ⟨.illegalCharacter, 8⟩ := by
  have houtside : ¬ InsideToken {} ("2e3" ++ "*x+?") "2e3".length := by decide +kernel
  have hw : ∀ c ∈ "\u2003\n".toList, isBlank c = true :=
    List.all_eq_true.mp (by decide)
  have herror : ofText {} ("2e3" ++ "*x+?") = .error ⟨.illegalCharacter, 6⟩ := by decide +kernel
  exact ⟨houtside, hw, herror, (ofText_insert_blanks houtside hw).2 _ herror⟩

end Expr

end Formulary
