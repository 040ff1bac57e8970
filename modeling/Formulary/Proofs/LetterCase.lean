import Formulary.Proofs.MovedTokens
import Formulary.Proofs.TokenEnd

/-!
# Upper and lower case

Case does not matter in a formula, with one exception: the symbols `g` and `G` name two constants.
Each kind of token is looked at in turn; then two texts with the same letters have tokens that are
read alike, at the same places.

* `Recased` — texts that differ at most in the case of letters;
* `Numeral.read_lower` — number literals; `Constant.find?_eq_of_ne` — symbols; `wordToken_alike` —
  words;
* `Cut.recased` — all tokens of a text;
* `Expr.ofText_recased` — the answers to two texts with the same letters.
-/

namespace Formulary

/-! ## Letters -/

/-- The letters in upper case. -/
def capitals : List Char := "ABCDEFGHIJKLMNOPQRSTUVWXYZ".toList

theorem toLower_cases (c : Char) : c.toLower = c ∨ c ∈ capitals := by
  by_cases hc : c.val ≥ 'A'.val ∧ c.val ≤ 'Z'.val
  · right
    have hcode : c.toNat ∈ List.range' 65 26 := List.mem_range'_1.mpr ⟨hc.1, Nat.lt_succ_of_le hc.2⟩
    have hcapital : ∀ n ∈ List.range' 65 26, Char.ofNat n ∈ capitals := by decide
    have hmem := hcapital _ hcode
    rwa [Char.ofNat_toNat] at hmem
  · exact .inl (dif_neg hc)

/-- What does not tell the letters in upper case from those in lower case is blind to case. -/
theorem apply_toLower {α : Type} {f : Char → α}
    (h : capitals.map (fun c => f c.toLower) = capitals.map f) (c : Char) : f c.toLower = f c := by
  rcases toLower_cases c with hc | hc
  · rw [hc]
  · exact List.map_inj_left.mp h c hc

theorem isBlank_toLower (c : Char) : isBlank c.toLower = isBlank c := apply_toLower (by decide) c

theorem isDigit_toLower (c : Char) : c.toLower.isDigit = c.isDigit := apply_toLower (by decide) c

theorem isAlpha_toLower (c : Char) : c.toLower.isAlpha = c.isAlpha := apply_toLower (by decide) c

theorem isSymbolChar_toLower (c : Char) : isSymbolChar c.toLower = isSymbolChar c :=
  apply_toLower (by decide) c

theorem upperLetter_toLower (c : Char) : upperLetter c.toLower = upperLetter c :=
  apply_toLower (by decide) c

/-- Only letters have a case. -/
theorem toLower_eq_self {c : Char} (h : c.isAlpha = false) : c.toLower = c := by
  rcases toLower_cases c with hc | hc
  · exact hc
  · have halpha : capitals.all Char.isAlpha = true := by decide
    rw [List.all_eq_true.mp halpha c hc] at h
    cases h

theorem toLower_of_isDigit {c : Char} (h : c.isDigit = true) : c.toLower = c := by
  rcases toLower_cases c with hc | hc
  · exact hc
  · have hdigit : capitals.any Char.isDigit = false := by decide
    exact absurd h (List.any_eq_false.mp hdigit c hc)

/-! ## Texts with the same letters -/

/-- Texts that differ at most in the case of letters. -/
def Recased (v w : List Char) : Prop := v.map Char.toLower = w.map Char.toLower

namespace Recased

variable {v w : List Char}

theorem length_eq (h : Recased v w) : v.length = w.length := by
  have hlength := congrArg List.length h
  rwa [List.length_map, List.length_map] at hlength

theorem takeWhile (h : Recased v w) {p : Char → Bool} (hp : ∀ c, p c.toLower = p c) :
    Recased (v.takeWhile p) (w.takeWhile p) := by
  have hcomp : p ∘ Char.toLower = p := funext hp
  have htake := congrArg (List.takeWhile p) h
  rwa [List.takeWhile_map, List.takeWhile_map, hcomp] at htake

theorem dropWhile (h : Recased v w) {p : Char → Bool} (hp : ∀ c, p c.toLower = p c) :
    Recased (v.dropWhile p) (w.dropWhile p) := by
  have hcomp : p ∘ Char.toLower = p := funext hp
  have hdrop := congrArg (List.dropWhile p) h
  rwa [List.dropWhile_map, List.dropWhile_map, hcomp] at hdrop

theorem upperWord_eq (h : Recased v w) : upperWord v = upperWord w := by
  have hcomp : upperLetter ∘ Char.toLower = upperLetter := funext upperLetter_toLower
  have hupper := congrArg (List.map upperLetter) h
  rwa [List.map_map, List.map_map, hcomp] at hupper

/-- A character without case is the same in both texts. -/
theorem exists_cons {c : Char} (h : Recased (c :: v) w) (hc : c.isAlpha = false) :
    ∃ w', w = c :: w' ∧ Recased v w' := by
  obtain ⟨d, w', rfl, hd, hw⟩ := List.map_eq_cons_iff.mp h.symm
  have hd' : d.isAlpha = false := by rw [← isAlpha_toLower, hd, isAlpha_toLower, hc]
  rw [toLower_eq_self hc, toLower_eq_self hd'] at hd
  exact ⟨w', by rw [hd], hw.symm⟩

/-- What holds of all characters of one text, whatever their case, holds of those of the other. -/
theorem forall_mem (h : Recased v w) {p : Char → Bool} (hp : ∀ c, p c.toLower = p c)
    (hv : ∀ c ∈ v, p c = true) : ∀ c ∈ w, p c = true := by
  intro c hc
  have hmem : c.toLower ∈ v.map Char.toLower := by
    rw [h]
    exact List.mem_map_of_mem hc
  obtain ⟨d, hd, heq⟩ := List.mem_map.mp hmem
  rw [← hp, ← heq, hp]
  exact hv d hd

/-- The blanks in front of a text and its first character. -/
theorem exists_front {blanks cs : List Char} {c : Char} (h : Recased (blanks ++ c :: cs) w)
    (hblanks : ∀ b ∈ blanks, isBlank b = true) (hc : isBlank c = false) :
    ∃ blanks' c' cs', w = blanks' ++ c' :: cs' ∧ blanks'.length = blanks.length ∧
      (∀ b ∈ blanks', isBlank b = true) ∧ isBlank c' = false ∧ Recased (c :: cs) (c' :: cs') := by
  rw [Recased, List.map_append] at h
  obtain ⟨blanks', more, rfl, hfront, hmore⟩ := List.map_eq_append_iff.mp h.symm
  obtain ⟨c', cs', rfl, hc', -⟩ := List.map_eq_cons_iff.mp hmore
  have hrecased : Recased blanks blanks' := hfront.symm
  refine ⟨blanks', c', cs', rfl, hrecased.length_eq.symm,
    hrecased.forall_mem isBlank_toLower hblanks, ?_, hmore.symm⟩
  rw [← isBlank_toLower, hc', isBlank_toLower, hc]

end Recased

/-! ## Words -/

theorem wordToken_alike {name name' word word' : List Char} (hname : Recased name name')
    (h : Recased word word') : (wordToken name word).Alike (wordToken name' word') := by
  have hname' : sameLetters word name = sameLetters word' name' := by
    rw [sameLetters, sameLetters, h, hname]
  rw [wordToken, wordToken, Function.ofKeyword?, Function.ofKeyword?, h.upperWord_eq, hname']
  split
  · exact .refl _
  · split
    · exact .refl _
    · split
      · exact .refl _
      · split
        · exact .refl _
        · exact .inr ⟨rfl, rfl, fun _ => rfl⟩

/-- Tokens that are read alike, with the same letters after them. -/
structure Lexeme.Alike (l l' : Lexeme) : Prop where
  /-- the tokens -/
  token : l.token.Alike l'.token
  /-- the texts after them -/
  rest : Recased l.rest l'.rest

theorem wordLexeme_alike {name name' cs cs' : List Char} (hname : Recased name name')
    (h : Recased cs cs') : (wordLexeme name cs).Alike (wordLexeme name' cs') := by
  have hword := h.takeWhile isAlpha_toLower
  have hrest := h.dropWhile isAlpha_toLower
  by_cases hexp : ∃ rest, cs.dropWhile Char.isAlpha = '^' :: rest ∧
      upperWord (cs.takeWhile Char.isAlpha) = "E".toList
  · obtain ⟨rest, hdrop, hbase⟩ := hexp
    rw [hdrop] at hrest
    obtain ⟨rest', hdrop', hrest'⟩ := hrest.exists_cons (by decide)
    rw [wordLexeme_exponential hdrop hbase,
      wordLexeme_exponential hdrop' (by rw [← hword.upperWord_eq, hbase])]
    exact ⟨.refl _, hrest'⟩
  · have hother : ∀ rest, cs.dropWhile Char.isAlpha = '^' :: rest →
        upperWord (cs.takeWhile Char.isAlpha) ≠ "E".toList :=
      fun rest hdrop hbase => hexp ⟨rest, hdrop, hbase⟩
    have hother' : ∀ rest, cs'.dropWhile Char.isAlpha = '^' :: rest →
        upperWord (cs'.takeWhile Char.isAlpha) ≠ "E".toList := by
      intro rest hdrop
      have hrest' := hrest.symm
      rw [hdrop] at hrest'
      obtain ⟨rest', hdrop', -⟩ := Recased.exists_cons hrest' (by decide)
      rw [← hword.upperWord_eq]
      exact hother rest' hdrop'
    rw [wordLexeme_word hother, wordLexeme_word hother']
    exact ⟨wordToken_alike hname hword, hrest⟩

/-! ## Number literals -/

namespace Numeral

/-- The literal with the letter of its power in lower case. -/
def Power.lower (p : Power) : Power := { p with mark := p.mark.toLower }

@[inherit_doc Power.lower]
def lower (n : Numeral) : Numeral := { n with power := n.power.map Power.lower }

/-- The letter does not matter for the number. -/
theorem value?_lower (n : Numeral) : n.lower.value? = n.value? := by
  rcases n with ⟨whole, fraction, _ | power⟩ <;> rfl

theorem readDigits_lower (cs : List Char) : readDigits (cs.map Char.toLower) =
    ((readDigits cs).1, (readDigits cs).2.map Char.toLower) := by
  have hcomp : Char.isDigit ∘ Char.toLower = Char.isDigit := funext isDigit_toLower
  have hdigits : (cs.takeWhile Char.isDigit).map Char.toLower = cs.takeWhile Char.isDigit :=
    List.map_congr_left (fun c hc => toLower_of_isDigit (List.mem_takeWhile_imp hc)) |>.trans
      (List.map_id _)
  rw [readDigits, List.takeWhile_map, List.dropWhile_map, hcomp, hdigits]
  rfl

theorem isSeparator_toLower (c : Char) : isSeparator c.toLower = isSeparator c :=
  apply_toLower (by decide) c

theorem toLower_of_isSeparator {c : Char} (h : isSeparator c = true) : c.toLower = c := by
  rw [isSeparator, Bool.or_eq_true, beq_iff_eq, beq_iff_eq] at h
  rcases h with rfl | rfl <;> rfl

theorem readFraction_lower (cs : List Char) : readFraction (cs.map Char.toLower) =
    ((readFraction cs).1, (readFraction cs).2.map Char.toLower) := by
  rcases readFraction_cases cs with ⟨hhead, heq⟩ | ⟨c, rest, rfl, hsep, heq⟩
  · rw [heq]
    refine readFraction_none ?_
    rw [List.head?_map]
    intro d hd
    obtain ⟨c, hc, rfl⟩ := Option.map_eq_some_iff.mp hd
    rw [isSeparator_toLower]
    exact hhead c hc
  · rw [heq, List.map_cons, toLower_of_isSeparator hsep, readFraction_separator hsep,
      readDigits_lower]

theorem opensPower_toLower (mark next : Char) :
    opensPower mark.toLower next.toLower = opensPower mark next := by
  have hmark : (mark.toLower == 'e' || mark.toLower == 'E') = (mark == 'e' || mark == 'E') :=
    apply_toLower (f := fun c => c == 'e' || c == 'E') (by decide) mark
  have hnext : (next.toLower == '+' || next.toLower == '-' || next.toLower.isDigit) =
      (next == '+' || next == '-' || next.isDigit) :=
    apply_toLower (f := fun c => c == '+' || c == '-' || c.isDigit) (by decide) next
  rw [opensPower, hmark, hnext, opensPower]

theorem readPower_lower (cs : List Char) : readPower (cs.map Char.toLower) =
    ((readPower cs).1.map Power.lower, (readPower cs).2.map Char.toLower) := by
  have hmark {mark : Char} (h : mark = 'e' ∨ mark = 'E') :
      mark.toLower = 'e' ∨ mark.toLower = 'E' := by
    rcases h with rfl | rfl <;> exact .inl rfl
  rcases readPower_cases cs with
    hnone | ⟨mark, sign, rest, rfl, he, hsign⟩ | ⟨mark, d, rest, rfl, he, hd⟩
  · rw [readPower_none hnone]
    refine readPower_none ?_
    intro mark next rest heq
    obtain ⟨mark, more, rfl, rfl, hmore⟩ := List.map_eq_cons_iff.mp heq
    obtain ⟨next, rest, rfl, rfl, -⟩ := List.map_eq_cons_iff.mp hmore
    rw [opensPower_toLower]
    exact hnone mark next rest rfl
  · have hsign' : sign.toLower = sign := by rcases hsign with rfl | rfl <;> rfl
    rw [List.map_cons, List.map_cons, hsign', readPower_sign he hsign,
      readPower_sign (hmark he) hsign, readDigits_lower]
    rfl
  · have hdigits := readDigits_lower (d :: rest)
    rw [List.map_cons] at hdigits
    rw [List.map_cons, List.map_cons, readPower_digit he hd,
      readPower_digit (hmark he) (by rw [isDigit_toLower, hd]), hdigits]
    rfl

/-- **A number literal with its letter in lower case** is read as before. -/
theorem read_lower (cs : List Char) :
    read (cs.map Char.toLower) = ((read cs).1.lower, (read cs).2.map Char.toLower) := by
  simp only [read, readDigits_lower, readFraction_lower]
  rcases readFraction (readDigits cs).2 with ⟨_ | ⟨separator, _ | ⟨d, digits⟩⟩, rest⟩ <;>
    simp only [readPower_lower, lower, Option.map_none]

end Numeral

theorem numberLexeme_alike {cs cs' : List Char} (h : Recased cs cs') :
    (numberLexeme cs).Alike (numberLexeme cs') := by
  have hread := congrArg Numeral.read h
  rw [Numeral.read_lower, Numeral.read_lower] at hread
  obtain ⟨hlower, hrest⟩ := Prod.mk.inj hread
  have hvalue : (Numeral.read cs).1.value? = (Numeral.read cs').1.value? := by
    rw [← Numeral.value?_lower, hlower, Numeral.value?_lower]
  refine ⟨?_, hrest⟩
  simp only [numberLexeme, hvalue]
  split
  · exact .refl _
  · exact .inr ⟨rfl, rfl, fun _ => rfl⟩

/-! ## Constants -/

/-- The symbols of two constants that differ in nothing but case. -/
def clashing : List (List Char) := [['g'], ['G']]

theorem mem_clashing_iff {symbol : List Char} : symbol ∈ clashing ↔ Recased symbol ['g'] := by
  constructor
  · have hall : ∀ s ∈ clashing, s.map Char.toLower = ['g'].map Char.toLower := by decide
    exact hall symbol
  · intro h
    obtain ⟨c, rest, rfl, hc, hrest⟩ := List.map_eq_cons_iff.mp h
    obtain rfl := List.map_eq_nil_iff.mp hrest
    rcases toLower_cases c with hsame | hcapital
    · rw [← hsame, hc]
      decide
    · have hfilter : capitals.filter (·.toLower = 'g') = ['G'] := by decide
      have hmem : c ∈ capitals.filter (·.toLower = 'g') :=
        List.mem_filter.mpr ⟨hcapital, decide_eq_true hc⟩
      rw [hfilter, List.mem_singleton] at hmem
      rw [hmem]
      decide

namespace Constant

/-- Any other symbol is found whatever the case of its letters. -/
theorem find?_of_notMem {symbol : List Char} (h : symbol ∉ clashing) :
    find? symbol =
      match all.filter fun c => c.symbol.toList.map Char.toLower == symbol.map Char.toLower with
      | [c] => some c
      | _ => none := by
  rw [find?]
  split
  · next c hc =>
    -- no other symbol of the catalogue has the same letters
    have hsymbol := List.find?_some (p := fun d : Constant => d.symbol.toList == symbol) hc
    obtain rfl := beq_iff_eq.mp hsymbol
    have hsingle : ∀ c ∈ all, c.symbol.toList ∉ clashing →
        all.filter (fun d => d.symbol.toList.map Char.toLower == c.symbol.toList.map Char.toLower) =
          [c] := by decide
    rw [hsingle c (mem_all c) h]
  · rfl

theorem find?_recased {symbol symbol' : List Char} (h : Recased symbol symbol')
    (hclash : symbol ∈ clashing → symbol' = symbol) : find? symbol = find? symbol' := by
  by_cases hmem : symbol ∈ clashing
  · rw [hclash hmem]
  · have hmem' : symbol' ∉ clashing :=
      fun hclash' => hmem (mem_clashing_iff.mpr (h.trans (mem_clashing_iff.mp hclash')))
    rw [find?_of_notMem hmem, find?_of_notMem hmem', h]

end Constant

/-- The symbol of the constant that a text begins with. -/
def symbolAt? : List Char → Option (List Char)
  | [] => none
  | c :: cs => if c = constantMark then some (cs.takeWhile isSymbolChar) else none

theorem constantLexeme_alike {cs cs' : List Char} (h : Recased cs cs')
    (hclash : cs.takeWhile isSymbolChar ∈ clashing →
      cs'.takeWhile isSymbolChar = cs.takeWhile isSymbolChar) :
    (constantLexeme cs).Alike (constantLexeme cs') := by
  have hfind := Constant.find?_recased (h.takeWhile isSymbolChar_toLower) hclash
  refine ⟨?_, h.dropWhile isSymbolChar_toLower⟩
  simp only [constantLexeme, hfind]
  split
  · exact .refl _
  · exact .inr ⟨rfl, rfl, fun _ => rfl⟩

/-! ## Tokens -/

/-- **A token in another case** is read alike, unless it is one of the two constants. -/
theorem lexeme_alike {name name' cs cs' : List Char} {c c' : Char} (hname : Recased name name')
    (h : Recased (c :: cs) (c' :: cs'))
    (hclash : ∀ symbol ∈ clashing, symbolAt? (c :: cs) = some symbol →
      symbolAt? (c' :: cs') = some symbol) :
    (lexeme name c cs).Alike (lexeme name' c' cs') := by
  by_cases halpha : c.isAlpha = true
  · obtain ⟨hc, -⟩ := List.cons.inj h
    have halpha' : c'.isAlpha = true := by
      rw [← isAlpha_toLower, ← hc, isAlpha_toLower, halpha]
    rw [lexeme_of_isAlpha halpha, lexeme_of_isAlpha halpha']
    exact wordLexeme_alike hname h
  · -- only letters have a case
    obtain ⟨_, heq, hcs⟩ := h.exists_cons (Bool.not_eq_true _ ▸ halpha)
    obtain ⟨rfl, rfl⟩ := List.cons.inj heq
    rcases firstChar_cases c' with
      ⟨t, hsign⟩ | rfl | hdigit | halpha' | ⟨hsign, hmark, hdigit, halpha'⟩
    · rw [lexeme_of_signToken? hsign, lexeme_of_signToken? hsign]
      exact ⟨.refl _, hcs⟩
    · rw [lexeme_constantMark, lexeme_constantMark]
      refine constantLexeme_alike hcs fun hmem => ?_
      exact Option.some.inj (hclash _ hmem rfl)
    · rw [lexeme_of_isDigit hdigit, lexeme_of_isDigit hdigit]
      exact numberLexeme_alike h
    · exact absurd halpha' halpha
    · rw [lexeme_of_other hsign hmark hdigit halpha', lexeme_of_other hsign hmark hdigit halpha']
      exact ⟨.refl _, hcs⟩

/-- The same letters are covered. -/
theorem length_written_eq {name name' cs cs' : List Char} {c c' : Char}
    (h : (lexeme name c cs).Alike (lexeme name' c' cs')) (htext : Recased (c :: cs) (c' :: cs')) :
    (lexeme name' c' cs').written.length = (lexeme name c cs).written.length := by
  have hlength := length_written_add_length_rest name c cs
  have hlength' := length_written_add_length_rest name' c' cs'
  have hrest := h.rest.length_eq
  have htext := htext.length_eq
  rw [List.length_cons, List.length_cons] at htext
  omega

/-- The two constants of a text are the same in another text: wherever the symbol of one of them
stands in the first text, it stands in the second. -/
def SameClashing (place : Nat) (located : List Located) (text text' : List Char) : Prop :=
  ∀ t ∈ located, ∀ symbol ∈ clashing, symbolAt? (text.drop (t.start - place)) = some symbol →
    symbolAt? (text'.drop (t.start - place)) = some symbol

theorem SameClashing.head {blanks blanks' cs cs' : List Char} {c c' : Char} {t : Token}
    {place : Nat} {later : List Located} (h : SameClashing place
      (⟨t, place + blanks.length⟩ :: later) (blanks ++ c :: cs) (blanks' ++ c' :: cs'))
    (hlength : blanks'.length = blanks.length) :
    ∀ symbol ∈ clashing, symbolAt? (c :: cs) = some symbol →
      symbolAt? (c' :: cs') = some symbol := by
  intro symbol hsymbol hat
  have hhead := h _ List.mem_cons_self symbol hsymbol
  dsimp only at hhead
  rw [Nat.add_sub_cancel_left, List.drop_left, ← hlength, List.drop_left] at hhead
  exact hhead hat

theorem SameClashing.tail {name name' blanks blanks' cs cs' : List Char} {c c' : Char} {t : Token}
    {place finish : Nat} {later : List Located} (h : SameClashing place
      (⟨t, place + blanks.length⟩ :: later) (blanks ++ c :: cs) (blanks' ++ c' :: cs'))
    (hlater : Cut name (place + blanks.length + (lexeme name c cs).written.length)
      (lexeme name c cs).rest later finish) (hlength : blanks'.length = blanks.length)
    (hwritten : (lexeme name' c' cs').written.length = (lexeme name c cs).written.length) :
    SameClashing (place + blanks.length + (lexeme name c cs).written.length) later
      (lexeme name c cs).rest (lexeme name' c' cs').rest := by
  intro t ht symbol hsymbol hat
  have hstart := hlater.le_of_mem_places (List.mem_append_left _ (List.mem_map_of_mem ht))
  have hstart' := hstart
  rw [← hlength, ← hwritten] at hstart'
  have htail := h t (List.mem_cons_of_mem _ ht) symbol hsymbol
  rw [drop_later blanks hstart, drop_later blanks' hstart', hlength, hwritten] at htail
  exact htail hat

namespace Cut

variable {name name' : List Char} {place finish : Nat} {text text' : List Char}
  {located : List Located}

/-- **The same letters are cut into the same tokens**, at the same places. -/
theorem recased (h : Cut name place text located finish) (hname : Recased name name')
    (htext : Recased text text') (hclash : SameClashing place located text text') :
    ∃ located', Cut name' place text' located' finish ∧
      List.Forall₂ (Located.Moved id) located located' := by
  induction h generalizing text' with
  | @blanks place blanks hblanks =>
    have hcut : Cut name' place text' [] _ := .blanks (htext.forall_mem isBlank_toLower hblanks)
    rw [← htext.length_eq] at hcut
    exact ⟨[], hcut, .nil⟩
  | @error place blanks c cs hblanks hc herror =>
    obtain ⟨blanks', c', cs', rfl, hlength, hblanks', hc', htext⟩ := htext.exists_front hblanks hc
    have halike := lexeme_alike hname htext (hclash.head hlength)
    have hcut : Cut name' place _ _ _ := .error hblanks' hc' (halike.token.isError_eq.trans herror)
    rw [hlength, length_written_eq halike htext] at hcut
    exact ⟨_, hcut, .cons ⟨halike.token, rfl⟩ .nil⟩
  | @token place blanks c cs later finish hblanks hc herror hlater ih =>
    obtain ⟨blanks', c', cs', rfl, hlength, hblanks', hc', htext⟩ := htext.exists_front hblanks hc
    have halike := lexeme_alike hname htext (hclash.head hlength)
    have hwritten := length_written_eq halike htext
    obtain ⟨later', hlater', hmoved⟩ := ih halike.rest (hclash.tail hlater hlength hwritten)
    rw [← hwritten, ← hlength] at hlater'
    have hcut : Cut name' place _ _ _ :=
      .token hblanks' hc' (halike.token.isError_eq.trans herror) hlater'
    rw [hlength] at hcut
    exact ⟨_, hcut, .cons ⟨halike.token, rfl⟩ hmoved⟩

end Cut

namespace Expr

variable {settings settings' : Settings} {text text' : String}

/-- **Case does not matter** but for two constants: a text with the same letters has the same
answer. -/
theorem ofText_recased (htext : sameLetters text.toList text'.toList = true)
    (hname : sameLetters settings.variableName.toList settings'.variableName.toList = true)
    (hnesting : settings'.maxNesting = settings.maxNesting)
    (hdepth : settings'.maxDepth = settings.maxDepth)
    (hclash : ∀ t ∈ locatedOf settings text, ∀ symbol ∈ clashing,
      symbolAt? (text.toList.drop t.start) = some symbol →
        symbolAt? (text'.toList.drop t.start) = some symbol) :
    ofText settings' text' = ofText settings text := by
  obtain ⟨located', hcut, hmoved⟩ := (cut_ofText settings text).recased (beq_iff_eq.mp hname)
    (beq_iff_eq.mp htext) hclash
  obtain ⟨hlocated, hfinish⟩ := (cut_ofText settings' text').unique hcut
  rw [← hlocated] at hmoved
  by_cases hnil : locatedOf settings text = []
  · rw [hnil, List.forall₂_nil_left_iff] at hmoved
    rw [ofText_of_nil hnil, ofText_of_nil hmoved]
  · have hlimits : settings'.limits = settings.limits := by
      rw [Settings.limits, Settings.limits, hnesting, hdepth]
    rw [ofText_moved hlimits hmoved (fun _ => hfinish) hnil]
    rcases ofText settings text with e | t <;> rfl

/-- Two texts with the same letters and the same constant `#G`, the name of the variable in upper
case in one of them. -/
theorem ofText_recased_gravitational :
    sameLetters "2E3*Sin(#G)+#EPS_0^T".toList "2e3*sIN(#G)+#eps_0^t".toList = true ∧
    sameLetters "t".toList "T".toList = true ∧
    ofText { variableName := "T" } "2e3*sIN(#G)+#eps_0^t" =
      ofText { variableName := "t" } "2E3*Sin(#G)+#EPS_0^T" := by
  have htext : sameLetters "2E3*Sin(#G)+#EPS_0^T".toList "2e3*sIN(#G)+#eps_0^t".toList = true := by
    decide
  have hname : sameLetters "t".toList "T".toList = true := by decide
  exact ⟨htext, hname, ofText_recased htext hname rfl rfl (by decide +kernel)⟩

/-- Without the condition the answers differ: the two symbols name two constants. -/
example : ofText {} "#g" = .ok (.constant .gravitationalAcceleration) ∧
    ofText {} "#G" = .ok (.constant .gravitational) := by
  decide +kernel

end Expr

end Formulary
