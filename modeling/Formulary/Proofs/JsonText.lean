import Formulary.Json.Read
import Formulary.Proofs.NumberText

/-!
# JSON that is written is read again

The text of a value is cut into symbols, and these are put together again. Both halves follow the
value: a value stands for a run of symbols, its text is cut into just these whatever comes after it,
and a reader that meets them goes on as it does after the value.

* `Json.symbols` — the symbols that a value stands for;
* `JsonSymbol.Spells` — a text begins with symbols;
* `Json.Plain` — the values that all this is true of;
* `Plain.spelled` — the text of such a value begins with its symbols, and `Plain.taken` — these are
  read as the value; so its text is read as the value (`read?_text`).

A number with a fraction is not among them: it is kept as it was written, and anything could stand
there. Nor is a text with half of a surrogate pair, which has no written form.
-/

namespace Formulary

namespace JsonSymbol

open Json (hexDigits escapedChar writeString)

/-! ## Strings -/

theorem hexValue₄?_hexDigits : ∀ n < 0x20, hexValue₄? (Nat.digitChar (n / 4096 % 16))
    (Nat.digitChar (n / 256 % 16)) (Nat.digitChar (n / 16 % 16)) (Nat.digitChar (n % 16)) =
      some n := by
  decide

/-- A backslash with four digits is one code unit. -/
theorem readUnits_hexDigits {n : Nat} (hn : n < 0x20) (rest : List Char) :
    readUnits (['\\', 'u'] ++ hexDigits n ++ rest) =
      (readUnits rest).map fun (units, rest) => (n :: units, rest) := by
  simp only [hexDigits, List.map_cons, List.map_nil, List.cons_append, List.nil_append]
  rw [readUnits, hexValue₄?_hexDigits n hn]
  cases readUnits rest <;> rfl

/-- A backslash with a letter is the character that the letter stands for. -/
theorem readUnits_letter {letter c : Char} (hletter : letter ≠ 'u') (hc : escape? letter = some c)
    (rest : List Char) : readUnits (['\\', letter] ++ rest) =
      (readUnits rest).map fun (units, rest) => (c.toNat :: units, rest) := by
  rw [List.cons_append, List.singleton_append, readUnits.eq_def]
  split
  · next h => cases h
  · next h => cases h
  · next h => cases h; exact absurd rfl hletter
  · next h =>
    cases h
    rw [hc]
    cases readUnits rest <;> rfl
  · next hno h => cases h; exact (hno letter rest rfl rfl).elim

/-- Any other character is itself. -/
theorem readUnits_self {c : Char} (hquote : c ≠ '"') (hbackslash : c ≠ '\\')
    (hcontrol : ¬ c.toNat < 0x20) (rest : List Char) : readUnits (c :: rest) =
      (readUnits rest).map fun (units, rest) => (c.toNat :: units, rest) := by
  rw [readUnits.eq_def]
  split
  · next h => cases h
  · next h => cases h; exact absurd rfl hquote
  · next h => cases h; exact absurd rfl hbackslash
  · next h => cases h; exact absurd rfl hbackslash
  · next h =>
    cases h
    rw [if_neg (not_or.mpr ⟨hcontrol, hbackslash⟩)]
    cases readUnits rest <;> rfl

/-- **A character as it is written** is read as its code point. -/
theorem readUnits_escapedChar (c : Char) (rest : List Char) :
    readUnits (escapedChar c ++ rest) =
      (readUnits rest).map fun (units, rest) => (c.toNat :: units, rest) := by
  rw [escapedChar]
  -- The seven characters that a letter stands for, the other controls, and all the rest.
  iterate 7
    split
    · next hc =>
      subst hc
      exact readUnits_letter (by decide) rfl rest
  split
  · next hc => exact readUnits_hexDigits hc rest
  · next hquote hbackslash _ _ _ _ _ hcontrol =>
    exact readUnits_self hquote hbackslash hcontrol rest

theorem readUnits_written (cs rest : List Char) :
    readUnits (cs.flatMap escapedChar ++ '"' :: rest) = some (cs.map Char.toNat, rest) := by
  induction cs with
  | nil => rfl
  | cons c cs ih => rw [List.flatMap_cons, List.append_assoc, readUnits_escapedChar, ih]; rfl

/-- No character is half of a surrogate pair. -/
theorem charsOfUnits_toNat (cs : List Char) : charsOfUnits (cs.map Char.toNat) = some cs := by
  induction cs with
  | nil => rfl
  | cons c cs ih =>
    have hc : c.toNat < 0xd800 ∨ 0xdfff < c.toNat ∧ c.toNat < 0x110000 := c.valid
    rw [List.map_cons, charsOfUnits.eq_def]
    dsimp only
    rw [if_neg (by omega), if_neg (by omega), ih, Char.ofNat_toNat]
    rfl

theorem readSymbol_writeString (cs rest : List Char) :
    readSymbol (writeString cs ++ rest) = some (string (some (.ofList cs)), rest) := by
  rw [writeString, List.cons_append, List.append_assoc, List.singleton_append, readSymbol,
    readUnits_written]
  simp only [Option.map_some, charsOfUnits_toNat]

/-! ## Whole numbers -/

/-- A number is over where a text goes on like this. -/
def EndsNumber (rest : List Char) : Prop :=
  ∀ c ∈ rest.head?, c.isDigit = false ∧ c ≠ '.' ∧ c ≠ 'e' ∧ c ≠ 'E'

theorem endsNumber_nil : EndsNumber [] := nofun

theorem endsNumber_cons (c : Char) (rest : List Char)
    (hc : c.isDigit = false ∧ c ≠ '.' ∧ c ≠ 'e' ∧ c ≠ 'E') : EndsNumber (c :: rest) := by
  rintro _ ⟨⟩
  exact hc

theorem readFraction_of_endsNumber {rest : List Char} (hrest : EndsNumber rest) :
    readFraction rest = some ([], rest) := by
  cases rest with
  | nil => rfl
  | cons c rest =>
    obtain ⟨-, hpoint, he, hE⟩ := hrest c rfl
    rw [readFraction.eq_def]
    split
    · next h => cases h; exact absurd rfl hpoint
    · simp [he, hE]

/-- Only zero begins with a zero. -/
theorem head?_toDigits_ne {n : Nat} (hn : 0 < n) : (Nat.toDigits 10 n).head? ≠ some '0' := by
  induction n using Nat.strongRecOn with
  | ind n ih =>
    rcases Nat.lt_or_ge n 10 with hsmall | hlarge
    · rw [Nat.toDigits_of_lt_base hsmall]
      exact (by decide : ∀ n < 10, 0 < n → [n.digitChar].head? ≠ some '0') n hsmall hn
    · rw [Nat.toDigits_of_base_le (by decide) hlarge]
      have hhead := ih (n / 10) (by omega) (by omega)
      rcases hdigits : Nat.toDigits 10 (n / 10) with _ | ⟨c, cs⟩
      · exact absurd hdigits Nat.toDigits_ne_nil
      · rw [hdigits] at hhead
        exact hhead

/-- The digits of a number are read as the number. A sign in front of them says that it is not
zero. -/
theorem readNumber_toDigits (negative : Bool) {n : Nat} {rest : List Char}
    (hn : negative = true → 0 < n) (hrest : EndsNumber rest) :
    readNumber negative (Nat.toDigits 10 n ++ rest) =
      some (.integer (if negative then -(n : Int) else n), rest) := by
  have hdigits : ∀ c ∈ Nat.toDigits 10 n, c.isDigit = true := fun _ => isDigit_of_mem_toDigits
  obtain ⟨htake, hdrop⟩ := takeWhile_dropWhile_append hdigits fun c hc => (hrest c hc).1
  have hwhole : ¬ ((Nat.toDigits 10 n).isEmpty = true ∨
      (Nat.toDigits 10 n).length ≠ 1 ∧ (Nat.toDigits 10 n).head? = some '0') := by
    rintro (hempty | ⟨hlength, hzero⟩)
    · exact Nat.toDigits_ne_nil (List.isEmpty_iff.mp hempty)
    · rcases Nat.eq_zero_or_pos n with rfl | hpos
      · exact hlength rfl
      · exact head?_toDigits_ne hpos hzero
  rw [readNumber, htake, hdrop, if_neg hwhole, readFraction_of_endsNumber hrest,
    Nat.ofDigitChars_ten_toDigits]
  have hsign : ¬ (negative = true ∧ n = 0) := fun ⟨hneg, hzero⟩ => by have := hn hneg; omega
  simp [hsign]

theorem readSymbol_of_isDigit {c : Char} (hc : c.isDigit = true) (rest : List Char) :
    readSymbol (c :: rest) =
      (readNumber false (c :: rest)).map fun (value, rest) => (atom value, rest) := by
  rw [readSymbol.eq_def]
  split
  case h_12 => rfl
  -- None of the characters that begin another symbol is a digit.
  all_goals
    next h =>
      cases h
      exact absurd hc (by decide)

theorem toList_ofNat (n : Nat) : (toString (Int.ofNat n)).toList = Nat.toDigits 10 n := by
  rw [← String.toList_ofList (l := Nat.toDigits 10 n), ← Nat.repr_eq_ofList_toDigits]
  rfl

theorem toList_negSucc (n : Nat) :
    (toString (Int.negSucc n)).toList = '-' :: Nat.toDigits 10 (n + 1) := by
  rw [← String.toList_ofList (l := Nat.toDigits 10 (n + 1)), ← Nat.repr_eq_ofList_toDigits]
  exact String.toList_append

theorem toList_integer_ne_nil (n : Int) : (toString n).toList ≠ [] := by
  cases n with
  | ofNat n => exact toList_ofNat n ▸ Nat.toDigits_ne_nil
  | negSucc n => exact toList_negSucc n ▸ List.cons_ne_nil _ _

theorem readSymbol_integer (n : Int) {rest : List Char} (hrest : EndsNumber rest) :
    readSymbol ((toString n).toList ++ rest) = some (atom (.integer n), rest) := by
  cases n with
  | ofNat n =>
    have hread := readNumber_toDigits false (n := n) nofun hrest
    rw [toList_ofNat]
    rcases hdigits : Nat.toDigits 10 n with _ | ⟨c, cs⟩
    · exact absurd hdigits Nat.toDigits_ne_nil
    · have hc : c ∈ Nat.toDigits 10 n := hdigits ▸ List.mem_cons_self
      rw [hdigits] at hread
      rw [List.cons_append, readSymbol_of_isDigit (isDigit_of_mem_toDigits hc),
        ← List.cons_append, hread]
      rfl
  | negSucc n =>
    rw [toList_negSucc, List.cons_append, readSymbol,
      readNumber_toDigits true (fun _ => n.succ_pos) hrest]
    rfl

/-! ## Symbols -/

/-- No symbol begins with white space. -/
theorem readSymbol_of_isSpace {c : Char} (hc : isSpace c = true) (rest : List Char) :
    readSymbol (c :: rest) = none := by
  simp only [isSpace, Bool.or_eq_true, beq_iff_eq] at hc
  obtain ((rfl | rfl) | rfl) | rfl := hc <;> rfl

/-- A text is cut into symbols up to a rest, whatever is done with the rest. -/
structure Spells (cs : List Char) (symbols : List JsonSymbol) (rest : List Char) : Prop where
  /-- no symbol is empty -/
  length_le : rest.length + symbols.length ≤ cs.length
  /-- the symbols come first, and the bound goes down by one with each of them -/
  cut : ∀ bound, ofCharsWithin (bound + symbols.length) cs = symbols ++ ofCharsWithin bound rest

namespace Spells

/-- One symbol that is written, before a rest that does not change it. -/
theorem single {written rest : List Char} {symbol : JsonSymbol} (hne : written ≠ [])
    (hread : readSymbol (written ++ rest) = some (symbol, rest)) :
    Spells (written ++ rest) [symbol] rest := by
  obtain ⟨c, cs, rfl⟩ := List.exists_cons_of_ne_nil hne
  rw [List.cons_append] at hread ⊢
  have hspace : isSpace c = false := by
    rw [← Bool.not_eq_true]
    intro hspace
    rw [readSymbol_of_isSpace hspace] at hread
    cases hread
  have hdrop : (c :: (cs ++ rest)).dropWhile isSpace = c :: (cs ++ rest) :=
    List.dropWhile_cons_of_neg (by simp [hspace])
  refine ⟨?_, fun bound => ?_⟩
  · simp only [List.length_cons, List.length_append, List.length_nil]
    omega
  · simp only [List.length_singleton, ofCharsWithin, hdrop, hread, List.singleton_append]

theorem append {cs mid rest : List Char} {front back : List JsonSymbol}
    (hfront : Spells cs front mid) (hback : Spells mid back rest) :
    Spells cs (front ++ back) rest where
  length_le := by
    have hfront := hfront.length_le
    have hback := hback.length_le
    rw [List.length_append]
    omega
  cut bound := by
    rw [List.length_append, Nat.add_comm front.length, ← Nat.add_assoc, hfront.cut, hback.cut,
      List.append_assoc]

/-- The symbols of a text that ends with them. -/
theorem ofChars_eq {cs : List Char} {symbols : List JsonSymbol} (h : Spells cs symbols []) :
    ofChars cs = symbols := by
  obtain ⟨bound, hbound⟩ := Nat.exists_eq_add_of_le' h.length_le
  have hnil : ∀ bound, ofCharsWithin bound [] = [] := fun bound => by cases bound <;> rfl
  rw [ofChars, hbound, List.length_nil, Nat.zero_add, h.cut, hnil, List.append_nil]

end Spells

end JsonSymbol

namespace Json

open JsonSymbol

mutual

/-- The symbols that a value stands for. -/
def symbols : Json → List JsonSymbol
  | array items => .openArray :: (itemSymbols items ++ [.closeArray])
  | object members => .openObject :: (memberSymbols members ++ [.closeObject])
  | string text => [.string text]
  | value => [.atom value]

/-- The symbols of the items of an array. -/
def itemSymbols : List Json → List JsonSymbol
  | [] => []
  | [item] => item.symbols
  | item :: items => item.symbols ++ .comma :: itemSymbols items

/-- The symbols of the members of an object. -/
def memberSymbols : List (Option String × Json) → List JsonSymbol
  | [] => []
  | [(name, value)] => .string name :: .colon :: value.symbols
  | (name, value) :: members =>
    .string name :: .colon :: (value.symbols ++ .comma :: memberSymbols members)

end

/-- The values that are read as they are written. -/
inductive Plain : Json → Prop
  | null : Plain null
  | bool (value : Bool) : Plain (bool value)
  | integer (value : Int) : Plain (integer value)
  | string (text : String) : Plain (ofString text)
  | array {items : List Json} (h : ∀ item ∈ items, Plain item) : Plain (array items)
  | object {members : List (Option String × Json)} (hnames : ∀ m ∈ members, m.1.isSome = true)
    (h : ∀ m ∈ members, Plain m.2) : Plain (object members)

/-! ## From characters to symbols -/

/-- The text of a value begins with the symbols of the value. -/
def Spelled (value : Json) : Prop :=
  ∀ rest, EndsNumber rest → Spells (value.write ++ rest) value.symbols rest

theorem spells_writeString (text : String) (rest : List Char) :
    Spells (writeString text.toList ++ rest) [.string (some text)] rest := by
  have hread := readSymbol_writeString text.toList rest
  rw [String.ofList_toList] at hread
  exact .single (List.cons_ne_nil _ _) hread

theorem spelled_integer (n : Int) : (integer n).Spelled := fun _ hrest =>
  .single (toList_integer_ne_nil n) (readSymbol_integer n hrest)

/-- A mark between other symbols. -/
theorem spells_mark {c : Char} {symbol : JsonSymbol} {rest : List Char}
    (h : readSymbol ([c] ++ rest) = some (symbol, rest)) : Spells (c :: rest) [symbol] rest :=
  .single (List.cons_ne_nil c []) h

theorem spells_writeItems {items : List Json} (h : ∀ item ∈ items, Spelled item)
    (rest : List Char) : Spells (writeItems items ++ ']' :: rest)
      (itemSymbols items ++ [.closeArray]) rest := by
  induction items with
  | nil => exact spells_mark rfl
  | cons item items ih =>
    have hitem := h item List.mem_cons_self
    cases items with
    | nil => exact (hitem _ (endsNumber_cons ']' rest (by decide))).append (spells_mark rfl)
    | cons next items =>
      have hlater := ih fun _ hmem => h _ (List.mem_cons_of_mem item hmem)
      rw [writeItems, itemSymbols, List.append_assoc, List.append_assoc]
      · refine (hitem _ (endsNumber_cons ',' _ (by decide))).append ?_
        exact (spells_mark rfl).append hlater
      · nofun
      · nofun

theorem spells_writeMember {value : Json} (h : value.Spelled) (name : String) {rest : List Char}
    (hrest : EndsNumber rest) :
    Spells (writeString name.toList ++ ':' :: (value.write ++ rest))
      (.string (some name) :: .colon :: value.symbols) rest :=
  (spells_writeString name _).append ((spells_mark rfl).append (h rest hrest))

theorem spells_writeMembers {members : List (Option String × Json)}
    (hnames : ∀ m ∈ members, m.1.isSome = true) (h : ∀ m ∈ members, Spelled m.2)
    (rest : List Char) : Spells (writeMembers members ++ '\x7d' :: rest)
      (memberSymbols members ++ [.closeObject]) rest := by
  induction members with
  | nil => exact spells_mark rfl
  | cons m members ih =>
    obtain ⟨name, value⟩ := m
    obtain ⟨name, rfl⟩ := Option.isSome_iff_exists.mp (hnames _ List.mem_cons_self)
    have hvalue : value.Spelled := h _ List.mem_cons_self
    cases members with
    | nil =>
      have hmember := spells_writeMember hvalue name (endsNumber_cons '\x7d' rest (by decide))
      simpa only [writeMembers, memberSymbols, Option.getD_some, List.append_assoc,
        List.cons_append] using hmember.append (spells_mark rfl)
    | cons next members =>
      have hlater := ih (fun _ hmem => hnames _ (List.mem_cons_of_mem _ hmem))
        fun _ hmem => h _ (List.mem_cons_of_mem _ hmem)
      have hmember := spells_writeMember hvalue name
        (endsNumber_cons ',' (writeMembers (next :: members) ++ '\x7d' :: rest) (by decide))
      simpa only [writeMembers, memberSymbols, Option.getD_some, List.append_assoc,
        List.cons_append, List.nil_append] using hmember.append ((spells_mark rfl).append hlater)

theorem Plain.spelled {value : Json} (h : value.Plain) : value.Spelled := by
  induction h with
  | null => exact fun rest _ => .single (List.cons_ne_nil _ _) rfl
  | bool value => exact fun rest _ => by cases value <;> exact .single (List.cons_ne_nil _ _) rfl
  | integer n => exact spelled_integer n
  | string text => exact fun rest _ => spells_writeString text rest
  | array _ ih =>
    intro rest _
    rw [write, symbols, List.cons_append, List.append_assoc]
    exact (spells_mark rfl).append (spells_writeItems ih rest)
  | object hnames _ ih =>
    intro rest _
    rw [write, symbols, List.cons_append, List.append_assoc]
    exact (spells_mark rfl).append (spells_writeMembers hnames ih rest)

/-! ## From symbols to values -/

/-- The symbols of a value are read as the value. -/
def Taken (value : Json) : Prop :=
  ∀ stack rest, beginValue stack (value.symbols ++ rest) = endValue stack value rest

/-- No value begins where an array ends. -/
theorem exists_symbols_cons (value : Json) :
    ∃ symbol more, value.symbols = symbol :: more ∧ symbol ≠ .closeArray := by
  cases value <;> exact ⟨_, _, rfl, nofun⟩

theorem beginValue_openArray (stack : List Frame) (value : Json) (rest : List JsonSymbol) :
    beginValue stack (.openArray :: (value.symbols ++ rest)) =
      beginValue (.items [] :: stack) (value.symbols ++ rest) := by
  obtain ⟨symbol, more, hsymbols, hsymbol⟩ := exists_symbols_cons value
  rw [hsymbols, List.cons_append, beginValue]
  rintro _ ⟨⟩
  exact hsymbol rfl

theorem exists_itemSymbols (item : Json) (items : List Json) :
    ∃ later, itemSymbols (item :: items) = item.symbols ++ later := by
  cases items with
  | nil => exact ⟨[], (List.append_nil _).symm⟩
  | cons next items => exact ⟨.comma :: itemSymbols (next :: items), rfl⟩

/-- The items of an array that is open are read up to its end. -/
theorem beginValue_items {item : Json} {items : List Json} (hitem : item.Taken)
    (h : ∀ item ∈ items, Taken item) (stack : List Frame) (done : List Json)
    (rest : List JsonSymbol) :
    beginValue (.items done :: stack) (itemSymbols (item :: items) ++ .closeArray :: rest) =
      endValue stack (.array (done.reverse ++ item :: items)) rest := by
  induction items generalizing item done with
  | nil =>
    rw [itemSymbols, hitem, endValue]
    simp
  | cons next items ih =>
    rw [itemSymbols, List.append_assoc, hitem, List.cons_append, endValue,
      ih (h next List.mem_cons_self) fun _ hmem => h _ (List.mem_cons_of_mem next hmem)]
    · simp
    · nofun

/-- The members of an object that is open are read up to its end, once the name of the first of
them has been read. -/
theorem exists_memberSymbols {value : Json} {members : List (Option String × Json)}
    (name : Option String) (hvalue : value.Taken) (h : ∀ m ∈ members, Taken m.2) :
    ∃ later, memberSymbols ((name, value) :: members) = .string name :: .colon :: later ∧
      ∀ stack done rest, beginValue (.members done name :: stack) (later ++ .closeObject :: rest) =
        endValue stack (.object (done.reverse ++ (name, value) :: members)) rest := by
  induction members generalizing name value with
  | nil =>
    refine ⟨value.symbols, rfl, fun stack done rest => ?_⟩
    rw [hvalue, endValue]
    simp
  | cons next members ih =>
    obtain ⟨later, hlater, hread⟩ := ih next.1 (h next List.mem_cons_self) fun _ hmem =>
      h _ (List.mem_cons_of_mem next hmem)
    refine ⟨value.symbols ++ .comma :: .string next.1 :: .colon :: later, ?_,
      fun stack done rest => ?_⟩
    · rw [← hlater]
      rfl
    · rw [List.append_assoc, hvalue]
      simp only [List.cons_append]
      rw [endValue, hread]
      simp

theorem Plain.taken {value : Json} (h : value.Plain) : value.Taken := by
  induction h with
  | null | bool | integer | string => exact fun _ _ => rfl
  | @array items _ ih =>
    intro stack rest
    rw [symbols, List.cons_append, List.append_assoc]
    cases items with
    | nil => rfl
    | cons item items =>
      obtain ⟨later, hlater⟩ := exists_itemSymbols item items
      have hitems := beginValue_items (ih item List.mem_cons_self)
        (fun _ hmem => ih _ (List.mem_cons_of_mem item hmem)) stack [] rest
      rw [hlater, List.append_assoc] at hitems ⊢
      rw [beginValue_openArray]
      exact hitems
  | @object members _ _ ih =>
    intro stack rest
    rw [symbols, List.cons_append, List.append_assoc]
    cases members with
    | nil => rfl
    | cons m members =>
      obtain ⟨later, hlater, hread⟩ := exists_memberSymbols m.1 (ih m List.mem_cons_self)
        fun _ hmem => ih _ (List.mem_cons_of_mem m hmem)
      rw [hlater]
      exact hread stack [] rest

/-- **What is written is read.** -/
theorem read?_text {value : Json} (h : value.Plain) : read? value.text = some (value, []) := by
  have hspells := h.spelled [] endsNumber_nil
  have htaken := h.taken [] []
  rw [List.append_nil] at hspells htaken
  rw [read?, text, String.toList_ofList, hspells.ofChars_eq, htaken]
  rfl

end Json

end Formulary
