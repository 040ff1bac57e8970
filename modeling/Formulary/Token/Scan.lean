import Formulary.Numeral
import Formulary.Text.Blank
import Formulary.Token

/-!
# From text to tokens

A text is cut into tokens from left to right, each as long as possible, and blanks between them are
passed over. Places count characters. The first token that is an error is the last one: after it
the text counts as ended.

* `lexeme` — the token at the front of a text, with the characters it covers and the rest;
* `Scanner.next` — one token after the other, with its place;
* `Scanner.tokens` — all tokens of a text, and the place of its end.
-/

namespace Formulary

/-- A token together with its characters and the text after them. -/
structure Lexeme where
  /-- what the characters stand for -/
  token : Token
  /-- the characters -/
  written : List Char
  /-- the text that follows -/
  rest : List Char

/-- The circle number. -/
def circleNumber : Binary64 := .ofDecimal ⟨3141592653589793, -15⟩

/-- The base of the natural logarithm. -/
def naturalBase : Binary64 := .ofDecimal ⟨2718281828459045, -15⟩

/-! ## One token -/

/-- What a word of letters stands for. The names of the two numbers and the keywords come before
the name of the variable. -/
def wordToken (name word : List Char) : Token :=
  if upperWord word = "PI".toList then .number circleNumber
  else if upperWord word = "E".toList then .number naturalBase
  else
    match Function.ofKeyword? word with
    | some f => .function f
    | none => if sameLetters word name then .freeVariable else .unknown word

/-- The token of a word of letters. The letter `E` takes a `^` right after it with it. -/
def wordLexeme (name cs : List Char) : Lexeme :=
  let word := cs.takeWhile Char.isAlpha
  match cs.dropWhile Char.isAlpha with
  | '^' :: rest =>
    if upperWord word = "E".toList then ⟨.exponential, word ++ ['^'], rest⟩
    else ⟨wordToken name word, word, '^' :: rest⟩
  | rest => ⟨wordToken name word, word, rest⟩

/-- The token of a constant, `cs` being the text after the mark. -/
def constantLexeme (cs : List Char) : Lexeme :=
  let symbol := cs.takeWhile isSymbolChar
  let token :=
    match Constant.find? symbol with
    | some c => .constant c
    | none => .unknown (constantMark :: symbol)
  ⟨token, constantMark :: symbol, cs.dropWhile isSymbolChar⟩

/-- The token of a number literal. -/
def numberLexeme (cs : List Char) : Lexeme :=
  let (numeral, rest) := Numeral.read cs
  let token :=
    match numeral.value? with
    | some x => .number x
    | none => .malformed numeral.text
  ⟨token, numeral.written, rest⟩

/-- The tokens of one character. -/
def signToken? : Char → Option Token
  | '+' => some (.operator .add)
  | '-' => some (.operator .subtract)
  | '*' => some (.operator .multiply)
  | '/' => some (.operator .divide)
  | '^' => some (.operator .power)
  | '(' => some .openBracket
  | ')' => some .closeBracket
  | _ => none

/-- The token at the front of a text that does not begin with a blank. -/
def lexeme (name : List Char) (c : Char) (cs : List Char) : Lexeme :=
  match signToken? c with
  | some token => ⟨token, [c], cs⟩
  | none =>
    if c = constantMark then constantLexeme cs
    else if c.isDigit then numberLexeme (c :: cs)
    else if c.isAlpha then wordLexeme name (c :: cs)
    else ⟨.illegal c, [c], cs⟩

/-! ### A token covers the front of its text -/

theorem wordLexeme_append (name cs : List Char) :
    (wordLexeme name cs).written ++ (wordLexeme name cs).rest = cs := by
  have h : cs.takeWhile Char.isAlpha ++ cs.dropWhile Char.isAlpha = cs :=
    List.takeWhile_append_dropWhile
  simp only [wordLexeme]
  split
  · next rest hr =>
    rw [hr] at h
    split <;> simpa using h
  · exact h

theorem constantLexeme_append (cs : List Char) :
    (constantLexeme cs).written ++ (constantLexeme cs).rest = constantMark :: cs := by
  simp [constantLexeme, List.takeWhile_append_dropWhile]

theorem numberLexeme_append (cs : List Char) :
    (numberLexeme cs).written ++ (numberLexeme cs).rest = cs :=
  Numeral.read_append cs

theorem lexeme_append (name : List Char) (c : Char) (cs : List Char) :
    (lexeme name c cs).written ++ (lexeme name c cs).rest = c :: cs := by
  rw [lexeme]
  split
  · rfl
  · split
    · next h => rw [constantLexeme_append, h]
    · split
      · exact numberLexeme_append (c :: cs)
      · split
        · exact wordLexeme_append name (c :: cs)
        · rfl

theorem written_ne_nil_of_wordLexeme {c : Char} (h : c.isAlpha = true) (name cs : List Char) :
    (wordLexeme name (c :: cs)).written ≠ [] := by
  simp only [wordLexeme]
  repeat' split
  all_goals simp [h]

theorem written_ne_nil_of_numberLexeme {c : Char} (h : c.isDigit = true) (cs : List Char) :
    (numberLexeme (c :: cs)).written ≠ [] := by
  simp [numberLexeme, Numeral.written, Numeral.read_whole h cs]

theorem written_ne_nil (name : List Char) (c : Char) (cs : List Char) :
    (lexeme name c cs).written ≠ [] := by
  rw [lexeme]
  split
  · exact List.cons_ne_nil _ _
  · split
    · exact List.cons_ne_nil _ _
    · split
      · next h => exact written_ne_nil_of_numberLexeme h cs
      · split
        · next h => exact written_ne_nil_of_wordLexeme h name cs
        · exact List.cons_ne_nil _ _

theorem length_written_add_length_rest (name : List Char) (c : Char) (cs : List Char) :
    (lexeme name c cs).written.length + (lexeme name c cs).rest.length =
      cs.length + 1 := by
  have h := congrArg List.length (lexeme_append name c cs)
  simpa using h

theorem length_rest_lexeme_lt (name : List Char) (c : Char) (cs : List Char) :
    (lexeme name c cs).rest.length < cs.length + 1 := by
  have h := length_written_add_length_rest name c cs
  have hp := List.length_pos_iff.2 (written_ne_nil name c cs)
  omega

/-! ## One token after the other -/

/-- A text that is being cut into tokens. -/
structure Scanner where
  /-- the name of the free variable -/
  name : List Char
  /-- the text that is left -/
  rest : List Char
  /-- how many characters have been passed -/
  position : Nat
  /-- the place of the last token, zero before the first -/
  start : Nat
  /-- whether an error has ended the text -/
  stopped : Bool

namespace Scanner

/-- A text with the name of its variable, nothing of it read. -/
def ofText (name text : String) : Scanner := ⟨name.toList, text.toList, 0, 0, false⟩

/-- The next token. After an error, and after the text, this is the end of the text, again and
again. -/
def next (s : Scanner) : Token × Scanner :=
  if s.stopped then (.endOfText, { s with start := s.position })
  else
    let start := s.position + (s.rest.takeWhile isBlank).length
    match s.rest.dropWhile isBlank with
    | [] => (.endOfText, { s with rest := [], position := start, start := start })
    | c :: cs =>
      let l := lexeme s.name c cs
      (l.token,
        { s with
          rest := l.rest
          position := start + l.written.length
          start := start
          stopped := l.token.isError })

theorem length_rest_next_lt {s : Scanner} (h : s.next.1 ≠ .endOfText) :
    s.next.2.rest.length < s.rest.length := by
  have hl := (List.dropWhile_sublist isBlank (l := s.rest)).length_le
  rw [next] at h ⊢
  split
  · next hs => simp [hs] at h
  · next hs =>
    dsimp only at h ⊢
    split
    · next hd => simp [hs, hd] at h
    · next c cs hd =>
      rw [hd, List.length_cons] at hl
      exact Nat.lt_of_lt_of_le (length_rest_lexeme_lt s.name c cs) hl

/-- The tokens up to the end, with their places, and the place of the end. -/
def tokens (s : Scanner) : List Located × Nat :=
  match _hn : s.next with
  | (token, after) =>
    if _ht : token = .endOfText then ([], after.start)
    else
      let (later, finish) := after.tokens
      (⟨token, after.start⟩ :: later, finish)
  termination_by s.rest.length
  decreasing_by
    have h := length_rest_next_lt (s := s) (by rw [_hn]; exact _ht)
    rwa [_hn] at h

end Scanner

end Formulary
