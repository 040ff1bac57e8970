import Formulary.Json

/-!
# Reading JSON

A text is cut into symbols first: punctuation, words, numbers and strings. The symbols are then put
together from left to right with a stack of the arrays and objects that are open. What follows a
value is left alone, so that a reader can use a value before it looks at the rest.

Hosts read stored settings and errors with a JSON library, and what is read here has to agree with
that library on every text: on the texts that it refuses as well as on the values that it gives, and
in looking no further than the end of a value.

* `JsonSymbol.ofChars` — the symbols of a text; a text that is none ends them with `invalid`;
* `Json.read?` — the value at the front of a text, and the symbols after it;
* `Json.ofText?` — the value of a text that holds nothing else.
-/

namespace Formulary

/-- A unit of JSON text. -/
inductive JsonSymbol
  | openArray
  | closeArray
  | openObject
  | closeObject
  | comma
  | colon
  /-- a value without parts that is no string -/
  | atom (value : Json)
  | string (text : Option String)
  /-- what no unit begins with; nothing is read beyond it -/
  | invalid

namespace JsonSymbol

/-! ## Strings -/

/-- The value of a hexadecimal digit. -/
def hexValue? (c : Char) : Option Nat :=
  if c.isDigit then some (c.toNat - '0'.toNat)
  else if 'a' ≤ c ∧ c ≤ 'f' then some (c.toNat - 'a'.toNat + 10)
  else if 'A' ≤ c ∧ c ≤ 'F' then some (c.toNat - 'A'.toNat + 10)
  else none

/-- The value of four hexadecimal digits. -/
def hexValue₄? (a b c d : Char) : Option Nat := do
  return (((← hexValue? a) * 16 + (← hexValue? b)) * 16 + (← hexValue? c)) * 16 + (← hexValue? d)

/-- The character of an escape with one letter. -/
def escape? : Char → Option Char
  | '"' => some '"'
  | '\\' => some '\\'
  | '/' => some '/'
  | 'b' => some '\x08'
  | 'f' => some '\x0c'
  | 'n' => some '\n'
  | 'r' => some '\r'
  | 't' => some '\t'
  | _ => none

/-- The code units of a string up to its closing quote, and the text after it. Escapes with four
digits give one code unit, all other characters their code point. -/
def readUnits : List Char → Option (List Nat × List Char)
  | [] => none
  | '"' :: rest => some ([], rest)
  | '\\' :: 'u' :: a :: b :: c :: d :: rest => do
    let unit ← hexValue₄? a b c d
    let (units, rest) ← readUnits rest
    return (unit :: units, rest)
  | '\\' :: letter :: rest => do
    let c ← escape? letter
    let (units, rest) ← readUnits rest
    return (c.toNat :: units, rest)
  | c :: rest =>
    if c.toNat < 0x20 ∨ c = '\\' then none
    else do
      let (units, rest) ← readUnits rest
      return (c.toNat :: units, rest)

/-- The characters of code units: two halves of a surrogate pair are one character, and half a pair
is none. -/
def charsOfUnits : List Nat → Option (List Char)
  | [] => some []
  | high :: units =>
    if 0xd800 ≤ high ∧ high < 0xdc00 then
      match units with
      | low :: units =>
        if 0xdc00 ≤ low ∧ low < 0xe000 then
          (charsOfUnits units).map
            (Char.ofNat (0x10000 + (high - 0xd800) * 0x400 + (low - 0xdc00)) :: ·)
        else none
      | [] => none
    else if 0xdc00 ≤ high ∧ high < 0xe000 then none
    else (charsOfUnits units).map (Char.ofNat high :: ·)

/-! ## Numbers -/

/-- The part of a number after the whole digits: perhaps a point with digits, perhaps an exponent
with digits. -/
def readFraction (cs : List Char) : Option (List Char × List Char) :=
  let point : Option (List Char × List Char) :=
    match cs with
    | '.' :: cs =>
      let digits := cs.takeWhile Char.isDigit
      if digits.isEmpty then none else some ('.' :: digits, cs.dropWhile Char.isDigit)
    | cs => some ([], cs)
  point.bind fun (fraction, cs) =>
    match cs with
    | mark :: rest =>
      if mark = 'e' ∨ mark = 'E' then
        let (sign, rest) :=
          match rest with
          | '+' :: rest => (['+'], rest)
          | '-' :: rest => (['-'], rest)
          | rest => ([], rest)
        let digits := rest.takeWhile Char.isDigit
        if digits.isEmpty then none
        else some (fraction ++ mark :: (sign ++ digits), rest.dropWhile Char.isDigit)
      else some (fraction, cs)
    | [] => some (fraction, cs)

/-- The number at the front of a text, after its sign. Zero is the only number that begins with
a zero. -/
def readNumber (negative : Bool) (cs : List Char) : Option (Json × List Char) :=
  let whole := cs.takeWhile Char.isDigit
  if whole.isEmpty ∨ whole.length ≠ 1 ∧ whole.head? = some '0' then none
  else
    (readFraction (cs.dropWhile Char.isDigit)).map fun (fraction, rest) =>
      let n := Nat.ofDigitChars 10 whole 0
      if fraction.isEmpty ∧ ¬(negative ∧ n = 0) then
        (.integer (if negative then -(n : Int) else n), rest)
      else (.real ((if negative then ['-'] else []) ++ whole ++ fraction), rest)

/-! ## Symbols -/

/-- White space between symbols. -/
def isSpace (c : Char) : Bool := c == ' ' || c == '\t' || c == '\n' || c == '\r'

/-- The symbol at the front of a text that does not begin with white space. -/
def readSymbol : List Char → Option (JsonSymbol × List Char)
  | '[' :: rest => some (openArray, rest)
  | ']' :: rest => some (closeArray, rest)
  | '\x7b' :: rest => some (openObject, rest)
  | '\x7d' :: rest => some (closeObject, rest)
  | ',' :: rest => some (comma, rest)
  | ':' :: rest => some (colon, rest)
  | 'n' :: 'u' :: 'l' :: 'l' :: rest => some (atom .null, rest)
  | 't' :: 'r' :: 'u' :: 'e' :: rest => some (atom (.bool true), rest)
  | 'f' :: 'a' :: 'l' :: 's' :: 'e' :: rest => some (atom (.bool false), rest)
  | '"' :: rest =>
    (readUnits rest).map fun (units, rest) => (string ((charsOfUnits units).map .ofList), rest)
  | '-' :: rest => (readNumber true rest).map fun (value, rest) => (atom value, rest)
  | rest => (readNumber false rest).map fun (value, rest) => (atom value, rest)

/-- The symbols of a text. A symbol is at least one character, so there are no more symbols than
`bound` if the text is no longer than that. -/
def ofCharsWithin : Nat → List Char → List JsonSymbol
  | 0, _ => []
  | bound + 1, cs =>
    match cs.dropWhile isSpace with
    | [] => []
    | cs =>
      match readSymbol cs with
      | none => [invalid]
      | some (symbol, rest) => symbol :: ofCharsWithin bound rest

/-- The symbols of a text. -/
def ofChars (cs : List Char) : List JsonSymbol := ofCharsWithin cs.length cs

end JsonSymbol

namespace Json

/-! ## Values -/

/-- An array or object that is open, with what has been read of it in reverse. -/
inductive Frame
  | items (done : List Json)
  | members (done : List (Option String × Json)) (name : Option String)

mutual

/-- Reads on where a value has to begin. -/
def beginValue (stack : List Frame) : List JsonSymbol → Option (Json × List JsonSymbol)
  | .atom value :: rest => endValue stack value rest
  | .string text :: rest => endValue stack (.string text) rest
  | .openArray :: .closeArray :: rest => endValue stack (.array []) rest
  | .openArray :: rest => beginValue (.items [] :: stack) rest
  | .openObject :: .closeObject :: rest => endValue stack (.object []) rest
  | .openObject :: .string name :: .colon :: rest => beginValue (.members [] name :: stack) rest
  | _ => none

/-- Reads on after a value. -/
def endValue (stack : List Frame) (value : Json) : List JsonSymbol → Option (Json × List JsonSymbol)
  | [] =>
    match stack with
    | [] => some (value, [])
    | _ => none
  | symbol :: rest =>
    match stack with
    | [] => some (value, symbol :: rest)
    | .items done :: stack =>
      match symbol with
      | .comma => beginValue (.items (value :: done) :: stack) rest
      | .closeArray => endValue stack (.array (value :: done).reverse) rest
      | _ => none
    | .members done name :: stack =>
      match symbol, rest with
      | .comma, .string next :: .colon :: rest =>
        beginValue (.members ((name, value) :: done) next :: stack) rest
      | .closeObject, rest => endValue stack (.object ((name, value) :: done).reverse) rest
      | _, _ => none

end

/-- The value at the front of a text, and the symbols after it. -/
def read? (text : String) : Option (Json × List JsonSymbol) :=
  beginValue [] (JsonSymbol.ofChars text.toList)

/-- The value of a text that holds nothing else. -/
def ofText? (text : String) : Option Json :=
  match read? text with
  | some (value, []) => some value
  | _ => none

end Json

end Formulary
