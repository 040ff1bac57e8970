/-!
# JSON values

What settings and errors are stored as, and how such a value is written without any blanks. Hosts
write stored settings and errors with a JSON library, and the text has to be the one that it writes,
down to which characters of a string are escaped.
-/

namespace Formulary

/-- A JSON value. The members of an object keep their order, and a name may come twice. A text is
`none` if it holds half of a surrogate pair and so is no sequence of characters. -/
inductive Json
  | null
  | bool (value : Bool)
  /-- a number without a fraction and an exponent; minus zero is not among them -/
  | integer (value : Int)
  /-- any other number, as it is written -/
  | real (written : List Char)
  | string (text : Option String)
  | array (items : List Json)
  | object (members : List (Option String × Json))

namespace Json

/-- A text as a value. -/
def ofString (text : String) : Json := .string (some text)

/-- An object with the given members. -/
def ofMembers (members : List (String × Json)) : Json :=
  .object (members.map fun (name, value) => (some name, value))

/-- The last four hexadecimal digits of a number. -/
def hexDigits (n : Nat) : List Char :=
  [n / 4096 % 16, n / 256 % 16, n / 16 % 16, n % 16].map Nat.digitChar

/-- How one character is written inside a string: quotes, backslashes and controls are escaped. -/
def escapedChar (c : Char) : List Char :=
  if c = '"' then ['\\', '"']
  else if c = '\\' then ['\\', '\\']
  else if c = '\x08' then ['\\', 'b']
  else if c = '\x0c' then ['\\', 'f']
  else if c = '\n' then ['\\', 'n']
  else if c = '\r' then ['\\', 'r']
  else if c = '\t' then ['\\', 't']
  else if c.toNat < 0x20 then ['\\', 'u'] ++ hexDigits c.toNat
  else [c]

/-- A text as a JSON string. -/
def writeString (cs : List Char) : List Char := '"' :: (cs.flatMap escapedChar ++ ['"'])

mutual

/-- A value without blanks. A text that is no sequence of characters is written as empty. -/
def write : Json → List Char
  | null => "null".toList
  | bool true => "true".toList
  | bool false => "false".toList
  | integer n => (toString n).toList
  | real written => written
  | string text => writeString ((text.getD "").toList)
  | array items => '[' :: (writeItems items ++ [']'])
  | object members => '\x7b' :: (writeMembers members ++ ['\x7d'])

/-- The items of an array with commas between them. -/
def writeItems : List Json → List Char
  | [] => []
  | [item] => item.write
  | item :: items => item.write ++ ',' :: writeItems items

/-- The members of an object with commas between them. -/
def writeMembers : List (Option String × Json) → List Char
  | [] => []
  | [(name, value)] => writeString ((name.getD "").toList) ++ ':' :: value.write
  | (name, value) :: members =>
    writeString ((name.getD "").toList) ++ ':' :: (value.write ++ ',' :: writeMembers members)

end

/-- The text of a value. -/
def text (value : Json) : String := .ofList value.write

end Json

end Formulary
