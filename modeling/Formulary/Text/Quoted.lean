import Formulary.Text.Unprintable

/-!
# Quoted text

A text inside a message stands between double quotes. Quotes and backslashes in it get a backslash
in front, four controls have a letter, and what cannot be shown is given by its code point.
-/

namespace Formulary

/-- How one character is shown inside quotes. -/
def quotedChar (c : Char) : List Char :=
  if c = '\x00' then ['\\', '0']
  else if c = '\t' then ['\\', 't']
  else if c = '\n' then ['\\', 'n']
  else if c = '\r' then ['\\', 'r']
  else if c = '"' then ['\\', '"']
  else if c = '\\' then ['\\', '\\']
  else if isUnprintable c then ['\\', 'u', '\x7b'] ++ Nat.toDigits 16 c.toNat ++ ['\x7d']
  else [c]

/-- A text in double quotes. -/
def quoted (text : String) : String :=
  .ofList (['"'] ++ text.toList.flatMap quotedChar ++ ['"'])

end Formulary
