/-!
# Letters of the basic alphabet

Names and keywords are made of the letters `A` to `Z` and `a` to `z`, and upper and lower case are
one. Two letters outside this alphabet have an upper case inside it and so can stand in a keyword:
the long s and the dotless i.
-/

namespace Formulary

/-- The upper case of a character as far as it is a letter from `A` to `Z`; every other character
stays as it is. -/
def upperLetter (c : Char) : Char :=
  if c = 'ſ' then 'S'
  else if c = 'ı' then 'I'
  else c.toUpper

/-- The upper case of a word. -/
def upperWord (word : List Char) : List Char := word.map upperLetter

/-- Whether two words differ at most in the case of the letters `A` to `Z`. -/
def sameLetters (v w : List Char) : Bool := v.map Char.toLower == w.map Char.toLower

end Formulary
