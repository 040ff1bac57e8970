/-!
# Blanks

The characters that separate without meaning anything: the Unicode property `White_Space`.
-/

namespace Formulary

/-- The code points of the property, as closed ranges. -/
def blankRanges : List (Nat × Nat) :=
  [(0x9, 0xd), (0x20, 0x20), (0x85, 0x85), (0xa0, 0xa0), (0x1680, 0x1680), (0x2000, 0x200a),
   (0x2028, 0x2029), (0x202f, 0x202f), (0x205f, 0x205f), (0x3000, 0x3000)]

/-- Whether a character is white space. -/
def isBlank (c : Char) : Bool :=
  blankRanges.any fun (first, last) => first ≤ c.toNat && c.toNat ≤ last

/-- No letter, digit or sign is a blank: from `!` to `~` there is none. -/
theorem isBlank_eq_false_of_graphic {c : Char} (h₁ : 0x21 ≤ c.toNat) (h₂ : c.toNat ≤ 0x7e) :
    isBlank c = false := by
  simp [isBlank, blankRanges]
  omega

end Formulary
