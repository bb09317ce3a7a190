/-
Blank characters: those with the Unicode property White_Space. A run of them separates words and means
nothing else.
-/
import PL0.Text.CodeRange

namespace PL0.Text

/-- The code points with the property White_Space, in ascending order. -/
def blankRanges : List CodeRange :=
  [⟨0x9, 0xD⟩, ⟨0x20, 0x20⟩, ⟨0x85, 0x85⟩, ⟨0xA0, 0xA0⟩, ⟨0x1680, 0x1680⟩, ⟨0x2000, 0x200A⟩,
   ⟨0x2028, 0x2029⟩, ⟨0x202F, 0x202F⟩, ⟨0x205F, 0x205F⟩, ⟨0x3000, 0x3000⟩]

/-- Whether the character is blank. -/
def isBlank (c : Char) : Bool := CodeRange.anyHas blankRanges c

end PL0.Text
