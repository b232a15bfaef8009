import SimplexMethod.Text.Ranges

/-!
# Characters that are not displayed

The Unicode property `Default_Ignorable_Code_Point` (Unicode 17) as ranges of code points in
increasing order: joiners, selectors, fillers and the code points kept free for more of them. Most
are format characters or combining marks; the four fillers for Hangul are letters all the same. Where
such a character has no effect there is nothing to see of it.
-/

namespace SimplexMethod.Text

/-- The characters with the property `Default_Ignorable_Code_Point`. -/
def ignorableRanges : List (Nat × Nat) := [
  (0xad, 0xad), (0x34f, 0x34f), (0x61c, 0x61c), (0x115f, 0x1160), (0x17b4, 0x17b5),
  (0x180b, 0x180f), (0x200b, 0x200f), (0x202a, 0x202e), (0x2060, 0x206f), (0x3164, 0x3164),
  (0xfe00, 0xfe0f), (0xfeff, 0xfeff), (0xffa0, 0xffa0), (0xfff0, 0xfff8), (0x1bca0, 0x1bca3),
  (0x1d173, 0x1d17a), (0xe0000, 0xe0fff)]

/-- Whether a character is not displayed unless something else makes it show. -/
def isIgnorable (c : Char) : Bool := inRanges ignorableRanges c

end SimplexMethod.Text
