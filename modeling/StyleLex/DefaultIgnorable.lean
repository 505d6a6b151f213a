import StyleLex.CharRange

/-!
# Characters that show nothing

The code points of Unicode 17 with the property Default_Ignorable_Code_Point: format characters,
code points kept free for more of them, variation selectors, and the Hangul fillers, which count as
letters and still leave no mark.
-/
namespace StyleLex

def defaultIgnorable : CharTable where
  ranges := [
    (0xAD, 0xAD), (0x34F, 0x34F), (0x61C, 0x61C), (0x115F, 0x1160), (0x17B4, 0x17B5),
    (0x180B, 0x180F), (0x200B, 0x200F), (0x202A, 0x202E), (0x2060, 0x206F), (0x3164, 0x3164),
    (0xFE00, 0xFE0F), (0xFEFF, 0xFEFF), (0xFFA0, 0xFFA0), (0xFFF0, 0xFFF8), (0x1BCA0, 0x1BCA3),
    (0x1D173, 0x1D17A), (0xE0000, 0xE0FFF)]
  ascend := by decide +kernel

def isDefaultIgnorable (c : Char) : Bool := defaultIgnorable.has c

/-- Every ASCII character shows or separates something, or is a control. -/
theorem isDefaultIgnorable_ascii {c : Char} (h : c.toNat < 128) : isDefaultIgnorable c = false := by
  exact CharRange.covers_of_lt (r := (0xAD, 0xAD)) (by simp; omega) _

end StyleLex
