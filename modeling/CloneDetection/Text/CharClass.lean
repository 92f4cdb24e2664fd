import CloneDetection.Text.Basic

/-!
# Classes of characters

A class is a list of closed ranges of code points. `isBlank` is white space in the wide sense: it
also holds the four information separators `U+001C` to `U+001F`, the next-line control and the space
separators of Unicode. `strip` takes blanks off both ends.
-/
namespace CloneDetection

abbrev CharClass := List (Nat × Nat)

namespace CharClass

def contains (cls : CharClass) (c : Char) : Bool :=
  cls.any fun (low, high) => low ≤ c.toNat && c.toNat ≤ high

def blanks : CharClass :=
  [(0x09, 0x0D), (0x1C, 0x20), (0x85, 0x85), (0xA0, 0xA0), (0x1680, 0x1680), (0x2000, 0x200A),
   (0x2028, 0x2029), (0x202F, 0x202F), (0x205F, 0x205F), (0x3000, 0x3000)]

/-- Code points of the digit zero of every script whose ten digits stand in a row. -/
def zeros : List Nat :=
  [0x30, 0x660, 0x6F0, 0x7C0, 0x966, 0x9E6, 0xA66, 0xAE6, 0xB66, 0xBE6, 0xC66, 0xCE6, 0xD66, 0xDE6,
   0xE50, 0xED0, 0xF20, 0x1040, 0x1090, 0x17E0, 0x1810, 0x1946, 0x19D0, 0x1A80, 0x1A90, 0x1B50,
   0x1BB0, 0x1C40, 0x1C50, 0xA620, 0xA8D0, 0xA900, 0xA9D0, 0xA9F0, 0xAA50, 0xABF0, 0xFF10, 0x104A0,
   0x10D30, 0x11066, 0x110F0, 0x11136, 0x111D0, 0x112F0, 0x11450, 0x114D0, 0x11650, 0x116C0,
   0x11730, 0x118E0, 0x11950, 0x11C50, 0x11D50, 0x11DA0, 0x16A60, 0x16AC0, 0x16B50, 0x1D7CE,
   0x1D7D8, 0x1D7E2, 0x1D7EC, 0x1D7F6, 0x1E140, 0x1E2F0, 0x1E950, 0x1FBF0]

end CharClass

def isBlank (c : Char) : Bool :=
  CharClass.blanks.contains c

def decimalDigit? (c : Char) : Option Nat :=
  (CharClass.zeros.find? fun z => z ≤ c.toNat && c.toNat < z + 10).map (c.toNat - ·)

namespace Text

def trimLeft (t : Text) : Text :=
  t.dropWhile isBlank

def trimRight (t : Text) : Text :=
  (t.reverse.dropWhile isBlank).reverse

def strip (t : Text) : Text :=
  t.trimLeft.trimRight

end Text

end CloneDetection
