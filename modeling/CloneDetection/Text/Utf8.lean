import CloneDetection.Text.Basic

/-!
# UTF-8

Bytes are read one at a time. A byte that no character can hold at its place ends the character
begun before it: the bytes read so far for that character count together as one malformed piece, and
the byte is looked at again as a first byte. `decode?` refuses malformed pieces, `decodeLossy` puts
`U+FFFD` for each.
-/
namespace CloneDetection

abbrev Bytes := List UInt8

namespace Utf8

/-- A character begun: its bits so far, how many bytes it still needs, and the range that the next
byte must lie in. -/
structure Pending where
  bits : Nat
  owed : Nat
  low : Nat
  high : Nat

/-- What one byte settles (`none` is a malformed piece), and the character it leaves open. -/
abbrev Step := List (Option Char) × Option Pending

def first (byte : UInt8) : Step :=
  let b := byte.toNat
  if b < 0x80 then ([some (Char.ofNat b)], none)
  else if b < 0xC2 then ([none], none)
  else if b < 0xE0 then ([], some ⟨b % 0x20, 1, 0x80, 0xBF⟩)
  else if b = 0xE0 then ([], some ⟨b % 0x10, 2, 0xA0, 0xBF⟩)
  else if b = 0xED then ([], some ⟨b % 0x10, 2, 0x80, 0x9F⟩)
  else if b < 0xF0 then ([], some ⟨b % 0x10, 2, 0x80, 0xBF⟩)
  else if b = 0xF0 then ([], some ⟨b % 8, 3, 0x90, 0xBF⟩)
  else if b < 0xF4 then ([], some ⟨b % 8, 3, 0x80, 0xBF⟩)
  else if b = 0xF4 then ([], some ⟨b % 8, 3, 0x80, 0x8F⟩)
  else ([none], none)

def next (p : Pending) (byte : UInt8) : Step :=
  let b := byte.toNat
  if p.low ≤ b ∧ b ≤ p.high then
    let bits := p.bits * 0x40 + b % 0x40
    if p.owed ≤
      1 then ([some (Char.ofNat bits)], none) else ([], some ⟨bits, p.owed - 1, 0x80, 0xBF⟩)
  else
    let (pieces, open?) := first byte
    (none :: pieces, open?)

def step : Option Pending → UInt8 → Step
  | none, byte => first byte
  | some p, byte => next p byte

/-- The characters and malformed pieces of the bytes that follow `open?`. -/
def pieces (open? : Option Pending) : Bytes → List (Option Char)
  | [] => if open?.isSome then [none] else []
  | byte :: rest =>
    let (settled, left) := step open? byte
    settled ++ pieces left rest

def decode? (bytes : Bytes) : Option Text :=
  (pieces none bytes).mapM id

def decodeLossy (bytes : Bytes) : Text :=
  (pieces none bytes).map (·.getD '\uFFFD')

def encode (t : Text) : Bytes :=
  t.flatMap String.utf8EncodeChar

theorem encode_append (s t : Text) : encode (s ++ t) = encode s ++ encode t := by
  simp [encode]

end Utf8

end CloneDetection
