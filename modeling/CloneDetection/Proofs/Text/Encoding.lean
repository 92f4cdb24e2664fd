import CloneDetection.Text.Utf8
import Mathlib.Data.List.Basic

/-!
# Bytes of code points

A code point has one to four bytes, of which the first one says how many. So where two rows of bytes
begin with code points and go on, equal rows begin with the same code point:
`CodePoint.encode_append_inj`. Characters have the bytes of their code points. Halves of surrogate
pairs, which are no characters, have bytes of the same form.
-/
namespace CloneDetection

/-- The number of a character or of half of a surrogate pair. -/
@[ext]
structure CodePoint where
  val : Nat
  val_lt : val < 0x110000
  deriving DecidableEq, Repr

namespace CodePoint

def ofChar (c : Char) : CodePoint where
  val := c.toNat
  val_lt := by
    have h : c.toNat.isValidChar := c.valid
    unfold Nat.isValidChar at h
    omega

def lineFeed : CodePoint :=
  ofChar '\n'

/-- The bytes after the first one hold six bits each. -/
def encode (p : CodePoint) : Bytes :=
  let n := p.val
  if n ≤ 0x7F then [UInt8.ofNat n]
  else if n ≤ 0x7FF then [UInt8.ofNat (n / 64 % 0x20 + 0xC0), UInt8.ofNat (n % 0x40 + 0x80)]
  else if n ≤ 0xFFFF then
    [UInt8.ofNat (n / 4096 % 0x10 + 0xE0), UInt8.ofNat (n / 64 % 0x40 + 0x80),
      UInt8.ofNat (n % 0x40 + 0x80)]
  else
    [UInt8.ofNat (n / 262144 % 8 + 0xF0), UInt8.ofNat (n / 4096 % 0x40 + 0x80),
      UInt8.ofNat (n / 64 % 0x40 + 0x80),
      UInt8.ofNat (n % 0x40 + 0x80)]

theorem encode_ofChar (c : Char) : (ofChar c).encode = String.utf8EncodeChar c :=
  rfl

theorem ofChar_injective : Function.Injective ofChar := by
  intro c d h
  exact Char.toNat_inj.1 (congrArg val h)

def byteCount (first : UInt8) : Nat :=
  if first.toNat < 0x80 then 1 else if first.toNat < 0xE0 then 2 else if first.toNat <
  0xF0 then 3 else 4

def numberOf : Bytes → Nat
  | [a] => a.toNat
  | [a, b] => a.toNat % 0x20 * 64 + b.toNat % 0x40
  | [a, b, c] => a.toNat % 0x10 * 4096 + b.toNat % 0x40 * 64 + c.toNat % 0x40
  | [a, b, c, d] =>
    a.toNat % 8 * 262144 + b.toNat % 0x40 * 4096 + c.toNat % 0x40 * 64 + d.toNat % 0x40
  | _ => 0

theorem exists_first (p : CodePoint) :
    ∃ first rest, p.encode = first :: rest ∧ p.encode.length = byteCount first := by
  have hlt := p.val_lt
  unfold encode byteCount
  dsimp only
  split_ifs with h₁ h₂ h₃ <;> refine ⟨_, _, rfl, ?_⟩ <;> simp only [UInt8.toNat_ofNat',
    List.length_cons, List.length_nil]
  · rw [if_pos (by omega)]
  · rw [if_neg (by omega), if_pos (by omega)]
  · rw [if_neg (by omega), if_neg (by omega), if_pos (by omega)]
  · rw [if_neg (by omega), if_neg (by omega), if_neg (by omega)]

theorem numberOf_encode (p : CodePoint) : numberOf p.encode = p.val := by
  have hlt := p.val_lt
  unfold encode
  dsimp only
  split_ifs with h₁ h₂ h₃ <;> simp only [numberOf, UInt8.toNat_ofNat'] <;> omega

theorem encode_injective : Function.Injective encode := by
  intro p q h
  rw [CodePoint.ext_iff, ← numberOf_encode p, ← numberOf_encode q, h]

/-- The bytes of a code point can be told from what follows them. -/
theorem encode_append_inj {p q : CodePoint} {s t : Bytes} (h : p.encode ++ s = q.encode ++ t) :
    p = q ∧ s = t := by
  obtain ⟨a, as, hp, hplength⟩ := exists_first p
  obtain ⟨b, bs, hq, hqlength⟩ := exists_first q
  have hfirst : a = b := by
    rw [hp, hq] at h
    exact (List.cons.inj h).1
  have hlength : p.encode.length = q.encode.length := by rw [hplength, hqlength, hfirst]
  obtain ⟨hbytes, hrest⟩ := List.append_inj h hlength
  exact ⟨encode_injective hbytes, hrest⟩

theorem encode_ne_nil (p : CodePoint) : p.encode ≠ [] := by
  obtain ⟨first, rest, hp, -⟩ := exists_first p
  rw [hp]
  exact List.cons_ne_nil _ _

theorem flatMap_encode_injective : Function.Injective (List.flatMap encode) := by
  intro s t h
  induction s generalizing t with
  | nil =>
    cases t with
    | nil => rfl
    | cons q t => exact absurd h.symm (List.append_ne_nil_of_left_ne_nil (encode_ne_nil q) _)
  | cons p s ih =>
    cases t with
    | nil => exact absurd h (List.append_ne_nil_of_left_ne_nil (encode_ne_nil p) _)
    | cons q t =>
      obtain ⟨hpoint, hrest⟩ := encode_append_inj h
      rw [hpoint, ih hrest]

end CodePoint

def Text.points (t : Text) : List CodePoint :=
  t.map CodePoint.ofChar

theorem Text.points_injective : Function.Injective points :=
  List.map_injective_iff.2 CodePoint.ofChar_injective

theorem Utf8.encode_eq_flatMap (t : Text) : encode t = t.points.flatMap CodePoint.encode := by
  rw [encode, Text.points, List.flatMap_map]
  simp only [CodePoint.encode_ofChar]

end CloneDetection
