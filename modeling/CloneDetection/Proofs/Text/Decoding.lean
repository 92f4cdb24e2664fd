import CloneDetection.Proofs.Text.Encoding

/-!
# Encoded text is decoded

The first byte of a character says how many more there are, and the range that it sets for the
second one shuts out numbers written in too many bytes, halves of surrogate pairs and numbers past
the last code point. A character has none of these, so its bytes are taken one after another and
settle that character, whatever follows: `pieces_utf8EncodeChar_append`.
-/
namespace CloneDetection

namespace Utf8

section Bytes

variable {n bits low high : Nat} {rest : Bytes}

/-- The byte that holds the last six bits of `n`. -/
def trailing (n : Nat) : UInt8 :=
  UInt8.ofNat (n % 0x40 + 0x80)

theorem toNat_trailing (n : Nat) : (trailing n).toNat = n % 0x40 + 0x80 := by
  rw [trailing, UInt8.toNat_ofNat']
  omega

/-- A byte that the open character asks for leaves it open while more are owed. -/
theorem pieces_more {owed : Nat} (hlow : low ≤ n % 0x40 + 0x80) (hhigh : n % 0x40 + 0x80 ≤ high) :
    pieces (some ⟨bits, owed + 2, low, high⟩) (trailing n :: rest) =
      pieces (some ⟨bits * 0x40 + n % 0x40, owed + 1, 0x80, 0xBF⟩) rest := by
  have hbits : (n % 0x40 + 0x80) % 0x40 = n % 0x40 := by omega
  simp [pieces, step, next, toNat_trailing, hlow, hhigh, hbits]

theorem pieces_last (hlow : low ≤ n % 0x40 + 0x80) (hhigh : n % 0x40 + 0x80 ≤ high) :
    pieces (some ⟨bits, 1, low, high⟩) (trailing n :: rest) =
      some (Char.ofNat (bits * 0x40 + n % 0x40)) :: pieces none rest := by
  have hbits : (n % 0x40 + 0x80) % 0x40 = n % 0x40 := by omega
  simp [pieces, step, next, toNat_trailing, hlow, hhigh, hbits]

theorem pieces_single (h : n < 0x80) :
    pieces none (UInt8.ofNat n :: rest) = some (Char.ofNat n) :: pieces none rest := by
  have hbyte : (UInt8.ofNat n).toNat = n := by
    rw [UInt8.toNat_ofNat']
    omega
  simp [pieces, step, first, hbyte, h]

theorem pieces_first_of_two (hlow : 2 ≤ n) (hhigh : n < 0x20) :
    pieces none (UInt8.ofNat (n + 0xC0) :: rest) = pieces (some ⟨n, 1, 0x80, 0xBF⟩) rest := by
  have hbyte : (UInt8.ofNat (n + 0xC0)).toNat = n + 0xC0 := by
    rw [UInt8.toNat_ofNat']
    omega
  have hbits : (n + 0xC0) % 0x20 = n := by omega
  simp only [pieces, step, first, hbyte]
  rw [if_neg (by omega), if_neg (by omega), if_pos (by omega), hbits, List.nil_append]

/-- After the first of three bytes, the range of the second one. -/
theorem pieces_first_of_three (h : n < 0x10) :
    pieces none (UInt8.ofNat (n + 0xE0) :: rest) =
      pieces (some ⟨n, 2, if n = 0 then 0xA0 else 0x80, if n = 0xD then 0x9F else 0xBF⟩) rest := by
  have hbyte : (UInt8.ofNat (n + 0xE0)).toNat = n + 0xE0 := by
    rw [UInt8.toNat_ofNat']
    omega
  have hbits : (n + 0xE0) % 0x10 = n := by omega
  simp only [pieces, step, first, hbyte]
  rw [if_neg (by omega), if_neg (by omega), if_neg (by omega), hbits]
  by_cases hzero : n = 0
  · simp [hzero]
  · by_cases hsurrogate : n = 0xD
    · simp [hsurrogate]
    · rw [if_neg (by omega), if_neg (by omega), if_pos (by omega), if_neg hzero, if_neg hsurrogate,
        List.nil_append]

theorem pieces_first_of_four (h : n < 5) :
    pieces none (UInt8.ofNat (n + 0xF0) :: rest) =
      pieces (some ⟨n, 3, if n = 0 then 0x90 else 0x80, if n = 4 then 0x8F else 0xBF⟩) rest := by
  have hbyte : (UInt8.ofNat (n + 0xF0)).toNat = n + 0xF0 := by
    rw [UInt8.toNat_ofNat']
    omega
  have hbits : (n + 0xF0) % 8 = n := by omega
  simp only [pieces, step, first, hbyte]
  rw [if_neg (by omega), if_neg (by omega), if_neg (by omega), if_neg (by omega), if_neg (by omega),
    if_neg (by omega), hbits]
  by_cases hzero : n = 0
  · simp [hzero]
  · by_cases htop : n = 4
    · simp [htop]
    · rw [if_neg (by omega), if_pos (by omega), if_neg hzero, if_neg htop, List.nil_append]

end Bytes

/-- The bytes of a code point that is no half of a pair settle its character and leave none open. -/
theorem pieces_encode_append {p : CodePoint} (hvalid : p.val < 0xD800 ∨ 0xDFFF < p.val)
    (rest : Bytes) :
    pieces none (p.encode ++ rest) = some (Char.ofNat p.val) :: pieces none rest := by
  rcases p with ⟨n, hn⟩
  dsimp only at hvalid
  unfold CodePoint.encode
  dsimp only
  split_ifs with h₁ h₂ h₃
  · rw [List.singleton_append, pieces_single (by omega)]
  · have hnumber : n / 64 % 0x20 * 0x40 + n % 0x40 = n := by omega
    simp only [List.cons_append, List.nil_append]
    rw [pieces_first_of_two (by omega) (by omega), ← trailing, pieces_last (by omega) (by omega),
      hnumber]
  · have hnumber : (n / 4096 % 0x10 * 0x40 + n / 64 % 0x40) * 0x40 + n % 0x40 = n := by omega
    simp only [List.cons_append, List.nil_append]
    rw [pieces_first_of_three (by omega), ← trailing, ← trailing,
      pieces_more (by split <;> omega) (by split <;> omega), pieces_last (by omega) (by omega),
      hnumber]
  · have hnumber : ((n / 262144 % 8 * 0x40 + n / 4096 % 0x40) * 0x40 + n / 64 % 0x40) * 0x40 +
        n % 0x40 = n := by omega
    simp only [List.cons_append, List.nil_append]
    rw [pieces_first_of_four (by omega), ← trailing, ← trailing, ← trailing,
      pieces_more (by split <;> omega) (by split <;> omega), pieces_more (by omega) (by omega),
      pieces_last (by omega) (by omega), hnumber]

theorem pieces_utf8EncodeChar_append (c : Char) (rest : Bytes) :
    pieces none (String.utf8EncodeChar c ++ rest) = some c :: pieces none rest := by
  have hvalid : c.toNat.isValidChar := c.valid
  rw [← CodePoint.encode_ofChar, pieces_encode_append (hvalid.imp id And.left), CodePoint.ofChar,
    Char.ofNat_toNat]

theorem pieces_encode (t : Text) : pieces none (encode t) = t.map some := by
  induction t with
  | nil => rfl
  | cons c t ih =>
    rw [encode, List.flatMap_cons, pieces_utf8EncodeChar_append, ← encode, ih, List.map_cons]

theorem decodeLossy_encode (t : Text) : decodeLossy (encode t) = t := by
  simp only [decodeLossy, pieces_encode, List.map_map]
  exact List.map_id t

end Utf8

end CloneDetection
