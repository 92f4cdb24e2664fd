import CloneDetection.Json.Reading
import Mathlib.Tactic.SplitIfs

/-!
# Text in JSON

Every character is written as itself or as escapes, and is read as its code units of sixteen bits:
one, or past `U+FFFF` the two halves of a pair. No character is half of a pair, so the units of a
text have one reading, and any text at all is read back: `text?_flatMap_escapeChar`.
-/
namespace CloneDetection

namespace Json

def unitsOf (c : Char) : List Nat :=
  if c.toNat < 0x10000 then [c.toNat]
  else [0xD800 + (c.toNat - 0x10000) / 0x400, 0xDC00 + (c.toNat - 0x10000) % 0x400]

section Units

variable {n : Nat} {c : Char} {rest left : Text} {units : List Nat}

theorem value?_digit (n : Nat) : Hexadecimal.value? (Hexadecimal.digit n) = some (n % 16) := by
  have hdigit : Hexadecimal.digit n = Hexadecimal.digit (n % 16) := by simp [Hexadecimal.digit]
  rw [hdigit, Hexadecimal.value?_digit (Nat.mod_lt n (by decide))]

theorem units?_escapeUnit (hn : n < 0x10000) (hrest : units? rest = some (units, left)) :
    units? (escapeUnit n ++ rest) = some (n :: units, left) := by
  have hread : Hexadecimal.read? ([n / 0x1000, n / 0x100, n / 0x10, n].map Hexadecimal.digit) =
      some n := by
    simp [Hexadecimal.read?, value?_digit]
    omega
  simp only [escapeUnit, List.map_cons, List.map_nil] at hread ⊢
  simp [units?, hread, hrest]

theorem units?_short {d : Char} (hu : c ≠ 'u') (hd : shortEscapes.lookup c = some d)
    (hrest : units? rest = some (units, left)) :
    units? ('\\' :: c :: rest) = some (d.toNat :: units, left) := by
  rw [units?, hd, hrest]
  intro _ _ _ _ _ h
  exact absurd h hu

theorem units?_plain (hlow : 0x20 ≤ c.toNat) (hquote : c ≠ '"') (hslash : c ≠ '\\')
    (hrest : units? rest = some (units, left)) :
    units? (c :: rest) = some (c.toNat :: units, left) := by
  rw [units?, if_neg (by omega), hrest]
  · rfl
  · exact hquote
  · intro _ _ _ _ _ h
    exact absurd h hslash
  · intro _ _ h
    exact absurd h hslash

theorem units?_escapeChar (c : Char) (hrest : units? rest = some (units, left)) :
    units? (escapeChar c ++ rest) = some (unitsOf c ++ units, left) := by
  unfold escapeChar
  split
  iterate 7 exact units?_short (by decide) rfl hrest
  next hquote hslash _ _ _ _ _ =>
    have hvalid : c.toNat.isValidChar := c.valid
    unfold Nat.isValidChar at hvalid
    dsimp only
    unfold unitsOf
    split_ifs with hplain hshort hshort
    · exact units?_plain hplain.1 hquote hslash hrest
    · omega
    · exact units?_escapeUnit hshort hrest
    · rw [List.append_assoc]
      exact units?_escapeUnit (by omega) (units?_escapeUnit (by omega) hrest)

theorem units?_flatMap_escapeChar (t : Text) (rest : Text) :
    units? (t.flatMap escapeChar ++ '"' :: rest) = some (t.flatMap unitsOf, rest) := by
  induction t with
  | nil => rw [List.flatMap_nil, List.nil_append, units?, List.flatMap_nil]
  | cons c t ih =>
    rw [List.flatMap_cons, List.append_assoc, List.flatMap_cons]
    exact units?_escapeChar c ih

end Units

section Joining

variable {c : Char} {units : List Nat} {t : Text}

theorem scalar?_toNat (c : Char) : scalar? c.toNat = some c := by
  have hvalid : c.toNat.isValidChar := c.valid
  rw [scalar?, dif_pos hvalid]
  rfl

/-- The number of a character is not the first half of a pair. -/
theorem joinUnits?_cons (c : Char) (h : joinUnits? units = some t) :
    joinUnits? (c.toNat :: units) = some (c :: t) := by
  have hvalid : c.toNat.isValidChar := c.valid
  unfold Nat.isValidChar at hvalid
  cases units with
  | nil =>
    have ht : t = [] := (Option.some.inj h).symm
    rw [joinUnits?, scalar?_toNat, ht]
    rfl
  | cons low units =>
    rw [joinUnits?, if_neg (by omega), scalar?_toNat, h]
    rfl

theorem joinUnits?_pair (hlong : 0x10000 ≤ c.toNat) (h : joinUnits? units = some t) :
    joinUnits? ((0xD800 + (c.toNat - 0x10000) / 0x400) :: (0xDC00 + (c.toNat - 0x10000) % 0x400) ::
      units) =
      some (c :: t) := by
  have hvalid : c.toNat.isValidChar := c.valid
  unfold Nat.isValidChar at hvalid
  have hnumber : 0x10000 + 0x400 * (0xD800 + (c.toNat - 0x10000) / 0x400 - 0xD800) +
      (0xDC00 + (c.toNat - 0x10000) % 0x400 - 0xDC00) = c.toNat := by omega
  rw [joinUnits?, if_pos (by omega), hnumber, scalar?_toNat, h]
  rfl

theorem joinUnits?_flatMap_unitsOf (t : Text) : joinUnits? (t.flatMap unitsOf) = some t := by
  induction t with
  | nil => rfl
  | cons c t ih =>
    rw [List.flatMap_cons, unitsOf]
    split_ifs with hshort
    · exact joinUnits?_cons c ih
    · exact joinUnits?_pair (Nat.le_of_not_lt hshort) ih

end Joining

theorem text?_flatMap_escapeChar (t rest : Text) :
    text? (t.flatMap escapeChar ++ '"' :: rest) = some (t, rest) := by
  rw [text?, units?_flatMap_escapeChar]
  simp [joinUnits?_flatMap_unitsOf]

end Json

end CloneDetection
