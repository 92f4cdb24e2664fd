/-!
# Text

Text is a list of Unicode characters, compared and ordered by code point. Numbers are written in
decimal without leading zeros.
-/
namespace CloneDetection

abbrev Text := List Char

namespace Text

/-- Whether `part` stands somewhere in the text as a contiguous block. -/
def hasInfix (part : Text) : Text → Bool
  | [] => part.isEmpty
  | c :: cs => part.isPrefixOf (c :: cs) || hasInfix part cs

theorem hasInfix_iff {part t : Text} : hasInfix part t = true ↔ part <:+: t := by
  induction t with
  | nil => simp [hasInfix, List.infix_nil]
  | cons c cs ih => simp [hasInfix, ih, List.infix_cons_iff]

/-- The text before the first `c` and the text after it; `none` if there is no `c`. -/
def cut? (c : Char) : Text → Option (Text × Text)
  | [] => none
  | d :: ds => if d = c then some ([], ds) else (cut? c ds).map fun (before, after) =>
    (d :: before, after)

theorem cut?_eq_some {c : Char} {t before after : Text} (h : cut? c t = some (before, after)) :
    t = before ++ c :: after ∧ c ∉ before := by
  induction t generalizing before with
  | nil => simp [cut?] at h
  | cons d ds ih =>
    by_cases hd : d = c
    · simp only [cut?, hd, if_true, Option.some.injEq, Prod.mk.injEq] at h
      obtain ⟨rfl, rfl⟩ := h
      simp [hd]
    · simp only [cut?, hd, if_false, Option.map_eq_some_iff, Prod.exists] at h
      obtain ⟨b, a, hcut, heq⟩ := h
      simp only [Prod.mk.injEq] at heq
      obtain ⟨rfl, rfl⟩ := heq
      obtain ⟨ht, hb⟩ := ih hcut
      exact ⟨by simp [ht], by simp [Ne.symm hd, hb]⟩

/-- The parts joined with `separator` between neighbours. -/
def join (separator : Text) (parts : List Text) : Text :=
  separator.intercalate parts

def natural (n : Nat) : Text :=
  Nat.toDigits 10 n

/-- A minus sign where needed, then the decimal digits. -/
def integer : Int → Text
  | .ofNat n => natural n
  | .negSucc n => '-' :: natural (n + 1)

/-- `n` in at least `width` digits, with zeros in front. -/
def padded (width n : Nat) : Text :=
  let digits := natural n
  List.replicate (width - digits.length) '0' ++ digits

end Text

end CloneDetection
