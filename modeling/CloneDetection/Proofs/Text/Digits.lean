import CloneDetection.Text.Basic
import Mathlib.Data.List.TakeWhile
import Mathlib.Data.Nat.Init

/-!
# Decimal digits

A number is written in as many digits as it needs: it does not begin with a zero unless it is zero,
and the number of digits bounds it on both sides. Digits can be told from what follows them if that
is no digit.
-/
namespace CloneDetection

namespace Text

section Natural

variable {n : Nat}

theorem isDigit_of_mem_natural {c : Char} (h : c ∈ natural n) : c.isDigit = true :=
  Nat.isDigit_of_mem_toDigits (by decide) (by decide) h

theorem natural_ne_nil (n : Nat) : natural n ≠ [] :=
  Nat.toDigits_ne_nil

theorem lt_pow_length_natural (n : Nat) : n < Nat.pow 10 (natural n).length :=
  (Nat.length_toDigits_le_iff (by decide) Nat.length_toDigits_pos).1 (Nat.le_refl _)

theorem pow_length_natural_le (hn : 0 < n) : Nat.pow 10 ((natural n).length - 1) ≤ n := by
  by_cases hsingle : (natural n).length - 1 = 0
  · rw [hsingle]
    exact hn
  · have hlength : (Nat.toDigits 10 n).length ≤ (natural n).length - 1 ↔
        n < Nat.pow 10 ((natural n).length - 1) :=
      Nat.length_toDigits_le_iff (by decide) (Nat.pos_of_ne_zero hsingle)
    rw [← Nat.not_lt, ← hlength]
    unfold natural at hsingle ⊢
    omega

theorem head?_natural_ne (hn : 0 < n) : (natural n).head? ≠ some '0' := by
  induction n using Nat.strong_induction_on with
  | _ n ih =>
    unfold natural at ih ⊢
    rw [Nat.toDigits_eq_if (by decide)]
    by_cases hsingle : n < 10
    · have hdigits : ∀ k : Fin 10, 0 < k.val → Nat.digitChar k ≠ '0' := by decide
      rw [if_pos hsingle]
      simpa using hdigits ⟨n, hsingle⟩ hn
    · have hhead := List.head?_eq_some_head (Nat.toDigits_ne_nil (b := 10) (n := n / 10))
      have hrest := ih (n / 10) (by omega) (by omega)
      rw [hhead] at hrest
      rwa [if_neg hsingle, List.head?_append, hhead]

end Natural

/-- Decimal digits only. -/
def Digits (t : Text) : Prop :=
  ∀ c ∈ t, c.isDigit = true

section Digits

variable {s t rest : Text}

theorem digits_natural (n : Nat) : Digits (natural n) :=
  fun _ => isDigit_of_mem_natural

theorem digits_replicate (n : Nat) : Digits (List.replicate n '0') := by
  intro c hc
  rw [List.eq_of_mem_replicate hc]
  rfl

theorem Digits.append (hs : Digits s) (ht : Digits t) : Digits (s ++ t) := by
  intro c hc
  exact (List.mem_append.1 hc).elim (hs c) (ht c)

theorem Digits.sublist (ht : Digits t) (h : s.Sublist t) : Digits s :=
  fun c hc => ht c (h.mem hc)

theorem digits_padded (width n : Nat) : Digits (padded width n) :=
  (digits_replicate _).append (digits_natural n)

theorem Digits.takeWhile_append (h : Digits t) (hrest : ∀ c ∈ rest.head?, c.isDigit = false) :
    (t ++ rest).takeWhile Char.isDigit = t := by
  rw [List.takeWhile_append_of_pos h]
  cases rest with
  | nil => simp
  | cons c rest => simp [hrest c rfl]

theorem Digits.dropWhile_append (h : Digits t) (hrest : ∀ c ∈ rest.head?, c.isDigit = false) :
    (t ++ rest).dropWhile Char.isDigit = rest := by
  rw [List.dropWhile_append_of_pos h]
  cases rest with
  | nil => rfl
  | cons c rest => simp [hrest c rfl]

end Digits

end Text

end CloneDetection
