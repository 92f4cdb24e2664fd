import CloneDetection.Text.Basic

/-!
# Hexadecimal numbers

Digits past nine are written in lower case and read in either. `value?_digit` says that what is
written reads back. `scalar?` is the character of a code point.
-/
namespace CloneDetection

namespace Hexadecimal

def digits : Vector Char 16 :=
  #v['0', '1', '2', '3', '4', '5', '6', '7', '8', '9', 'a', 'b', 'c', 'd', 'e', 'f']

def digit (n : Nat) : Char :=
  digits.get ⟨n % 16, Nat.mod_lt n (by decide)⟩

def value? (c : Char) : Option Nat :=
  digits.toList.idxOf? c.toLower

theorem value?_digit {n : Nat} (h : n < 16) : value? (digit n) = some n := by
  have hall : ∀ k : Fin 16, value? (digit k) = some k.val := by decide
  exact hall ⟨n, h⟩

def read? (t : Text) : Option Nat :=
  t.foldlM (fun n c => (value? c).map (16 * n + ·)) 0

end Hexadecimal

/-- The character of a code point that is no half of a pair. -/
def scalar? (n : Nat) : Option Char :=
  if h : n.isValidChar then some (Char.ofNatAux n h) else none

end CloneDetection
