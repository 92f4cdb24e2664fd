/-!
# Double-precision numbers

Every finite double is a whole multiple of `2 ^ -1074`, so a finite double is a sign and a number of
such units. Sums, products and quotients are formed exactly and rounded once, to the nearest number
of 53 significant bits, an exact half going to the even one. `roundDiv_near` says that the rounded
quotient is within half a unit.
-/
namespace CloneDetection

/-- The quotient rounded to the nearest integer, a half going to the even neighbour. -/
def roundDiv (num den : Nat) : Nat :=
  let q := num / den
  let twice := 2 * (num % den)
  if twice < den then q else if den < twice then q + 1 else q + q % 2

theorem roundDiv_near {num den : Nat} (h : 0 < den) :
    2 * (roundDiv num den * den) ≤ 2 * num + den ∧
    2 * num ≤ 2 * (roundDiv num den * den) + den := by
  have hq := Nat.div_add_mod num den
  rw [Nat.mul_comm] at hq
  have hr := Nat.mod_lt num h
  have hodd := Nat.mod_two_eq_zero_or_one (num / den)
  unfold roundDiv
  dsimp only
  split
  · omega
  · split
    · rw [Nat.add_mul]
      omega
    · rcases hodd with hodd | hodd <;> rw [hodd, Nat.add_mul] <;> omega

inductive Double where
  | nan
  | infinite (negative : Bool)
  | finite (negative : Bool) (units : Nat)
  deriving DecidableEq, Repr

namespace Double

def one : Nat :=
  Nat.pow 2 1074

/-- How many low bits of a number of units do not fit into 53 significant bits. -/
def spareBits (units : Nat) : Nat :=
  units.log2 - 52

/-- `num / den` units, rounded to 53 significant bits. -/
def roundUnits (num den : Nat) : Nat :=
  let step := Nat.pow 2 (spareBits (num / den))
  roundDiv num (den * step) * step

/-- The double nearest to `num / den` units. -/
def ofUnits (negative : Bool) (num den : Nat) : Double :=
  let units := roundUnits num den
  if units < Nat.pow 2 2098 then .finite negative units else .infinite negative

def finite? : Double → Option Double
  | .finite negative units => some (.finite negative units)
  | _ => none

/-- The double nearest to an integer, `none` where that is past the largest one. -/
def ofInt? (n : Int) : Option Double :=
  (ofUnits (n < 0) (n.natAbs * one) 1).finite?

def ofDecimal (negative : Bool) (digits : Nat) (exponent : Int) : Double :=
  if digits = 0 then .finite negative 0
  else if 400 < exponent then .infinite negative
  else if exponent + (Nat.log2 digits / 3 : Nat) < -400 then .finite negative 0
  else if 0 ≤ exponent then ofUnits negative (digits * Nat.pow 10 exponent.toNat * one) 1
  else ofUnits negative (digits * one) (Nat.pow 10 exponent.natAbs)

def zero : Double := .finite false 0

def neg : Double → Double
  | .nan => .nan
  | .infinite s => .infinite !s
  | .finite s n => .finite (!s) n

def add : Double → Double → Double
  | .nan, _ | _, .nan => .nan
  | .infinite s, .infinite t => if s = t then .infinite s else .nan
  | .infinite s, _ | _, .infinite s => .infinite s
  | .finite true m, .finite true n => ofUnits true (m + n) 1
  | .finite false m, .finite false n => ofUnits false (m + n) 1
  | .finite true m, .finite false n | .finite false n, .finite true m =>
    if n < m then ofUnits true (m - n) 1 else ofUnits false (n - m) 1

def sub (x y : Double) : Double :=
  x.add y.neg

def mul : Double → Double → Double
  | .nan, _ | _, .nan => .nan
  | .infinite s, .infinite t => .infinite (s != t)
  | .infinite s, .finite t n | .finite t n, .infinite s => if n =
      0 then .nan else .infinite (s != t)
  | .finite s m, .finite t n => ofUnits (s != t) (m * n) one

def div : Double → Double → Double
  | .nan, _ | _, .nan => .nan
  | .infinite _, .infinite _ => .nan
  | .infinite s, .finite t _ => .infinite (s != t)
  | .finite s _, .infinite t => .finite (s != t) 0
  | .finite s m, .finite t n =>
    if n = 0 then (if m = 0 then .nan else .infinite (s != t)) else ofUnits (s != t) (m * one) n

instance : Neg Double := ⟨neg⟩
instance : Add Double := ⟨add⟩
instance : Sub Double := ⟨sub⟩
instance : Mul Double := ⟨mul⟩
instance : Div Double := ⟨div⟩

/-- The order of the numbers; `none` if one of them is not a number. Both zeros are equal. -/
def compare? : Double → Double → Option Ordering
  | .nan, _ | _, .nan => none
  | .infinite s, .infinite t => some (compare t.toNat s.toNat)
  | .infinite s, .finite _ _ => some (if s then .lt else .gt)
  | .finite _ _, .infinite t => some (if t then .gt else .lt)
  | .finite true m, .finite true n => some (compare n m)
  | .finite false m, .finite false n => some (compare m n)
  | .finite true m, .finite false n => some (if m = 0 ∧ n = 0 then .eq else .lt)
  | .finite false m, .finite true n => some (if m = 0 ∧ n = 0 then .eq else .gt)

instance : LT Double := ⟨fun x y => x.compare? y = some .lt⟩
instance : LE Double := ⟨fun x y => x.compare? y = some .lt ∨ x.compare? y = some .eq⟩

instance (x y : Double) : Decidable (x < y) :=
  inferInstanceAs (Decidable (x.compare? y = some .lt))

instance (x y : Double) : Decidable (x ≤ y) :=
  inferInstanceAs (Decidable (x.compare? y = some .lt ∨ x.compare? y = some .eq))

theorem not_lt_nan (x : Double) : ¬ x < .nan := by
  cases x <;> exact nofun

end Double

end CloneDetection
