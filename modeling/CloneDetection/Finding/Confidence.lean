import CloneDetection.Double.Basic

/-!
# Confidence

How sure the tool is that a clone group is worth a look, from 0 to 0.80. It grows with the length of
the block in straight pieces that meet, then stays flat; further locations add a little, and blocks
that agree only after blinding lose a little. All of it is double-precision arithmetic, rounded
after every operation.
-/
namespace CloneDetection

namespace Confidence

def hundredths (n : Nat) : Double :=
  .ofDecimal false n (-2)

/-- A straight piece: from `low` at `first` lines to `high` at `last` lines. -/
structure Tier where
  first : Nat
  last : Nat
  low : Double
  high : Double

def tiers : List Tier :=
  [⟨30, 49, hundredths 60, hundredths 75⟩, ⟨15, 29, hundredths 45, hundredths 60⟩,
   ⟨6, 14, hundredths 35, hundredths 45⟩]

def plateauLines : Int := 50

def plateau : Double := hundredths 75

def small (n : Nat) : Double :=
  .ofUnits false (n * Double.one) 1

def Tier.at (t : Tier) (lines : Int) : Double :=
  t.low + (t.high - t.low) * small (lines - t.first).toNat / small (t.last - t.first)

def ofLines (lines : Int) : Double :=
  if plateauLines ≤ lines then plateau
  else
    match tiers.find? fun t => (t.first : Int) ≤ lines with
    | some t => t.at lines
    | none => hundredths 35

/-- What locations past the second add; `none` if their number is past the largest double. -/
def bonus? (locations : Int) : Option Double :=
  (Double.ofInt? (max (locations - 2) 0)).map fun extra =>
    let b := extra * hundredths 5
    if hundredths 10 < b then hundredths 10 else b

def clamp (x : Double) : Double :=
  let x := if hundredths 80 < x then hundredths 80 else x
  if .zero < x then x else .zero

end Confidence

open Confidence in
/-- The confidence of a group of so many lines at so many locations. -/
def confidence? (lines locations : Int) (near : Bool) : Option Double :=
  (bonus? locations).map fun bonus =>
    let x := ofLines lines + bonus
    clamp (if near then x - hundredths 5 else x)

end CloneDetection
