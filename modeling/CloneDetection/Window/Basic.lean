import CloneDetection.Line.Normal
import CloneDetection.Window.Digest

/-!
# Windows

A window is a run of consecutive normal lines of one file, known by its digest and by the numbers of
its first and last line. The windows of a file stand in order of position: `getElem?_ofLines` says
that the one at `i` covers the normal lines from `i` on.
-/
namespace CloneDetection

def defaultWindowSize : Nat := 6

structure Window where
  digest : Nat
  startLine : Int
  endLine : Int
  deriving DecidableEq, Repr

namespace Window

/-- All windows of `size` lines, which are at least one. -/
def ofLines (size : Nat) : List NormalLine → List Window
  | [] => []
  | first :: rest =>
    match (first :: rest)[size - 1]? with
    | some last =>
      ⟨CloneDetection.digest (((first :: rest).take size).map (·.text)), first.number,
        last.number⟩ ::
        ofLines size rest
    | none => []

/-- The windows of `size` lines; `none` if that is not a positive number. -/
def ofLines? (size : Int) (lines : List NormalLine) : Option (List Window) :=
  if 0 < size then some (ofLines size.toNat lines) else none

theorem getElem?_ofLines (size : Nat) (lines : List NormalLine) (i : Nat) :
    (ofLines size lines)[i]? =
      (lines[i]?).bind fun first => (lines[i + (size - 1)]?).map fun last =>
        ⟨CloneDetection.digest (((lines.drop i).take size).map (·.text)), first.number,
          last.number⟩ := by
  induction lines generalizing i with
  | nil => simp [ofLines]
  | cons first rest ih =>
    unfold ofLines
    split
    · next last hlast =>
      cases i with
      | zero => simp [hlast]
      | succ i =>
        have hshift : i + 1 + (size - 1) = i + (size - 1) + 1 := by omega
        simp [ih, hshift]
    · next hlast =>
      have hlen : (first :: rest).length ≤ size - 1 := List.getElem?_eq_none_iff.1 hlast
      have hnone : (first :: rest)[i + (size - 1)]? = none := List.getElem?_eq_none_iff.2 (by omega)
      simp [hnone]

end Window

end CloneDetection
