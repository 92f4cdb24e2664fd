import CloneDetection.Clone.Group
import CloneDetection.Clone.Index

/-!
# Regions

The occurrences of one digest grow into a region: as far to the left and to the right as the windows
at the same distance from all of them exist and share one digest.
-/
namespace CloneDetection

/-- How many of `p 0`, `p 1`, … hold before the first that does not, at most `limit`. -/
def reach (p : Nat → Bool) : Nat → Nat
  | 0 => 0
  | limit + 1 => if p 0 then reach (fun k => p (k + 1)) limit + 1 else 0

theorem of_lt_reach {p : Nat → Bool} {limit k : Nat} (h : k < reach p limit) : p k = true := by
  induction limit generalizing p k with
  | zero => exact absurd h (Nat.not_lt_zero k)
  | succ n ih =>
    unfold reach at h
    split at h
    · cases k with
      | zero => assumption
      | succ k => exact ih (p := fun k => p (k + 1)) (Nat.lt_of_succ_lt_succ h)
    · exact absurd h (Nat.not_lt_zero k)

theorem reach_eq_limit_or (p : Nat → Bool) (limit : Nat) :
    reach p limit = limit ∨ p (reach p limit) = false := by
  induction limit generalizing p with
  | zero => exact .inl rfl
  | succ n ih =>
    unfold reach
    split
    · exact (ih fun k => p (k + 1)).imp (congrArg Nat.succ) id
    · next h => exact .inr (by simpa using h)

structure Region where
  /-- The first window of the region at every occurrence. -/
  start : List Occurrence
  /-- How many windows follow the first one. -/
  span : Nat
  deriving DecidableEq, Repr

/-- The occurrences of the windows of a region, one list for each step from its start. -/
def Region.steps (r : Region) : List (List Occurrence) :=
  (List.range (r.span + 1)).map fun k => r.start.map fun o => { o with offset := o.offset + k }

namespace Index

/-- The digest of the window `shift` positions to the right of an occurrence. -/
def digestAt? (index : Index) (shift : Int) (o : Occurrence) : Option Nat :=
  match (o.offset + shift : Int) with
  | .ofNat n => (index.windowAt? ⟨o.path, n⟩).map (·.digest)
  | .negSucc _ => none

/-- Whether the windows `shift` positions to the right of all occurrences exist and share a
digest. -/
def agree (index : Index) (shift : Int) : List Occurrence → Bool
  | [] => true
  | o :: rest =>
    match index.digestAt? shift o with
    | some d => rest.all fun o => index.digestAt? shift o == some d
    | none => false

/-- The first occurrence bounds both searches: past the ends of its file nothing agrees. -/
def region (index : Index) (occurrences : List Occurrence) : Region :=
  let position := (occurrences.head?.map (·.offset)).getD 0
  let length := ((occurrences.head?.bind fun o => index.files.get? o.path).map (·.size)).getD 0
  let left := reach (fun k => index.agree (-(k + 1 : Nat)) occurrences) position
  let right := reach (fun k => index.agree (k + 1 : Nat) occurrences) length
  ⟨occurrences.map fun o => { o with offset := o.offset - left }, left + right⟩

/-- The location of a block whose windows start at `o` and end `span` windows later. -/
def location? (index : Index) (span : Nat) (o : Occurrence) : Option Location := do
  let first ← index.windowAt? o
  let last ← index.windowAt? { o with offset := o.offset + span }
  return ⟨o.path, first.startLine, last.endLine⟩

def group? (index : Index) (near : Bool) (r : Region) : Option CloneGroup := do
  let locations ← r.start.mapM (index.location? r.span)
  return ⟨index.windowSize + r.span, locations, near⟩

end Index

end CloneDetection
