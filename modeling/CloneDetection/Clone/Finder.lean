import CloneDetection.Clone.Region
import CloneDetection.Scan.Basic
import Std.Data.TreeSet

/-!
# Finding clone groups

Every digest with at least two occurrences seeds a region. All shifted copies of a region's
occurrences lie in that region again, so occurrences that a region has covered are not grown again.
There is a checkpoint before every digest.
-/
namespace CloneDetection

namespace Index

structure Search where
  covered : Std.TreeSet (List Occurrence)
  /-- The groups, last found first. -/
  groups : List CloneGroup

def visit (index : Index) (near : Bool) (s : Search) (bucket : List Occurrence) : Scan Search := do
  .checkpoint
  let occurrences := sorted bucket
  if occurrences.length < 2 || s.covered.contains occurrences then
    return s
  let region := index.region occurrences
  let group ← Scan.ofOption .noSuchWindow (index.group? near region)
  return ⟨region.steps.foldl (·.insert ·) s.covered, group :: s.groups⟩

/-- The groups of the index, longest first. -/
def findGroups (index : Index) (near : Bool) : Scan (List CloneGroup) := do
  let s ← (index.buckets.toList.map Prod.snd).foldlM (index.visit near) ⟨∅, []⟩
  let groups := s.groups.reverse.eraseDupsBy CloneGroup.sameRegion
  return groups.mergeSort fun g h => (CloneGroup.order g h).isLE

end Index

end CloneDetection
