import CloneDetection.Clone.Place

/-!
# Clone groups

A group is a block of lines that stands at several locations. Longer groups come first; groups of
one length are ordered by where they start.
-/
namespace CloneDetection

structure Location where
  path : Text
  startLine : Int
  endLine : Int
  deriving DecidableEq, Repr

def Location.start (l : Location) : Place Int :=
  ⟨l.path, l.startLine⟩

structure CloneGroup where
  lineCount : Int
  locations : List Location
  /-- Whether the blocks agree only after blinding. -/
  near : Bool
  deriving DecidableEq, Repr

namespace CloneGroup

def starts (g : CloneGroup) : List (Place Int) :=
  g.locations.map Location.start

/-- The paths that the group touches, each once, in ascending order. -/
def paths (g : CloneGroup) : List Text :=
  sorted (g.locations.map Location.path).eraseDups

def duplicatedLines (g : CloneGroup) : Int :=
  g.lineCount * g.locations.length

/-- Whether two groups have the same length and start at the same places, in whatever order. -/
def sameRegion (g h : CloneGroup) : Bool :=
  g.lineCount == h.lineCount && g.starts.all (h.starts.contains ·) &&
  h.starts.all (g.starts.contains ·)

def order (g h : CloneGroup) : Ordering :=
  (compare h.lineCount g.lineCount).then (compare g.starts h.starts)

/-- The near groups whose set of paths no exact group has. -/
def withoutExact (near exact : List CloneGroup) : List CloneGroup :=
  let sets := exact.map paths
  near.filter fun g => !sets.contains g.paths

end CloneGroup

end CloneDetection
