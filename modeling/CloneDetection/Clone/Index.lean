import CloneDetection.Clone.Place
import CloneDetection.Ordered
import CloneDetection.Window.Basic

/-!
# The window index

An index holds the windows of its files, in order of position, and for every digest the occurrences
of that digest. Files and digests are kept in the order in which they came in. A path is indexed at
most once; a file without windows leaves no trace.
-/
namespace CloneDetection

/-- The path of a file and the position of a window in it. -/
abbrev Occurrence := Place Nat

structure Index where
  /-- How many lines a window counts for. -/
  windowSize : Int
  files : Ordered Text (Array Window)
  buckets : Ordered Nat (List Occurrence)

namespace Index

def empty (windowSize : Int) : Index :=
  ⟨windowSize, .empty, .empty⟩

def fileCount (index : Index) : Nat :=
  index.files.size

def addOccurrence (buckets : Ordered Nat (List Occurrence)) (digest : Nat) (o : Occurrence) :
    Ordered Nat (List Occurrence) :=
  buckets.upsert digest fun present? => o :: present?.getD []

/-- The index with the windows of one more file; `none` if the path is already indexed. -/
def add? (index : Index) (path : Text) (windows : List Window) : Option Index :=
  if index.files.contains path then none
  else if windows.isEmpty then some index
  else some {
    index with
    files := index.files.insert path windows.toArray
    buckets :=
      windows.zipIdx.foldl (fun b (w, i) => addOccurrence b w.digest ⟨path, i⟩) index.buckets }

/-- Adds files in order up to the first path that is already indexed, which is returned too. -/
def addAll (index : Index) : List (Text × Array Window) → Index × Option Text
  | [] => (index, none)
  | (path, windows) :: rest =>
    match index.add? path windows.toList with
    | some index => index.addAll rest
    | none => (index, some path)

def merge (index other : Index) : Index × Option Text :=
  index.addAll other.files.toList

def duplicateMessage (path : Text) : Text :=
  "file already indexed: ".toList ++ path

def windowAt? (index : Index) (o : Occurrence) : Option Window :=
  (index.files.get? o.path).bind (·[o.offset]?)

theorem windowAt?_empty (size : Int) (o : Occurrence) : (empty size).windowAt? o = none := by
  simp [windowAt?, empty]

end Index

end CloneDetection
