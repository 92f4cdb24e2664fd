import CloneDetection.Clone.Group
import CloneDetection.Finding.Confidence
import CloneDetection.Scan.Basic
import CloneDetection.Sorting

/-!
# Findings

A finding reports one clone group at its first location. Findings are ordered by confidence, the
highest first, then by place, kind and title; a report may keep only the first few.
-/
namespace CloneDetection

structure Finding where
  source : Text
  kind : Text
  path : Text
  line : Int
  title : Text
  description : Text
  confidence : Double
  tags : List Text
  deriving DecidableEq, Repr

namespace Finding

def duplication : Text := "duplication".toList

def kindOf (near : Bool) : Text :=
  if near then "near-clone".toList else "code-clone".toList

def titleOf (g : CloneGroup) : Text :=
  let size := Text.integer g.lineCount ++ " lines, ".toList ++ Text.natural g.locations.length ++
      " locations".toList
  if g.near then "Near-duplicate block (".toList ++ size ++ ", renamed identifiers)".toList
  else "Duplicated block (".toList ++ size ++ ")".toList

def locationLine (l : Location) : Text :=
  "  - ".toList ++ l.path ++ ':' :: Text.integer l.startLine ++ ['\n']

def describe (locations : List Location) : Text :=
  "Duplicated code found in:\n".toList ++ locations.flatMap locationLine

def ofGroup (g : CloneGroup) : Except Fault Finding :=
  match g.locations.head?, confidence? g.lineCount g.locations.length g.near with
  | none, _ => .error .noLocation
  | _, none => .error .tooManyLocations
  | some first, some confidence => .ok {
      source := duplication
      kind := kindOf g.near
      path := first.path
      line := first.startLine
      title := titleOf g
      description := describe g.locations
      confidence := confidence
      tags := [kindOf g.near, duplication] }

/-- A confidence that is no number goes before no other and after no other. -/
def order (f g : Finding) : Ordering :=
  match g.confidence.compare? f.confidence with
  | none => .eq
  | some confidence => confidence.then <| (compare f.path g.path).then <|
    (compare f.line g.line).then <| (compare f.kind g.kind).then (compare f.title g.title)

def before (f g : Finding) : Bool :=
  f.order g == .lt

/-- The findings in their order. Among confidences that are numbers the order is total. -/
def sort (findings : List Finding) : List Finding :=
  if findings.any fun f => f.confidence == .nan then Sorting.sort before findings
  else findings.mergeSort fun f g => !g.before f

/-- The first `limit` findings; all of them if the limit is not positive. -/
def cap (limit : Int) (findings : List Finding) : List Finding :=
  if limit ≤ 0 then findings else findings.take limit.toNat

theorem sort_perm (findings : List Finding) : (sort findings).Perm findings := by
  unfold sort
  split
  · exact Sorting.perm_sort before findings
  · exact List.mergeSort_perm _ _

theorem cap_prefix (limit : Int) (findings : List Finding) : cap limit findings <+: findings := by
  unfold cap
  split
  · exact List.prefix_rfl
  · exact List.take_prefix _ _

end Finding

end CloneDetection
