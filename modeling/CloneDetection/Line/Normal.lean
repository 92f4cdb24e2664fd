import CloneDetection.Line.Blinding
import CloneDetection.Line.Category
import CloneDetection.Text.Quoted

/-!
# Normal lines

The exact form of a file keeps its stripped code lines; blank, comment and import lines are left
out. The blinded form keeps every line. Either way a line carries its number in the file, counted
from one.
-/
namespace CloneDetection

inductive NormalForm where
  | exact
  | blinded
  deriving DecidableEq, Repr

structure NormalLine where
  text : Text
  number : Int
  deriving DecidableEq, Repr

namespace NormalForm

def name : NormalForm → Text
  | .exact => "exact".toList
  | .blinded => "blinded".toList

def ofName? (name : Text) : Option NormalForm :=
  [exact, blinded].find? (·.name == name)

def unknownMessage (name : Text) : Text :=
  name.quoted ++ " is not a valid NormalizationPass".toList

/-- The text that takes part in the comparison, if the line does. -/
def text? : NormalForm → Text → Option Text
  | .exact, raw =>
    let t := raw.strip
    if t.isEmpty || (LineCategory.classify? t).isSome then none else some t
  | .blinded, raw => some (blind raw.strip)

def lines (form : NormalForm) (raw : List Text) : List NormalLine :=
  (raw.zipIdx 1).filterMap fun (line, number) => (form.text? line).map (NormalLine.mk · number)

theorem mem_lines {form : NormalForm} {raw : List Text} {line : NormalLine} :
    line ∈ form.lines raw ↔
      ∃ i, ∃ h : i < raw.length, form.text? raw[i] = some line.text ∧ line.number = i + 1 := by
  simp only [lines, List.mem_filterMap, Prod.exists, Option.map_eq_some_iff,
    List.mk_mem_zipIdx_iff_le_and_getElem?_sub]
  constructor
  · rintro ⟨r, n, ⟨hn, hr⟩, t, ht, rfl⟩
    obtain ⟨hi, rfl⟩ := List.getElem?_eq_some_iff.1 hr
    exact ⟨n - 1, hi, ht, by simp only; omega⟩
  · rintro ⟨i, hi, ht, hn⟩
    refine ⟨raw[i], i + 1, ⟨by omega, by simp⟩, line.text, ht, ?_⟩
    cases line
    simp_all

end NormalForm

end CloneDetection
