import CloneDetection.Window.Basic

/-!
# Windows over numbered lines

The line numbers of a normal form increase, and where they do, so do the first lines of the windows.
-/
namespace CloneDetection

/-- The line numbers increase strictly. -/
def Increasing (lines : List NormalLine) : Prop :=
  lines.Pairwise fun l m => l.number < m.number

theorem NormalForm.increasing_lines (form : NormalForm) (raw : List Text) :
    Increasing (form.lines raw) := by
  have hnumbers : ((raw.zipIdx 1).map Prod.snd).Pairwise (· < ·) := by
    rw [List.zipIdx_map_snd]
    exact List.pairwise_lt_range' 1
  rw [Increasing, lines, List.pairwise_filterMap]
  apply (List.pairwise_map.1 hnumbers).imp
  intro a b hlt l hl m hm
  rcases Option.map_eq_some_iff.1 hl with ⟨_, _, rfl⟩
  rcases Option.map_eq_some_iff.1 hm with ⟨_, _, rfl⟩
  exact Int.ofNat_lt.2 hlt

namespace Window

theorem exists_of_mem_ofLines {size : Nat} {lines : List NormalLine} {w : Window}
    (h : w ∈ ofLines size lines) : ∃ l ∈ lines, w.startLine = l.number := by
  induction lines with
  | nil => simp [ofLines] at h
  | cons first rest ih =>
    unfold ofLines at h
    split at h
    · rcases List.mem_cons.1 h with rfl | hrest
      · exact ⟨first, List.mem_cons_self, rfl⟩
      · rcases ih hrest with ⟨l, hl, hw⟩
        exact ⟨l, List.mem_cons_of_mem _ hl, hw⟩
    · cases h

theorem pairwise_startLine_ofLines (size : Nat) {lines : List NormalLine} (h : Increasing lines) :
    (ofLines size lines).Pairwise fun w v => w.startLine < v.startLine := by
  induction lines with
  | nil => exact .nil
  | cons first rest ih =>
    rcases List.pairwise_cons.1 h with ⟨hfirst, hrest⟩
    unfold ofLines
    split
    · refine .cons ?_ (ih hrest)
      intro v hv
      rcases exists_of_mem_ofLines hv with ⟨l, hl, hline⟩
      rw [hline]
      exact hfirst l hl
    · exact .nil

/-- The windows of some normal lines whose numbers increase. -/
def OfIncreasing (windows : List Window) : Prop :=
  ∃ size lines, Increasing lines ∧ ofLines? size lines = some windows

theorem OfIncreasing.pairwise_startLine {windows : List Window} (h : OfIncreasing windows) :
    windows.Pairwise fun w v => w.startLine < v.startLine := by
  rcases h with ⟨size, lines, hlines, hsome⟩
  unfold ofLines? at hsome
  split at hsome
  · rw [← Option.some.inj hsome]
    exact pairwise_startLine_ofLines _ hlines
  · cases hsome

end Window

end CloneDetection
