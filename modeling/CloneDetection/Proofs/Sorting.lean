/-!
# Stable sorting

Sorting by a comparison puts a list in its order. It is stable, so elements can be left out of the
list before it is sorted or afterwards.
-/
namespace CloneDetection

open Std

section Comparison

variable {α : Type} (cmp : α → α → Ordering) [TransCmp cmp]

omit [TransCmp cmp] in
theorem isLE_total [OrientedCmp cmp] (a b : α) : ((cmp a b).isLE || (cmp b a).isLE) = true := by
  have hswap : cmp b a = (cmp a b).swap := OrientedCmp.eq_swap
  rw [hswap]
  cases cmp a b <;> rfl

theorem pairwise_mergeSort_isLE (l : List α) :
    (l.mergeSort fun a b => (cmp a b).isLE).Pairwise fun a b => (cmp a b).isLE :=
  List.pairwise_mergeSort (fun _ _ _ => TransCmp.isLE_trans) (isLE_total cmp) l

/-- One more element comes before all that it may come before. -/
theorem exists_mergeSort_cons (a : α) (l : List α) :
    ∃ l₁ l₂, ((a :: l).mergeSort fun a b => (cmp a b).isLE) = l₁ ++ a :: l₂ ∧
      (l.mergeSort fun a b => (cmp a b).isLE) = l₁ ++ l₂ ∧
      (∀ b ∈ l₁, (cmp a b).isLE = false) ∧ ∀ b ∈ l₂, (cmp a b).isLE = true := by
  obtain ⟨l₁, l₂, hcons, hrest, hbefore⟩ :=
    List.mergeSort_cons (fun _ _ _ => TransCmp.isLE_trans) (isLE_total cmp) a l
  have hsorted := pairwise_mergeSort_isLE cmp (a :: l)
  rw [hcons, List.pairwise_append, List.pairwise_cons] at hsorted
  exact ⟨l₁, l₂, hcons, hrest, fun b hb => by simpa using hbefore b hb, hsorted.2.1.1⟩

end Comparison

/-- A test cuts a list in two in one way only. -/
theorem append_inj_of_test {α : Type} {p : α → Bool} {l₁ l₂ m₁ m₂ : List α}
    (h : l₁ ++ l₂ = m₁ ++ m₂) (hl₁ : ∀ b ∈ l₁, p b = false) (hl₂ : ∀ b ∈ l₂, p b = true)
    (hm₁ : ∀ b ∈ m₁, p b = false) (hm₂ : ∀ b ∈ m₂, p b = true) : l₁ = m₁ ∧ l₂ = m₂ := by
  have hsecond := congrArg (List.filter p) h
  rw [List.filter_append, List.filter_append, List.filter_eq_self.2 hl₂, List.filter_eq_self.2 hm₂,
    List.filter_eq_nil_iff.2 (by simpa using hl₁),
    List.filter_eq_nil_iff.2 (by simpa using hm₁)] at hsecond
  exact List.append_inj' h (congrArg List.length hsecond)

theorem filter_mergeSort {α : Type} (cmp : α → α → Ordering) [TransCmp cmp] (p : α → Bool)
    (l : List α) :
    (l.mergeSort fun a b => (cmp a b).isLE).filter p = (l.filter p).mergeSort fun a b =>
      (cmp a b).isLE := by
  induction l with
  | nil => simp
  | cons a l ih =>
    obtain ⟨l₁, l₂, hcons, hrest, hbefore, hafter⟩ := exists_mergeSort_cons cmp a l
    rw [hrest, List.filter_append] at ih
    by_cases hp : p a = true
    · obtain ⟨m₁, m₂, hcons', hrest', hbefore', hafter'⟩ := exists_mergeSort_cons cmp a (l.filter p)
      -- what is left of either half is again all that the new element may not or may come before
      have hcut : l₁.filter p = m₁ ∧ l₂.filter p = m₂ := by
        apply append_inj_of_test (ih.trans hrest') _ _ hbefore' hafter'
        · exact fun b hb => hbefore b (List.mem_filter.1 hb).1
        · exact fun b hb => hafter b (List.mem_filter.1 hb).1
      rw [hcons, List.filter_append, List.filter_cons_of_pos hp, List.filter_cons_of_pos hp, hcons',
        hcut.1, hcut.2]
    · rw [hcons, List.filter_append, List.filter_cons_of_neg hp, List.filter_cons_of_neg hp, ih]

/-- What passes a test stands first if with every element that passes all before it do. -/
theorem filter_prefix_of_pairwise {α : Type} {p : α → Bool} {l : List α}
    (h : l.Pairwise fun a b => p b = true → p a = true) : l.filter p <+: l := by
  induction h with
  | nil => exact List.prefix_rfl
  | @cons a l hfirst _ ih =>
    by_cases hp : p a = true
    · rw [List.filter_cons_of_pos hp, List.cons_prefix_cons]
      exact ⟨rfl, ih⟩
    · have hnone : l.filter p = [] := List.filter_eq_nil_iff.2 fun b hb hpb => hp (hfirst b hb hpb)
      rw [List.filter_cons_of_neg hp, hnone]
      exact List.nil_prefix

end CloneDetection
