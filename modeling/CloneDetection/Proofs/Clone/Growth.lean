import CloneDetection.Proofs.Clone.Agreement

/-!
# Growing a region

A region is maximal if the windows of all its steps share a digest and neither the step before the
first nor the one after the last does. The occurrences of one digest grow into a maximal region, and
no two maximal regions have a step in common: wherever the growth starts inside a region, it ends
there.
-/
namespace CloneDetection

open Place

theorem reach_fails {p : Nat → Bool} {limit : Nat} (h : ∀ k, p k = true → k < limit) :
    p (reach p limit) = false := by
  rcases reach_eq_limit_or p limit with hlimit | hfalse
  · rw [hlimit, Bool.eq_false_iff]
    exact fun hp => absurd (h limit hp) (Nat.lt_irrefl limit)
  · exact hfalse

namespace Index

/-- The windows at all of the places exist and share a digest. -/
def Shares (index : Index) (l : List Occurrence) : Prop :=
  ∃ d, ∀ o ∈ l, index.digestOf? o = some d

structure IsMaximal (index : Index) (r : Region) : Prop where
  ne_nil : r.start ≠ []
  shares : ∀ k ≤ r.span, index.Shares (r.start.map (move k))
  right : ¬ index.Shares (r.start.map (move (r.span + 1)))
  left : ∀ l, l.map (move 1) = r.start → ¬ index.Shares l

theorem mem_steps_iff {r : Region} {l : List Occurrence} :
    l ∈ r.steps ↔ ∃ k ≤ r.span, r.start.map (move k) = l := by
  simp only [Region.steps, List.mem_map, List.mem_range, Nat.lt_succ_iff]
  rfl

/-- If the step `j` of one region is the step `k` of another one, the second starts no later. -/
theorem IsMaximal.le_of_step_eq {index : Index} {r s : Region} (hr : index.IsMaximal r)
    (hs : index.IsMaximal s) {j k : Nat} (hk : k ≤ s.span)
    (h : r.start.map (move j) = s.start.map (move k)) : k ≤ j := by
  by_contra hlt
  obtain ⟨d, rfl⟩ : ∃ d, k = d + 1 + j := ⟨k - j - 1, by omega⟩
  rw [← map_move_map_move, map_move_inj, ← map_move_map_move] at h
  exact hr.left _ h.symm (hs.shares d (by omega))

theorem IsMaximal.eq_of_start_eq {index : Index} {r s : Region} (hr : index.IsMaximal r)
    (hs : index.IsMaximal s) (h : r.start = s.start) : r = s := by
  have hspan : r.span = s.span := by
    rcases Nat.lt_trichotomy r.span s.span with hlt | heq | hgt
    · exact absurd (h ▸ hs.shares (r.span + 1) hlt) hr.right
    · exact heq
    · exact absurd (h ▸ hr.shares (s.span + 1) hgt) hs.right
  cases r
  cases s
  simp_all

theorem IsMaximal.eq_of_mem_steps {index : Index} {r s : Region} (hr : index.IsMaximal r)
    (hs : index.IsMaximal s) {l : List Occurrence} (hlr : l ∈ r.steps) (hls : l ∈ s.steps) :
    r = s := by
  rcases mem_steps_iff.1 hlr with ⟨j, hj, rfl⟩
  rcases mem_steps_iff.1 hls with ⟨k, hk, h⟩
  have hjk : j = k := Nat.le_antisymm (hs.le_of_step_eq hr hj h) (hr.le_of_step_eq hs hk h.symm)
  subst hjk
  exact hr.eq_of_start_eq hs (map_move_inj.1 h.symm)

theorem digestAt?_natCast (index : Index) (k : Nat) (o : Occurrence) :
    index.digestAt? k o = index.digestOf? (o.move k) := by
  unfold digestAt?
  rw [← Int.natCast_add]
  rfl

theorem digestAt?_neg_move (index : Index) (k : Nat) (o : Occurrence) :
    index.digestAt? (-k) (o.move k) = index.digestOf? o := by
  have h : ((o.move k).offset : Int) + -k = (o.offset : Nat) := by
    rw [offset_move]
    omega
  unfold digestAt?
  rw [h]
  rfl

theorem agree_natCast_iff {index : Index} {k : Nat} {l : List Occurrence} :
    index.agree k l = true ↔ index.Shares (l.map (move k)) := by
  rw [agree_iff]
  simp only [Shares, List.forall_mem_map, digestAt?_natCast]

theorem agree_neg_iff {index : Index} {k : Nat} {l : List Occurrence} :
    index.agree (-k) (l.map (move k)) = true ↔ index.Shares l := by
  rw [agree_iff]
  simp only [Shares, List.forall_mem_map, digestAt?_neg_move]

def leftReach (index : Index) (l : List Occurrence) : Nat :=
  reach (fun k => index.agree (-(k + 1 : Nat)) l) ((l.head?.map (·.offset)).getD 0)

def rightReach (index : Index) (l : List Occurrence) : Nat :=
  reach (fun k => index.agree (k + 1 : Nat) l)
    (((l.head?.bind fun o => index.files.get? o.path).map (·.size)).getD 0)

theorem span_region (index : Index) (l : List Occurrence) :
    (index.region l).span = index.leftReach l + index.rightReach l := rfl

theorem leftReach_le_offset {index : Index} {l : List Occurrence} {o : Occurrence} (ho : o ∈ l) :
    index.leftReach l ≤ o.offset := by
  cases hk : index.leftReach l with
  | zero => exact Nat.zero_le _
  | succ k =>
    have hagree : index.agree (-(k + 1 : Nat)) l = true :=
      of_lt_reach (p := fun k => index.agree (-(k + 1 : Nat)) l) (by rw [← leftReach, hk]; omega)
    obtain ⟨hnonneg, -⟩ := (agree_iff_inside.1 hagree).1 o ho
    omega

theorem offset_add_rightReach_lt {index : Index} {l : List Occurrence} {o : Occurrence} (ho : o ∈ l)
    (hinside : o.offset < (index.arena o.path).length) :
    o.offset + index.rightReach l < (index.arena o.path).length := by
  cases hk : index.rightReach l with
  | zero => exact hinside
  | succ k =>
    have hagree : index.agree (k + 1 : Nat) l = true :=
      of_lt_reach (p := fun k => index.agree (k + 1 : Nat) l) (by rw [← rightReach, hk]; omega)
    obtain ⟨-, hlt⟩ := (agree_iff_inside.1 hagree).1 o ho
    omega

/-- The first occurrence cannot go on before its file starts. -/
theorem agree_leftReach {index : Index} {l : List Occurrence} (hl : l ≠ []) :
    index.agree (-(index.leftReach l + 1 : Nat)) l = false := by
  obtain ⟨o, rest, rfl⟩ := List.exists_cons_of_ne_nil hl
  apply reach_fails (p := fun k => index.agree (-(k + 1 : Nat)) (o :: rest))
  intro k hk
  obtain ⟨hnonneg, -⟩ := (agree_iff_inside.1 hk).1 o List.mem_cons_self
  rw [List.head?_cons, Option.map_some, Option.getD_some]
  omega

/-- The first occurrence cannot go on behind the last window of its file. -/
theorem agree_rightReach {index : Index} {l : List Occurrence} (hl : l ≠ []) :
    index.agree (index.rightReach l + 1 : Nat) l = false := by
  obtain ⟨o, rest, rfl⟩ := List.exists_cons_of_ne_nil hl
  apply reach_fails (p := fun k => index.agree (k + 1 : Nat) (o :: rest))
  intro k hk
  obtain ⟨-, hlt⟩ := (agree_iff_inside.1 hk).1 o List.mem_cons_self
  rw [List.head?_cons, Option.bind_some, ← length_arena]
  omega

theorem start_region_move (index : Index) (l : List Occurrence) :
    (index.region l).start.map (move (index.leftReach l)) = l := by
  change (l.map fun o => { o with offset := o.offset - index.leftReach l }).map (move _) = l
  rw [List.map_map]
  conv_rhs => rw [← List.map_id l]
  apply List.map_congr_left
  intro o ho
  have hle : index.leftReach l ≤ o.offset := leftReach_le_offset ho
  cases o
  simp only [Function.comp_apply, move, id_eq, Place.mk.injEq, true_and]
  simp only at hle
  omega

theorem mem_steps_region (index : Index) (l : List Occurrence) : l ∈ (index.region l).steps := by
  rw [mem_steps_iff]
  exact ⟨index.leftReach l, by rw [span_region]; omega, start_region_move index l⟩

theorem shares_move_right {index : Index} {l : List Occurrence} {k : Nat}
    (hk : k < index.rightReach l) :
    index.Shares (l.map (move (k + 1))) := by
  rw [← agree_natCast_iff]
  exact of_lt_reach (p := fun k => index.agree (k + 1 : Nat) l) hk

theorem not_shares_move_right {index : Index} {l : List Occurrence} (hl : l ≠ []) :
    ¬ index.Shares (l.map (move (index.rightReach l + 1))) := by
  rw [← agree_natCast_iff, agree_rightReach hl]
  exact Bool.false_ne_true

theorem shares_move_left {index : Index} {l : List Occurrence} {k : Nat}
    (hk : k < index.leftReach l) :
    index.Shares ((index.region l).start.map (move k)) := by
  obtain ⟨j, hj⟩ : ∃ j, index.leftReach l = k + (j + 1) := ⟨index.leftReach l - k - 1, by omega⟩
  have hagree : index.agree (-(j + 1 : Nat)) l = true :=
    of_lt_reach (p := fun k => index.agree (-(k + 1 : Nat)) l) (by rw [← leftReach]; omega)
  have hmove := start_region_move index l
  rw [hj, ← map_move_map_move] at hmove
  rwa [← hmove, agree_neg_iff] at hagree

theorem not_shares_before {index : Index} {l before : List Occurrence} (hl : l ≠ [])
    (hb : before.map (move 1) = (index.region l).start) : ¬ index.Shares before := by
  have hmove : before.map (move (index.leftReach l + 1)) = l := by
    rw [Nat.add_comm, ← map_move_map_move, hb, start_region_move]
  rw [← agree_neg_iff (k := index.leftReach l + 1), hmove, agree_leftReach hl]
  exact Bool.false_ne_true

theorem isMaximal_region {index : Index} {l : List Occurrence} (hl : l ≠ []) (hs : index.Shares l) :
    index.IsMaximal (index.region l) where
  ne_nil := by
    intro hnil
    have hmove := start_region_move index l
    rw [hnil] at hmove
    exact hl hmove.symm
  shares k hk := by
    rw [span_region] at hk
    rcases Nat.lt_trichotomy k (index.leftReach l) with hlt | rfl | hgt
    · exact shares_move_left hlt
    · rwa [start_region_move]
    · obtain ⟨j, rfl⟩ : ∃ j, k = index.leftReach l + (j + 1) :=
        ⟨k - index.leftReach l - 1, by omega⟩
      rw [← map_move_map_move, start_region_move]
      exact shares_move_right (by omega)
  right := by
    rw [span_region, Nat.add_assoc, ← map_move_map_move, start_region_move]
    exact not_shares_move_right hl
  left l' hl' := not_shares_before hl hl'

end Index

end CloneDetection
