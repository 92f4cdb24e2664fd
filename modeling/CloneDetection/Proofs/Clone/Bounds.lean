import CloneDetection.Proofs.Clone.Growth

/-!
# Growth ends inside the files

The occurrences of a bucket grow to either side by one window after the other, for as long as the
windows there agree, and no limit is set on the steps. `CountsTo` is this loop. It stops at the
latest where one of the occurrences has come to the first or the last window of its file, and it
stops where the search up to a limit does that regions are found by, so no step of a region is
outside of a file.
-/
namespace CloneDetection

/-- Counting up from `k` as long as `p` holds stops at `n`. The number of steps has no bound. -/
inductive CountsTo (p : Nat → Bool) : Nat → Nat → Prop
  | stop {k : Nat} : p k = false → CountsTo p k k
  | step {k n : Nat} : p k = true → CountsTo p (k + 1) n → CountsTo p k n

section Counting

variable {p : Nat → Bool} {k n : Nat}

theorem CountsTo.unique {m : Nat} (h : CountsTo p k m) (h' : CountsTo p k n) : m = n := by
  induction h with
  | stop hstop =>
    cases h' with
    | stop => rfl
    | step hgo => exact absurd (hstop.symm.trans hgo) Bool.false_ne_true
  | step hgo _ ih =>
    cases h' with
    | stop hstop => exact absurd (hstop.symm.trans hgo) Bool.false_ne_true
    | step _ hrest => exact ih hrest

theorem CountsTo.succ (h : CountsTo (fun k => p (k + 1)) k n) : CountsTo p (k + 1) (n + 1) := by
  induction h with
  | stop hstop => exact .stop hstop
  | step hgo _ ih => exact .step hgo ih

/-- A search that is not cut short by its limit ends where the count stops. -/
theorem countsTo_reach {limit : Nat} (h : p (reach p limit) = false) :
    CountsTo p 0 (reach p limit) := by
  induction limit generalizing p with
  | zero => exact .stop h
  | succ limit ih =>
    unfold reach at h ⊢
    split
    · next hgo =>
      rw [if_pos hgo] at h
      exact .step hgo (ih h).succ
    · next hstop =>
      exact .stop (by simpa using hstop)

end Counting

namespace Index

section Growth

variable {index : Index} {l : List Occurrence} {o : Occurrence}

theorem countsTo_leftReach (hl : l ≠ []) :
    CountsTo (fun k => index.agree (-(k + 1 : Nat)) l) 0 (index.leftReach l) :=
  countsTo_reach (agree_leftReach hl)

theorem countsTo_rightReach (hl : l ≠ []) :
    CountsTo (fun k => index.agree (k + 1 : Nat) l) 0 (index.rightReach l) :=
  countsTo_reach (agree_rightReach hl)

theorem Coherent.offset_lt_of_mem (h : index.Coherent) {b : List Occurrence}
    (hb : b ∈ index.bucketList) (ho : o ∈ b) :
    o.offset < (index.arena o.path).length := by
  obtain ⟨digest, rfl, -⟩ := h.mem_bucketList.1 hb
  rw [h.mem_bucket, digestOf?, windowAt?_eq_getElem?, Option.map_eq_some_iff] at ho
  obtain ⟨w, hw, -⟩ := ho
  exact (List.getElem?_eq_some_iff.1 hw).1

/-- Whatever digests the files have, the growth of the occurrences in a bucket stops by itself on
either side: on the left no later than the occurrence that has the fewest windows before it in its
file allows, on the right no later than the one with the fewest windows after it. Every step of the
region in between is inside of the files, and windows agree only there. -/
theorem region_inside {size : Int} {index : Index} (h : Filled (fun _ _ => True) size index)
    {b : List Occurrence} (hb : b ∈ index.bucketList) :
    ∃ left right : Nat,
      CountsTo (fun k => index.agree (-(k + 1 : Nat)) (sorted b)) 0 left ∧
      CountsTo (fun k => index.agree (k + 1 : Nat) (sorted b)) 0 right ∧
      index.region (sorted b) =
        ⟨(sorted b).map fun o => { o with offset := o.offset - left }, left + right⟩ ∧
      (∀ o ∈ sorted b, left ≤ o.offset ∧
        (right : Int) ≤ (index.arena o.path).length - 1 - o.offset) ∧
      (∀ o ∈ sorted b, ∀ step ≤ left + right, index.Inside o.path (o.offset - left + step)) ∧
      ∀ shift : Int, index.agree shift (sorted b) = true ↔
        (∀ o ∈ sorted b, index.Inside o.path (o.offset + shift)) ∧
          ∃ d, ∀ o ∈ sorted b, ∀ w, (index.arena o.path)[(o.offset + shift).toNat]? = some w →
            w.digest = d := by
  have hne : sorted b ≠ [] := by
    obtain ⟨-, -, hne⟩ := h.coherent.mem_bucketList.1 hb
    rwa [← List.length_pos_iff, length_sorted, List.length_pos_iff]
  have hleft {o : Occurrence} (ho : o ∈ sorted b) : index.leftReach (sorted b) ≤ o.offset :=
    leftReach_le_offset ho
  have hright {o : Occurrence} (ho : o ∈ sorted b) :
      o.offset + index.rightReach (sorted b) < (index.arena o.path).length :=
    offset_add_rightReach_lt ho (h.coherent.offset_lt_of_mem hb (mem_sorted.1 ho))
  refine ⟨index.leftReach (sorted b), index.rightReach (sorted b), countsTo_leftReach hne,
    countsTo_rightReach hne, rfl,
    ?_, ?_, fun shift => agree_iff_inside⟩
  · intro o ho
    have hlt := hright ho
    exact ⟨hleft ho, by omega⟩
  · intro o ho step hstep
    have hle := hleft ho
    have hlt := hright ho
    exact ⟨by omega, by omega⟩

end Growth

/-- Two files; in the first one the blocks that grow out of its two windows of digest 7 overlap. -/
def overlaps : Index :=
  ((Index.empty 6).offer ['p'] [⟨5, 1, 6⟩, ⟨7, 2, 7⟩, ⟨5, 3, 8⟩, ⟨7, 4, 9⟩, ⟨5, 5, 10⟩]).offer ['q']
    [⟨5, 1, 6⟩, ⟨7, 2, 7⟩, ⟨5, 3, 8⟩]

/-- One step to the left and one to the right two of the three occurrences come to the ends of their
files. -/
theorem region_inside_overlaps :
    Filled (fun _ _ => True) 6 overlaps ∧
      [⟨['q'], 1⟩, ⟨['p'], 3⟩, ⟨['p'], 1⟩] ∈ overlaps.bucketList ∧
      CountsTo (fun k => overlaps.agree (-(k + 1 : Nat)) [⟨['p'], 1⟩, ⟨['p'], 3⟩, ⟨['q'], 1⟩]) 0 1 ∧
      CountsTo (fun k => overlaps.agree (k + 1 : Nat) [⟨['p'], 1⟩, ⟨['p'], 3⟩, ⟨['q'], 1⟩]) 0 1 ∧
      overlaps.region [⟨['p'], 1⟩, ⟨['p'], 3⟩, ⟨['q'], 1⟩] =
        ⟨[⟨['p'], 0⟩, ⟨['p'], 2⟩, ⟨['q'], 0⟩], 2⟩ ∧
      ∀ o ∈ ([⟨['p'], 1⟩, ⟨['p'], 3⟩, ⟨['q'], 1⟩] : List Occurrence), ∀ step : Nat, step ≤ 2 →
        overlaps.Inside o.path (o.offset - 1 + step) := by
  have hfilled : Filled (fun _ _ => True) 6 overlaps := .offer (.offer (.empty 6) trivial) trivial
  have hbucket : [⟨['q'], 1⟩, ⟨['p'], 3⟩, ⟨['p'], 1⟩] ∈ overlaps.bucketList := by decide
  have hsorted : sorted [⟨['q'], 1⟩, ⟨['p'], 3⟩, ⟨['p'], 1⟩] =
      ([⟨['p'], 1⟩, ⟨['p'], 3⟩, ⟨['q'], 1⟩] : List Occurrence) := by
    apply (ascending_sorted (by decide)).eq_of_mem_iff
    · simp only [Ascending]
      decide
    · intro o
      simp only [mem_sorted, List.mem_cons, List.not_mem_nil, or_false]
      tauto
  obtain ⟨left, right, hleft, hright, hregion, -, hinside, -⟩ := region_inside hfilled hbucket
  rw [hsorted] at hleft hright hregion hinside
  obtain rfl : left = 1 := hleft.unique (.step (by decide) (.stop (by decide)))
  obtain rfl : right = 1 := hright.unique (.step (by decide) (.stop (by decide)))
  exact ⟨hfilled, hbucket, hleft, hright, hregion, hinside⟩

end Index

end CloneDetection
