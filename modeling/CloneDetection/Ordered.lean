import Std.Data.TreeMap

/-!
# Tables in order of first insertion

A table remembers the order in which its keys came in; giving a key another value leaves it in its
place. `toList` is the view: `get?_eq_some_iff` ties look-up to it, and `toList_upsert_of_not_mem`
says what a new key does to it.
-/
namespace CloneDetection

open Std

theorem filterMap_eq_of_forall_mem {α β : Type} {f g : α → Option β} {l : List α}
    (h : ∀ a ∈ l, f a = g a) : l.filterMap f = l.filterMap g := by
  induction l with
  | nil => rfl
  | cons a l ih => simp [h a, List.filterMap_cons, ih fun b hb => h b (List.mem_cons_of_mem a hb)]

structure Ordered (κ ν : Type) [Ord κ] where
  /-- The keys, last inserted first. -/
  newest : List κ
  table : TreeMap κ ν
  nodup : newest.Nodup
  mem_newest : ∀ k, k ∈ newest ↔ k ∈ table

namespace Ordered

variable {κ ν : Type} [Ord κ]

def empty : Ordered κ ν where
  newest := []
  table := ∅
  nodup := .nil
  mem_newest := by simp

def get? (m : Ordered κ ν) (k : κ) : Option ν :=
  m.table[k]?

def contains (m : Ordered κ ν) (k : κ) : Bool :=
  m.table.contains k

def size (m : Ordered κ ν) : Nat :=
  m.newest.length

def keys (m : Ordered κ ν) : List κ :=
  m.newest.reverse

def toList (m : Ordered κ ν) : List (κ × ν) :=
  m.keys.filterMap fun k => (m.get? k).map (k, ·)

variable [TransOrd κ] [LawfulEqOrd κ]

/-- Gives `k` the value that `f` makes of its present one; a new key goes to the end. -/
def upsert (m : Ordered κ ν) (k : κ) (f : Option ν → ν) : Ordered κ ν where
  newest := if m.contains k then m.newest else k :: m.newest
  table := m.table.insert k (f (m.get? k))
  nodup := by
    split
    · exact m.nodup
    · next h =>
        exact List.nodup_cons.2 ⟨fun hk => h (TreeMap.mem_iff_contains.1 ((m.mem_newest k).1 hk)),
          m.nodup⟩
  mem_newest a := by
    rw [TreeMap.mem_insert, Std.compare_eq_iff_eq]
    split
    · next h =>
      rw [m.mem_newest]
      exact ⟨.inr, fun ha => ha.elim (fun e => e ▸ TreeMap.mem_iff_contains.2 h) id⟩
    · rw [List.mem_cons, m.mem_newest, eq_comm]

def insert (m : Ordered κ ν) (k : κ) (v : ν) : Ordered κ ν :=
  m.upsert k fun _ => v

omit [LawfulEqOrd κ] in
@[simp] theorem get?_empty (k : κ) : (empty : Ordered κ ν).get? k = none := by
  simp [get?, empty]

omit [TransOrd κ] [LawfulEqOrd κ] in
@[simp] theorem toList_empty : (empty : Ordered κ ν).toList = [] := rfl

omit [LawfulEqOrd κ] in
theorem contains_eq_isSome (m : Ordered κ ν) (k : κ) : m.contains k = (m.get? k).isSome := by
  exact TreeMap.contains_eq_isSome_getElem?

omit [TransOrd κ] [LawfulEqOrd κ] in
theorem mem_keys_iff {m : Ordered κ ν} {k : κ} : k ∈ m.keys ↔ m.contains k = true := by
  rw [keys, List.mem_reverse, m.mem_newest, TreeMap.mem_iff_contains]
  rfl

omit [TransOrd κ] [LawfulEqOrd κ] in
theorem nodup_keys (m : Ordered κ ν) : m.keys.Nodup :=
  List.pairwise_reverse.2 (m.nodup.imp Ne.symm)

theorem get?_upsert (m : Ordered κ ν) (k a : κ) (f : Option ν → ν) [DecidableEq κ] :
    (m.upsert k f).get? a = if k = a then some (f (m.get? k)) else m.get? a := by
  unfold get? upsert
  rw [TreeMap.getElem?_insert]
  simp only [Std.compare_eq_iff_eq]
  rfl

theorem keys_upsert (m : Ordered κ ν) (k : κ) (f : Option ν → ν) :
    (m.upsert k f).keys = if m.contains k then m.keys else m.keys ++ [k] := by
  unfold keys upsert
  dsimp only
  split <;> simp

omit [LawfulEqOrd κ] in
theorem get?_eq_some_iff {m : Ordered κ ν} {k : κ} {v : ν} :
    m.get? k = some v ↔ (k, v) ∈ m.toList := by
  simp only [toList, List.mem_filterMap, Option.map_eq_some_iff, Prod.mk.injEq]
  constructor
  · intro h
    exact ⟨k, mem_keys_iff.2 (by simp [contains_eq_isSome, h]), v, h, rfl, rfl⟩
  · rintro ⟨a, _, b, hb, rfl, rfl⟩
    exact hb

omit [LawfulEqOrd κ] in
theorem map_fst_toList (m : Ordered κ ν) : m.toList.map Prod.fst = m.keys := by
  have h : ∀ l : List κ, (∀ k ∈ l, m.contains k = true) →
      (l.filterMap fun k => (m.get? k).map (k, ·)).map Prod.fst = l := by
    intro l hl
    induction l with
    | nil => rfl
    | cons k l ih =>
      have hk := hl k List.mem_cons_self
      rw [contains_eq_isSome, Option.isSome_iff_exists] at hk
      obtain ⟨v, hv⟩ := hk
      simp [hv, ih fun a ha => hl a (List.mem_cons_of_mem k ha)]
  exact h _ fun k hk => mem_keys_iff.1 hk

theorem toList_upsert_of_not_mem {m : Ordered κ ν} {k : κ} (h : m.contains k = false)
    (f : Option ν → ν) [DecidableEq κ] : (m.upsert k f).toList = m.toList ++ [(k, f none)] := by
  have hk : m.get? k = none := by
    rw [contains_eq_isSome] at h
    simpa using h
  unfold toList
  rw [keys_upsert, h, if_neg (by simp), List.filterMap_append]
  congr 1
  · apply filterMap_eq_of_forall_mem
    intro a ha
    have hne : k ≠ a := by
      rintro rfl
      rw [mem_keys_iff, h] at ha
      exact absurd ha (by simp)
    rw [get?_upsert, if_neg hne]
  · simp [get?_upsert, hk]

end Ordered

end CloneDetection
