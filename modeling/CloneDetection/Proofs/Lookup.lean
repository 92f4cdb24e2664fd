import CloneDetection.Entries
import Mathlib.Data.List.Nodup
import Mathlib.Data.List.Perm.Basic

/-!
# Entries with distinct keys

What is found under a key where no key stands twice does not depend on the order of the entries. The
keys stay distinct when an entry gets another value and when one with a new key is added. After an
update the new entries are found first.
-/
namespace CloneDetection

variable {α β : Type} {entries others : List (α × β)} {k : α} {v : β}

section Finding

variable [BEq α] [LawfulBEq α]

theorem lookup_eq_some_iff_mem (hkeys : (entries.map Prod.fst).Nodup) :
    entries.lookup k = some v ↔ (k, v) ∈ entries := by
  induction entries with
  | nil => exact iff_of_false nofun List.not_mem_nil
  | cons e entries ih =>
    obtain ⟨k', v'⟩ := e
    rw [List.map_cons, List.nodup_cons] at hkeys
    rw [List.lookup_cons, List.mem_cons]
    by_cases hk : k = k'
    · subst hk
      have hrest : (k, v) ∉ entries := fun hmem => hkeys.1 (List.mem_map.2 ⟨_, hmem, rfl⟩)
      rw [beq_self_eq_true, or_iff_left hrest]
      simp [eq_comm]
    · rw [beq_false_of_ne hk, or_iff_right (by simp [hk]), ih hkeys.2]

theorem lookup_eq_of_perm (hkeys : (entries.map Prod.fst).Nodup) (h : others.Perm entries) (k : α) :
    others.lookup k = entries.lookup k := by
  have hkeys' : (others.map Prod.fst).Nodup := (h.map Prod.fst).nodup_iff.2 hkeys
  ext v
  rw [lookup_eq_some_iff_mem hkeys', lookup_eq_some_iff_mem hkeys, h.mem_iff]

theorem lookup_eq_none_iff_not_mem : entries.lookup k = none ↔ k ∉ entries.map Prod.fst := by
  rw [List.lookup_eq_none_iff, List.mem_map, not_exists]
  refine forall_congr' fun e => ?_
  rw [bne_iff_ne, not_and]
  exact imp_congr_right fun _ => ne_comm

theorem nodup_keys_append (hkeys : (entries.map Prod.fst).Nodup) (hnew : entries.lookup k = none)
    (v : β) :
    ((entries ++ [(k, v)]).map Prod.fst).Nodup := by
  rw [List.map_append, List.map_singleton, List.nodup_append]
  refine ⟨hkeys, List.nodup_singleton k, ?_⟩
  rintro _ hmem _ hlast rfl
  rw [List.mem_singleton.1 hlast] at hmem
  exact lookup_eq_none_iff_not_mem.1 hnew hmem

end Finding

section Replacing

variable [DecidableEq α]

theorem keys_replace (entries : List (α × β)) (k : α) (v : β) :
    (entries.map fun e => if e.1 = k then (k, v) else e).map Prod.fst = entries.map Prod.fst := by
  rw [List.map_map]
  refine List.map_congr_left fun e _ => ?_
  by_cases he : e.1 = k
  · simp [he]
  · simp [he]

theorem forall_mem_replace {P : α × β → Prop} (h : ∀ e ∈ entries, P e) (hnew : P (k, v)) :
    ∀ e ∈ entries.map fun e => if e.1 = k then (k, v) else e, P e := by
  intro e he
  obtain ⟨e', he', rfl⟩ := List.mem_map.1 he
  by_cases hk : e'.1 = k
  · rw [if_pos hk]
    exact hnew
  · rw [if_neg hk]
    exact h e' he'

end Replacing

section Setting

variable {γ : Type} {settings others : List (Text × β)} {name : Text}

theorem lookup_map (f : Text → β → γ) (settings : List (Text × β)) (k : Text) :
    (settings.map fun e => (e.1, f e.1 e.2)).lookup k = (settings.lookup k).map (f k) := by
  induction settings with
  | nil => rfl
  | cons e settings ih =>
    rw [List.map_cons, List.lookup_cons, List.lookup_cons, ih]
    by_cases hk : k = e.1
    · subst hk
      rw [beq_self_eq_true]
      rfl
    · rw [beq_false_of_ne hk]

theorem lookup_setEntry (settings : List (Text × β)) (name : Text) (v : β) (k : Text) :
    (setEntry settings name v).lookup k = if k = name then some v else settings.lookup k := by
  unfold setEntry
  split
  · next hold =>
    have hshape : (settings.map fun e => if e.1 = name then (name, v) else e) =
        settings.map fun e => (e.1, if e.1 = name then v else e.2) := by
      refine List.map_congr_left fun e _ => ?_
      by_cases he : e.1 = name
      · simp [he]
      · simp [he]
    rw [hshape, lookup_map fun k w => if k = name then v else w]
    by_cases hk : k = name
    · obtain ⟨w, hw⟩ := Option.isSome_iff_exists.1 hold
      simp [hk, hw]
    · simp [hk]
  · next hnew =>
    rw [Bool.not_eq_true, Option.isSome_eq_false_iff, Option.isNone_iff_eq_none] at hnew
    rw [List.lookup_append, List.lookup_cons, List.lookup_nil]
    by_cases hk : k = name
    · subst hk
      rw [hnew, beq_self_eq_true, if_pos rfl]
      rfl
    · rw [beq_false_of_ne hk, if_neg hk, Option.or_none]

theorem nodup_keys_setEntry (hkeys : (settings.map Prod.fst).Nodup) (name : Text) (v : β) :
    ((setEntry settings name v).map Prod.fst).Nodup := by
  unfold setEntry
  split
  · rw [keys_replace]
    exact hkeys
  · next hnew =>
    rw [Bool.not_eq_true, Option.isSome_eq_false_iff, Option.isNone_iff_eq_none] at hnew
    exact nodup_keys_append hkeys hnew v

theorem forall_mem_setEntry {P : Text × β → Prop} {v : β} (h : ∀ e ∈ settings, P e)
    (hnew : P (name, v)) :
    ∀ e ∈ setEntry settings name v, P e := by
  unfold setEntry
  split
  · exact forall_mem_replace h hnew
  · rw [List.forall_mem_append, List.forall_mem_singleton]
    exact ⟨h, hnew⟩

theorem lookup_update (settings : List (Text × β)) (hkeys : (others.map Prod.fst).Nodup)
    (k : Text) :
    (update settings others).lookup k = (others.lookup k).or (settings.lookup k) := by
  unfold update
  induction others generalizing settings with
  | nil => rfl
  | cons e others ih =>
    rw [List.map_cons, List.nodup_cons] at hkeys
    rw [List.foldl_cons, ih _ hkeys.2, lookup_setEntry, List.lookup_cons]
    by_cases hk : k = e.1
    · subst hk
      rw [if_pos rfl, lookup_eq_none_iff_not_mem.2 hkeys.1, beq_self_eq_true]
      rfl
    · rw [if_neg hk, beq_false_of_ne hk]

theorem nodup_keys_update (hkeys : (settings.map Prod.fst).Nodup) (others : List (Text × β)) :
    ((update settings others).map Prod.fst).Nodup := by
  unfold update
  induction others generalizing settings with
  | nil => exact hkeys
  | cons e others ih => exact ih (nodup_keys_setEntry hkeys e.1 e.2)

theorem forall_mem_update {P : Text × β → Prop} (h : ∀ e ∈ settings, P e)
    (hothers : ∀ e ∈ others, P e) :
    ∀ e ∈ update settings others, P e := by
  unfold update
  induction others generalizing settings with
  | nil => exact h
  | cons e others ih =>
    obtain ⟨hfirst, hrest⟩ := List.forall_mem_cons.1 hothers
    exact ih (forall_mem_setEntry h hfirst) hrest

end Setting

end CloneDetection
