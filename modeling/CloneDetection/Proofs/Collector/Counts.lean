import CloneDetection.Proofs.Clone.Block
import CloneDetection.Proofs.Collector.Indexing
import Mathlib.Algebra.Order.BigOperators.Group.List
import Mathlib.Algebra.Order.Group.Nat
import Mathlib.Data.Finset.Card

/-!
# How many groups there can be

Every digest of an index is that of a window, and every window starts on a line of its own. So the
groups of a form are no more than the lines of the files, and none stands at more places.
-/
namespace CloneDetection

section Windows

theorem NormalForm.length_lines_le (form : NormalForm) (raw : List Text) :
    (form.lines raw).length ≤ raw.length := by
  have hlength : (raw.zipIdx 1).length = raw.length := List.length_zipIdx
  rw [lines, ← hlength]
  exact List.length_filterMap_le _ _

theorem Duplication.lt_length_of_windowsOf {form : NormalForm} {raw : List Text} {position : Nat}
    {w : Window} (h : (windowsOf form raw)[position]? = some w) : position < raw.length := by
  rw [windowsOf, Window.getElem?_ofLines, Option.bind_eq_some_iff] at h
  obtain ⟨first, hfirst, -⟩ := h
  obtain ⟨hposition, -⟩ := List.getElem?_eq_some_iff.1 hfirst
  exact Nat.lt_of_lt_of_le hposition (form.length_lines_le raw)

end Windows

theorem Index.length_groups_le (index : Index) (near : Bool) :
    (index.groups near).length ≤ index.buckets.size := by
  rw [groups, (CloneGroup.ranked_perm _).length_eq, List.length_map, ← length_bucketList]
  refine (List.dedup_sublist _).length_le.trans ?_
  rw [List.length_map]
  exact List.length_filter_le _ _

namespace Duplication

def digestsOf (form : NormalForm) (files : List ReadFile) : List Nat :=
  files.flatMap fun file => (windowsOf form file.lines).map Window.digest

section Digests

variable {form : NormalForm} {files : List ReadFile}

theorem mem_keys_buckets {index : Index} (h : index.Coherent) {digest : Nat} :
    digest ∈ index.buckets.keys ↔ ∃ o, index.digestOf? o = some digest := by
  simp only [← h.mem_bucket, Index.bucket, Ordered.mem_keys_iff, Ordered.contains_eq_isSome]
  cases hget : index.buckets.get? digest with
  | none => simp
  | some occurrences =>
    have hne : occurrences ≠ [] := by
      rintro rfl
      exact h.bucket_ne_nil digest hget
    simpa using List.exists_mem_of_ne_nil _ hne

/-- There is a window with a digest exactly if it is one of those of the files. -/
theorem exists_digestOf?_indexOf (hnodup : (files.map ReadFile.path).Nodup) {digest : Nat} :
    (∃ o, (indexOf form files).digestOf? o = some digest) ↔ digest ∈ digestsOf form files := by
  constructor
  · rintro ⟨o, ho⟩
    have hcontains : (indexOf form files).files.contains o.path = true :=
      Index.contains_of_has (Index.has_of_digestOf? ho)
    obtain ⟨file, hfile, hpath⟩ := List.mem_map.1 (mem_paths_of_contains hcontains)
    have hplace : o = ⟨file.path, o.offset⟩ := by rw [hpath]
    rw [hplace, digestOf?_indexOf hnodup hfile, ← List.getElem?_map] at ho
    exact List.mem_flatMap.2 ⟨file, hfile, List.mem_of_getElem? ho⟩
  · intro hdigest
    obtain ⟨file, hfile, hwindow⟩ := List.mem_flatMap.1 hdigest
    obtain ⟨position, hposition⟩ := List.mem_iff_getElem?.1 hwindow
    rw [List.getElem?_map, ← digestOf?_indexOf hnodup hfile] at hposition
    exact ⟨_, hposition⟩

theorem size_buckets_indexOf (hnodup : (files.map ReadFile.path).Nodup) :
    (indexOf form files).buckets.size = (digestsOf form files).toFinset.card := by
  have hkeys : (indexOf form files).buckets.keys.toFinset = (digestsOf form files).toFinset := by
    ext digest
    rw [List.mem_toFinset, List.mem_toFinset, mem_keys_buckets (filled_indexOf form files).coherent,
      exists_digestOf?_indexOf hnodup]
  rw [← hkeys, List.toFinset_card_of_nodup (Ordered.nodup_keys _), Ordered.size, Ordered.keys,
    List.length_reverse]

end Digests

def linesOf (files : List ReadFile) : Nat :=
  (files.flatMap ReadFile.lines).length

def placesOf (files : List ReadFile) : List Occurrence :=
  files.flatMap fun file => (List.range file.lines.length).map (Place.mk file.path)

section Locations

variable {form : NormalForm} {files : List ReadFile}

theorem length_placesOf (files : List ReadFile) : (placesOf files).length = linesOf files := by
  simp [placesOf, linesOf, List.length_flatMap]

theorem mem_placesOf_of_has (hnodup : (files.map ReadFile.path).Nodup) {o : Occurrence}
    (h : (indexOf form files).Has o) : o ∈ placesOf files := by
  obtain ⟨file, hfile, hpath⟩ := List.mem_map.1 (mem_paths_of_contains (Index.contains_of_has h))
  have hplace : o = ⟨file.path, o.offset⟩ := by rw [hpath]
  obtain ⟨w, hw⟩ := h
  have hdigest : (indexOf form files).digestOf? o = some w.digest := by
    rw [Index.digestOf?, hw]; rfl
  rw [hplace, digestOf?_indexOf hnodup hfile, Option.map_eq_some_iff] at hdigest
  obtain ⟨v, hv, -⟩ := hdigest
  refine List.mem_flatMap.2 ⟨file, hfile, ?_⟩
  rw [hplace]
  exact List.mem_map_of_mem (List.mem_range.2 (lt_length_of_windowsOf hv))

theorem length_locations_le (hnodup : (files.map ReadFile.path).Nodup) {near : Bool}
    {g : CloneGroup} (hg : g ∈ (indexOf form files).groups near) :
    g.locations.length ≤ linesOf files := by
  obtain ⟨region, hregion, rfl⟩ := Index.mem_groups.1 hg
  have hclone := (filled_indexOf form files).coherent.mem_regions.1 hregion
  have hplaces : region.start ⊆ placesOf files :=
    fun o ho => mem_placesOf_of_has hnodup (hclone.maximal.has_start ho)
  rw [Index.length_locations_groupOf, ← length_placesOf]
  exact (hclone.ascending.nodup.subperm hplaces).length_le

end Locations

section Few

variable {files : List ReadFile}

theorem length_windowsOf_le (form : NormalForm) (raw : List Text) :
    (windowsOf form raw).length ≤ raw.length := by
  cases hlast : (windowsOf form raw).length with
  | zero => exact Nat.zero_le _
  | succ n =>
    have hsome : (windowsOf form raw)[n]? = some (windowsOf form raw)[n] :=
      List.getElem?_eq_getElem (by omega)
    exact lt_length_of_windowsOf hsome

theorem length_digestsOf_le (form : NormalForm) (files : List ReadFile) :
    (digestsOf form files).length ≤ linesOf files := by
  rw [digestsOf, linesOf, List.length_flatMap, List.length_flatMap]
  apply List.sum_le_sum
  intro file _
  rw [List.length_map]
  exact length_windowsOf_le form file.lines

theorem length_groups_indexOf_le (hnodup : (files.map ReadFile.path).Nodup) (form : NormalForm)
    (near : Bool) :
    ((indexOf form files).groups near).length ≤ linesOf files := by
  calc ((indexOf form files).groups near).length
      ≤ (digestsOf form files).toFinset.card :=
        size_buckets_indexOf hnodup ▸ Index.length_groups_le _ near
    _ ≤ (digestsOf form files).length := List.toFinset_card_le _
    _ ≤ linesOf files := length_digestsOf_le form files

end Few

end Duplication

end CloneDetection
