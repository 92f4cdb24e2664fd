import CloneDetection.Proofs.Collector.CopiedPair
import CloneDetection.Proofs.Window.Kept

/-!
# The lines of a group

The files that were read have different paths, so a place of an index stands in one of them, and its
window is one of the texts that the form keeps of this file. The blinded form keeps every line: a
location of a near group covers as many lines as the region has, from the place where it starts.
-/
namespace CloneDetection

namespace Duplication

/-- The lines of the file with this path. -/
def linesAt (files : List ReadFile) (path : Text) : List Text :=
  ((files.find? (·.path == path)).map ReadFile.lines).getD []

/-- The lines of a location as they stand in its file. -/
def blockAt (files : List ReadFile) (l : Location) : List Text :=
  ((linesAt files l.path).drop (l.startLine - 1).toNat).take (l.endLine + 1 - l.startLine).toNat

/-- Where the first line of a location stands in its file. -/
def placeOf (l : Location) : Occurrence :=
  ⟨l.path, (l.startLine - 1).toNat⟩

def blockFrom (files : List ReadFile) (span : Nat) (o : Occurrence) : List Text :=
  ((linesAt files o.path).drop o.offset).take (defaultWindowSize + span)

section Blinded

theorem length_lines_blinded (raw : List Text) :
    (NormalForm.blinded.lines raw).length = raw.length := by
  rw [lines_blinded, List.length_map, List.length_zipIdx]

/-- The blinded form keeps every line, so lines are numbered by position. -/
theorem number_lines_blinded {raw : List Text} {position : Nat} (h : position < raw.length) :
    ((NormalForm.blinded.lines raw)[position]?).map NormalLine.number =
      some (position + 1 : Int) := by
  rw [lines_blinded, List.getElem?_map, List.getElem?_zipIdx, List.getElem?_eq_getElem h]
  simp [Int.add_comm]

end Blinded

section Lines

variable {files : List ReadFile} {form : NormalForm} {r : Region}
    (hnodup : (files.map ReadFile.path).Nodup)
include hnodup

theorem linesAt_eq {file : ReadFile} (hfile : file ∈ files) :
    linesAt files file.path = file.lines := by
  have hsome : (files.find? (·.path == file.path)).isSome :=
    List.find?_isSome.2 ⟨file, hfile, by simp⟩
  obtain ⟨found, hfound⟩ := Option.isSome_iff_exists.1 hsome
  have hpath : found.path = file.path := by simpa using List.find?_some hfound
  rw [linesAt, hfound,
    List.inj_on_of_nodup_map hnodup (List.mem_of_find?_eq_some hfound) hfile hpath]
  rfl

theorem filled_indexOf_lines (form : NormalForm) :
    Index.Filled (Index.WindowsOf (fun path => form.lines (linesAt files path)) defaultWindowSize)
      defaultWindowSize
      (indexOf form files) := by
  have hpart (part : List ReadFile) (hsub : part ⊆ files) :
      Index.Filled (Index.WindowsOf (fun path => form.lines (linesAt files path)) defaultWindowSize)
        defaultWindowSize
        (indexOf form part) := by
    induction part using List.reverseRecOn with
    | nil => exact .empty _
    | append_singleton part file ih =>
      rw [List.append_subset] at hsub
      rw [indexOf_append]
      apply (ih hsub.1).offer
      have hlines := linesAt_eq hnodup (hsub.2 List.mem_cons_self)
      refine ⟨form.increasing_lines _, ?_⟩
      dsimp only
      rw [hlines]
      rfl
  exact hpart files (List.Subset.refl _)

theorem path_mem_of_has {o : Occurrence} (h : (indexOf form files).Has o) :
    ∃ file ∈ files, file.path = o.path ∧ linesAt files o.path = file.lines := by
  obtain ⟨file, hfile, hpath⟩ := List.mem_map.1 (mem_paths_of_contains (Index.contains_of_has h))
  exact ⟨file, hfile, hpath, hpath ▸ linesAt_eq hnodup hfile⟩

theorem digestOf?_indexOf_texts {file : ReadFile} (hfile : file ∈ files)
    (form : NormalForm) (position : Nat) : (indexOf form files).digestOf? ⟨file.path, position⟩ =
      if position + defaultWindowSize ≤ (form.texts file.lines).length then
        some (digest (((form.texts file.lines).drop position).take defaultWindowSize))
      else none := by
  rw [digestOf?_indexOf hnodup hfile, windowsOf, NormalForm.digest_ofLines (by decide)]

theorem digest_eq_of_replicate {file : ReadFile} (hfile : file ∈ files) {text : Text} {n : Nat}
    (htexts : form.texts file.lines = List.replicate n text) {position d : Nat}
    (h : (indexOf form files).digestOf? ⟨file.path, position⟩ = some d) :
    d = digest (List.replicate defaultWindowSize text) := by
  rw [digestOf?_indexOf_texts hnodup hfile, htexts, List.length_replicate,
    Option.ite_none_right_eq_some] at h
  obtain ⟨hfits, hdigest⟩ := h
  rw [List.drop_replicate, List.take_replicate, Nat.min_eq_left (by omega)] at hdigest
  exact (Option.some.inj hdigest).symm

theorem not_mem_groups_indexOf (htexts : ∀ file ∈ files, form.texts file.lines = []) {near : Bool}
    {g : CloneGroup} :
    g ∉ (indexOf form files).groups near := by
  intro hg
  obtain ⟨r, hr, rfl⟩ := Index.mem_groups.1 hg
  have hclone := (filled_indexOf form files).coherent.mem_regions.1 hr
  obtain ⟨o, ho⟩ := List.exists_mem_of_ne_nil _ hclone.maximal.ne_nil
  obtain ⟨w, hw⟩ := hclone.maximal.has_start ho
  obtain ⟨file, hfile, hpath, -⟩ := path_mem_of_has hnodup ⟨w, hw⟩
  have hdigest := digestOf?_indexOf_texts hnodup hfile form o.offset
  rw [htexts file hfile, if_neg (by simp [defaultWindowSize]), Index.digestOf?, hpath,
    hw] at hdigest
  cases hdigest

/-- Where a location of a near group starts and ends, by the lines of its file. -/
theorem lines_of_mem_start (hr : (indexOf .blinded files).IsMaximal r) {o : Occurrence}
    (ho : o ∈ r.start) :
    o.offset + (defaultWindowSize + r.span) ≤ (linesAt files o.path).length ∧
      ((indexOf .blinded files).locationOf r.span o).startLine = o.offset + 1 ∧
      ((indexOf .blinded files).locationOf r.span o).endLine =
        o.offset + (defaultWindowSize + r.span : Nat) := by
  have hfilled := filled_indexOf_lines hnodup .blinded
  have hsize : 0 < defaultWindowSize := by decide
  have hfits := hr.block_fits hfilled ho
  rw [Int.toNat_natCast, length_lines_blinded] at hfits
  have hstart := hr.startsAt hfilled ho
  rw [Location.StartsAt, number_lines_blinded (by omega), Option.some.injEq] at hstart
  have hend := hr.endsAt hfilled ho
  rw [Location.EndsAt, Int.toNat_natCast, number_lines_blinded (by omega),
    Option.some.injEq] at hend
  refine ⟨hfits, ?_, ?_⟩
  · omega
  · omega

theorem placeOf_locationOf (hr : (indexOf .blinded files).IsMaximal r) {o : Occurrence}
    (ho : o ∈ r.start) :
    placeOf ((indexOf .blinded files).locationOf r.span o) = o := by
  obtain ⟨-, hstart, -⟩ := lines_of_mem_start hnodup hr ho
  have hfirst : (((indexOf .blinded files).locationOf r.span o).startLine - 1).toNat =
      o.offset := by omega
  exact congrArg (Place.mk o.path) hfirst

/-- The lines of a location of a near group, from the place in its file where the region starts. -/
theorem block_of_mem_start (hr : (indexOf .blinded files).IsMaximal r) {o : Occurrence}
    (ho : o ∈ r.start) :
    o.offset + (defaultWindowSize + r.span) ≤ (linesAt files o.path).length ∧
      blockAt files ((indexOf .blinded files).locationOf r.span o) = blockFrom files r.span o := by
  obtain ⟨hfits, hstart, hend⟩ := lines_of_mem_start hnodup hr ho
  have hfirst : (((indexOf .blinded files).locationOf r.span o).startLine - 1).toNat = o.offset :=
    congrArg Place.offset (placeOf_locationOf hnodup hr ho)
  have hcount : (((indexOf .blinded files).locationOf r.span o).endLine + 1 -
      ((indexOf .blinded files).locationOf r.span o).startLine).toNat =
        defaultWindowSize + r.span := by omega
  refine ⟨hfits, ?_⟩
  rw [blockAt, hfirst, hcount]
  rfl

theorem blockAt_eq_replicate (hr : (indexOf .blinded files).IsMaximal r) {line : Text}
    (hlines : ∀ o ∈ r.start, ∃ n, linesAt files o.path = List.replicate n line) {l : Location}
    (hl : l ∈ ((indexOf .blinded files).groupOf true r).locations) :
    blockAt files l = List.replicate (defaultWindowSize + r.span) line := by
  obtain ⟨o, ho, rfl⟩ := List.mem_map.1 hl
  obtain ⟨hfits, hblock⟩ := block_of_mem_start hnodup hr ho
  obtain ⟨n, hn⟩ := hlines o ho
  rw [hn, List.length_replicate] at hfits
  rw [hblock, blockFrom, hn, List.drop_replicate, List.take_replicate, Nat.min_eq_left (by omega)]

end Lines

end Duplication

end CloneDetection
