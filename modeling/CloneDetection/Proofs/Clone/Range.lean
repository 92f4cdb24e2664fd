import CloneDetection.Proofs.Clone.Completeness
import CloneDetection.Proofs.Window.Edits

/-!
# The lines that a location covers

A location names its first and its last line by their numbers in the file. Between them stand as
many lines of the form as the group has, whatever lines the form drops there, as the file has as
many kept lines in front of a kept line as stand before it in the form.
-/
namespace CloneDetection

def Location.linesOf (l : Location) (raw : List Text) : List Text :=
  (raw.drop (l.startLine - 1).toNat).take (l.endLine + 1 - l.startLine).toNat

/-- The location stands in the file, and a form keeps `count` of its lines, the first and the last
one among them. -/
structure Location.Holds (l : Location) (form : NormalForm) (raw : List Text) (count : Nat) :
    Prop where
  one_le_start : 1 ≤ l.startLine
  start_le_end : l.startLine ≤ l.endLine
  end_le_length : l.endLine ≤ raw.length
  length_texts : (form.texts (l.linesOf raw)).length = count
  first_kept : ∃ line, (l.linesOf raw).head? = some line ∧ (form.text? line).isSome
  last_kept : ∃ line, (l.linesOf raw).getLast? = some line ∧ (form.text? line).isSome

section Location

variable {form : NormalForm} {raw : List Text} {l : Location} {first last : Nat}

theorem Location.holds (hstart : l.StartsAt (form.lines raw) first)
    (hend : l.EndsAt (form.lines raw) last) (hle : first ≤ last) :
    l.Holds form raw (last + 1 - first) := by
  obtain ⟨m, hm, hmnumber⟩ := Option.map_eq_some_iff.1 hstart
  obtain ⟨n, hn, hnnumber⟩ := Option.map_eq_some_iff.1 hend
  obtain ⟨i, hi, hikept, hinumber, hicount⟩ := form.exists_of_getElem?_numbered 1 hm
  obtain ⟨j, hj, hjkept, hjnumber, hjcount⟩ := form.exists_of_getElem?_numbered 1 hn
  have hij : i ≤ j := by
    by_contra hlt
    have hcount := form.length_texts_take_succ hj hjkept
    have hmono : (form.texts (raw.take (j + 1))).length ≤ (form.texts (raw.take i)).length :=
      form.length_texts_take_le (by omega)
    omega
  obtain ⟨k, rfl⟩ := Nat.exists_eq_add_of_le hij
  have hblock : l.linesOf raw = (raw.drop i).take (k + 1) := by
    have hfrom : (l.startLine - 1).toNat = i := by omega
    have hcount : (l.endLine + 1 - l.startLine).toNat = k + 1 := by omega
    rw [linesOf, hfrom, hcount]
  refine ⟨by omega, by omega, by omega, ?_, ?_, ?_⟩
  · have hsplit : (form.texts (raw.take (i + k + 1))).length =
        (form.texts (raw.take i)).length + (form.texts ((raw.drop i).take (k + 1))).length := by
      rw [Nat.add_assoc, form.texts_take_add, List.length_append]
    have hsucc := form.length_texts_take_succ hj hjkept
    rw [hblock]
    omega
  · refine ⟨raw[i], ?_, by rw [hikept]; rfl⟩
    rw [hblock, List.drop_eq_getElem_cons hi]
    rfl
  · refine ⟨raw[i + k], ?_, by rw [hjkept]; rfl⟩
    have hk : k < (raw.drop i).length := by
      rw [List.length_drop]
      omega
    rw [hblock, List.take_succ_eq_append_getElem hk, List.getLast?_concat, List.getElem_drop]

theorem Location.Holds.length_linesOf {count : Nat} (h : l.Holds form raw count) :
    ((l.linesOf raw).length : Int) = l.endLine - l.startLine + 1 := by
  have hone := h.one_le_start
  have hle := h.start_le_end
  have hend := h.end_le_length
  simp only [linesOf, List.length_take, List.length_drop]
  omega

theorem length_texts_exact (raw : List Text) :
    (NormalForm.exact.texts raw).length = raw.countP (¬Dropped ·) := by
  rw [NormalForm.texts, List.length_filterMap_eq_countP]
  exact List.countP_congr fun line _ => by simp [NormalForm.isSome_text?_exact]

theorem length_texts_blinded (raw : List Text) :
    (NormalForm.blinded.texts raw).length = raw.length := by
  rw [NormalForm.texts, List.length_filterMap_eq_countP]
  exact List.countP_eq_length.2 fun _ _ => rfl

/-- Every line counts in the blinded form. -/
theorem Location.Holds.count_eq {count : Nat} (h : l.Holds .blinded raw count) :
    l.endLine - l.startLine + 1 = count := by
  rw [← h.length_linesOf, ← h.length_texts, length_texts_blinded]

end Location

namespace Index

variable {raw : Text → List Text} {form : NormalForm} {size : Int} {index : Index}

theorem IsMaximal.holds {r : Region} (hr : index.IsMaximal r)
    (h : Filled (WindowsOf (fun path => form.lines (raw path)) size) size index) {o : Occurrence}
    (ho : o ∈ r.start) :
    (index.locationOf r.span o).Holds form (raw o.path) (size.toNat + r.span) := by
  have hsize := (hr.covers h (Nat.zero_le _) ho).size_pos
  have hcount : o.offset + (size.toNat + r.span) - 1 + 1 - o.offset = size.toNat + r.span := by
    omega
  exact hcount ▸ Location.holds (hr.startsAt h ho) (hr.endsAt h ho) (by omega)

/-- Every location of every group of a search that nobody cancels stands in its file. In the exact
form the file has as many surviving lines from its first to its last line as the group has lines,
and these two survive; in the blinded form it has as many lines at all. -/
theorem findGroups_ranges
    (h : Filled (WindowsOf (fun path => form.lines (raw path)) size) size index) (near : Bool)
    (reader : FileReader) (rec : Record) :
    ∃ groups, (index.findGroups near).Gives reader rec groups
        { rec with checks := rec.checks + index.buckets.size } ∧
      ∀ g ∈ groups, ∀ l ∈ g.locations,
        (1 ≤ l.startLine ∧ l.startLine ≤ l.endLine ∧ l.endLine ≤ (raw l.path).length) ∧
        (form = .exact → ((l.linesOf (raw l.path)).countP (¬Dropped ·) : Int) = g.lineCount ∧
          (∃ line, (l.linesOf (raw l.path)).head? = some line ∧ ¬Dropped line) ∧
          ∃ line, (l.linesOf (raw l.path)).getLast? = some line ∧ ¬Dropped line) ∧
        (form = .blinded → l.endLine - l.startLine + 1 = g.lineCount) := by
  have hcoherent : Coherent index := h.coherent
  refine ⟨index.groups near,
    hcoherent.findGroups_gives h.startsAscend_of_source near reader rec, ?_⟩
  intro g hg l hl
  obtain ⟨r, hr, rfl⟩ := mem_groups.1 hg
  obtain ⟨o, ho, rfl⟩ := List.mem_map.1 hl
  have hmaximal := (hcoherent.mem_regions.1 hr).maximal
  have hsize := (hmaximal.covers h (Nat.zero_le _) ho).size_pos
  have hcount : (index.groupOf near r).lineCount = (size.toNat + r.span : Nat) := by
    rw [lineCount_groupOf, h.windowSize_eq]
    omega
  have hholds := hmaximal.holds h ho
  rw [hcount]
  refine ⟨⟨hholds.one_le_start, hholds.start_le_end, hholds.end_le_length⟩, ?_, ?_⟩
  · rintro rfl
    refine ⟨by rw [← hholds.length_texts, length_texts_exact]; rfl, ?_⟩
    simp only [← NormalForm.isSome_text?_exact]
    exact ⟨hholds.first_kept, hholds.last_kept⟩
  · rintro rfl
    exact hholds.count_eq

/-- Three times the same line, with a comment after the first one. -/
def gappedLines : List Text :=
  [['x'], ['#'], ['x'], ['x']]

/-- One file, whose two windows of two lines are the same; the first one has the comment in it. -/
def gapped : Index :=
  (Index.empty 2).offer ['a'] (Window.ofLines 2 (NormalForm.exact.lines gappedLines))

theorem findGroups_ranges_gapped :
    Filled (WindowsOf (fun _ => NormalForm.exact.lines gappedLines) 2) 2 gapped ∧
      ∃ g ∈ gapped.groups false, 2 ≤ g.locations.length ∧ ∀ l ∈ g.locations,
        1 ≤ l.startLine ∧ l.startLine ≤ l.endLine ∧ l.endLine ≤ 4 ∧
          ((l.linesOf gappedLines).countP (¬Dropped ·) : Int) = g.lineCount := by
  have hfilled : Filled (WindowsOf (fun _ => NormalForm.exact.lines gappedLines) 2) 2 gapped :=
    .offer (.empty 2) ⟨NormalForm.exact.increasing_lines _, rfl⟩
  have hlines : NormalForm.exact.lines gappedLines = [⟨['x'], 1⟩, ⟨['x'], 3⟩, ⟨['x'], 4⟩] := by
    decide
  have hkeys : gapped.files.keys = [['a']] := rfl
  have hindexed : gapped.files.contains ['a'] = true := by
    rw [← Ordered.mem_keys_iff, hkeys, List.mem_singleton]
  have hhas {position : Nat} (hposition : position ≤ 1) : gapped.Has ⟨['a'], position⟩ := by
    apply hfilled.has_of_fits hindexed
    rw [hlines]
    exact Nat.add_le_add_right hposition 2
  have htexts : windowTexts (fun _ => NormalForm.exact.lines gappedLines) 2 ⟨['a'], 0⟩ =
      windowTexts (fun _ => NormalForm.exact.lines gappedLines) 2 ⟨['a'], 1⟩ := by
    simp only [windowTexts, hlines]
    rfl
  obtain ⟨d, hfirst, hsecond⟩ :=
    hfilled.exists_digest (hhas (Nat.zero_le 1)) (hhas (Nat.le_refl 1)) htexts
  obtain ⟨r, hr, -⟩ := hfilled.coherent.exists_clone hfirst hsecond (by decide)
  obtain ⟨groups, hgives, hranges⟩ := findGroups_ranges hfilled false (fun _ _ => none) {}
  have hgroups : groups = gapped.groups false :=
    hgives.unique (hfilled.coherent.findGroups_gives hfilled.startsAscend_of_source false _ _)
  subst hgroups
  have hmem : gapped.groupOf false r ∈ gapped.groups false :=
    mem_groups.2 ⟨r, hfilled.coherent.mem_regions.2 hr, rfl⟩
  refine ⟨hfilled, gapped.groupOf false r,
    hmem, by rw [length_locations_groupOf]; exact hr.several, fun l hl => ?_⟩
  obtain ⟨⟨hone, hle, hend⟩, hexact, -⟩ := hranges _ hmem l hl
  exact ⟨hone, hle, hend, (hexact rfl).1⟩

end Index

end CloneDetection
