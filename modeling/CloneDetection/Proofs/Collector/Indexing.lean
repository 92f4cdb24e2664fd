import CloneDetection.Collector.Duplication
import CloneDetection.Proofs.Clone.Search
import CloneDetection.Proofs.Scan.Checks
import Mathlib.Data.List.Induction

/-!
# The indexes of a scan

The files of a scan are read one after another, and those that can be read are indexed in both
forms. As long as no two of them have the same path no file is refused, so either index tells the
windows of every file that was read.
-/
namespace CloneDetection

structure ReadFile where
  path : Text
  lines : List Text

namespace Duplication

/-- The file with its lines, if it can be read after these accesses. -/
def read? (reader : FileReader) (before : List Access) (file : SourceFile) : Option ReadFile :=
  (reader before ⟨file.path, none⟩).map fun bytes => ⟨file.relative, Content.lines bytes⟩

/-- The files that can be read one after another. -/
def readable (reader : FileReader) : List Access → List SourceFile → List ReadFile
  | _, [] => []
  | before, file :: rest =>
    (read? reader before file).toList ++ readable reader (⟨file.path, none⟩ :: before) rest

def indexOf (form : NormalForm) (files : List ReadFile) : Index :=
  files.foldl (fun index file => index.offer file.path (windowsOf form file.lines))
    (.empty defaultWindowSize)

def indexedOf (files : List ReadFile) : Indexed :=
  ⟨indexOf .exact files, indexOf .blinded files, files.length⟩

section Contents

variable {form : NormalForm} {files : List ReadFile}

theorem indexOf_append (form : NormalForm) (files : List ReadFile) (file : ReadFile) :
    indexOf form (files ++ [file]) =
      (indexOf form files).offer file.path (windowsOf form file.lines) := by
  rw [indexOf, List.foldl_append]
  rfl

theorem mem_paths_of_contains {path : Text} (h : (indexOf form files).files.contains path = true) :
    path ∈ files.map ReadFile.path := by
  induction files using List.reverseRecOn with
  | nil => simp [indexOf, Index.empty, Ordered.contains_eq_isSome] at h
  | append_singleton files file ih =>
    rw [indexOf_append] at h
    rw [List.map_append, List.mem_append]
    rcases Index.contains_offer h with rfl | hbefore
    · exact .inr List.mem_cons_self
    · exact .inl (ih hbefore)

theorem contains_indexOf {path : Text} (h : path ∉ files.map ReadFile.path) (form : NormalForm) :
    (indexOf form files).files.contains path = false := by
  rw [Bool.eq_false_iff]
  intro hcontains
  exact h (mem_paths_of_contains hcontains)

theorem filled_indexOf (form : NormalForm) (files : List ReadFile) :
    Index.Filled (fun _ windows => Window.OfIncreasing windows) defaultWindowSize
      (indexOf form files) := by
  induction files using List.reverseRecOn with
  | nil => exact .empty _
  | append_singleton files file ih =>
    rw [indexOf_append]
    exact ih.offer ⟨defaultWindowSize, form.lines file.lines, form.increasing_lines _, rfl⟩

theorem digestOf?_indexOf (hnodup : (files.map ReadFile.path).Nodup) {file : ReadFile}
    (hfile : file ∈ files) (position : Nat) : (indexOf form files).digestOf? ⟨file.path, position⟩ =
      ((windowsOf form file.lines)[position]?).map Window.digest := by
  induction files using List.reverseRecOn with
  | nil => cases hfile
  | append_singleton files last ih =>
    rw [List.map_append, List.map_singleton, List.nodup_append] at hnodup
    rcases hnodup with ⟨hnodup, -, hdisjoint⟩
    have hlast : last.path ∉ files.map ReadFile.path := by
      intro hmem
      exact hdisjoint _ hmem _ List.mem_cons_self rfl
    rw [indexOf_append, Index.digestOf?_offer (contains_indexOf hlast form)]
    rcases List.mem_append.1 hfile with hbefore | hlastFile
    · rw [if_neg, ih hnodup hbefore]
      intro hpath
      exact hlast (hpath ▸ List.mem_map_of_mem hbefore)
    · rw [List.mem_singleton.1 hlastFile, if_pos rfl]

end Contents

section Hashing

variable (contents : Contents) (file : SourceFile)

theorem messages_hashFile : (hashFile file).messages contents = [] := by
  simp only [hashFile, Scan.messages_bind, Scan.checkpoint, Scan.readAll, Scan.outcome,
    Scan.messages]
  cases contents ⟨file.path, none⟩ with
  | none => rfl
  | some bytes => rfl

theorem outcome_hashFile : ∃ windows?, (hashFile file).outcome contents = .ok windows? := by
  simp only [hashFile, Scan.outcome_bind, Scan.checkpoint, Scan.readAll, Scan.outcome]
  cases contents ⟨file.path, none⟩ with
  | none => exact ⟨none, rfl⟩
  | some bytes => exact ⟨_, rfl⟩

theorem checks_hashFile : (hashFile file).checks contents = 1 := by
  rw [hashFile, Scan.checks_checkpoint_bind, Nat.add_eq_right]
  apply Scan.checks_bind_eq_zero rfl
  intro bytes?
  cases bytes? with
  | none => rfl
  | some bytes => rfl

end Hashing

section Run

theorem map_path_read? (reader : FileReader) (before : List Access) (file : SourceFile) :
    ((read? reader before file).toList.map ReadFile.path).Sublist [file.relative] := by
  unfold read?
  cases reader before ⟨file.path, none⟩ with
  | none => exact List.nil_sublist _
  | some bytes => exact List.Sublist.refl _

theorem map_path_readable (reader : FileReader) (before : List Access) (files : List SourceFile) :
    ((readable reader before files).map ReadFile.path).Sublist (files.map SourceFile.relative) := by
  induction files generalizing before with
  | nil => exact .slnil
  | cons file rest ih =>
    rw [readable, List.map_append, List.map_cons]
    exact (map_path_read? reader before file).append (ih _)

/-- What hashing a file comes to is decided by whether the file can be read. -/
theorem hashFile_gives (file : SourceFile) (reader : FileReader) (r : Record) :
    ∃ r', (hashFile file).Gives reader r
        ((reader r.accesses ⟨file.path, none⟩).map fun bytes =>
          ⟨windowsOf .exact (Content.lines bytes), windowsOf .blinded (Content.lines bytes)⟩) r' ∧
      r'.accesses = ⟨file.path, none⟩ :: r.accesses := by
  let r₁ : Record := { r with checks := r.checks + 1 }
  let r₂ : Record := { r₁ with accesses := ⟨file.path, none⟩ :: r.accesses }
  have hcheck : Scan.checkpoint.Gives reader r () r₁ := Scan.gives_checkpoint
  have hread : (Scan.readAll file.path).Gives reader r₁ (reader r.accesses ⟨file.path, none⟩) r₂ :=
    Scan.gives_readAll _
  cases hanswer : reader r.accesses ⟨file.path, none⟩ with
  | none =>
    rw [hanswer] at hread
    exact ⟨{ r₂ with events := .unreadable file.relative :: r₂.events },
      hcheck.bind (hread.bind ((Scan.gives_emit _).bind (Scan.gives_pure _))), rfl⟩
  | some bytes =>
    rw [hanswer] at hread
    exact ⟨r₂, hcheck.bind (hread.bind (Scan.gives_pure _)), rfl⟩

theorem addTo_gives {index : Index} {path : Text} (h : index.files.contains path = false)
    (windows : List Window) (reader : FileReader) (r : Record) :
    (addTo index path windows).Gives reader r (index.offer path windows) r :=
  Scan.gives_ofOption (Index.add?_eq_offer h windows)

/-- One file: it comes into both indexes if it can be read, and is left out otherwise. -/
theorem indexFile_gives {done : List ReadFile} {file : SourceFile}
    (hnew : file.relative ∉ done.map ReadFile.path) (reader : FileReader) (r : Record) :
    ∃ r', (indexFile (indexedOf done) file).Gives reader r
        (indexedOf (done ++ (read? reader r.accesses file).toList)) r' ∧
      r'.accesses = ⟨file.path, none⟩ :: r.accesses := by
  rcases hashFile_gives file reader r with ⟨r₁, hhash, haccesses⟩
  let r₂ : Record := { r₁ with checks := r₁.checks + 1 }
  have hcheck : Scan.checkpoint.Gives reader r₁ () r₂ := Scan.gives_checkpoint
  cases hread : reader r.accesses ⟨file.path, none⟩ with
  | none =>
    rw [hread] at hhash
    have hsame : done ++ (read? reader r.accesses file).toList = done := by simp [read?, hread]
    rw [hsame]
    exact ⟨r₂, hhash.bind (hcheck.bind (Scan.gives_pure _)), haccesses⟩
  | some bytes =>
    rw [hread] at hhash
    have hexact :=
      addTo_gives (contains_indexOf hnew .exact) (windowsOf .exact (Content.lines bytes)) reader r₂
    have hblinded :=
      addTo_gives (contains_indexOf hnew .blinded) (windowsOf .blinded (Content.lines bytes))
        reader r₂
    have hindexed : indexedOf (done ++ (read? reader r.accesses file).toList) =
        ⟨(indexOf .exact done).offer file.relative (windowsOf .exact (Content.lines bytes)),
          (indexOf .blinded done).offer file.relative (windowsOf .blinded (Content.lines bytes)),
          done.length + 1⟩ := by
      simp [read?, hread, indexedOf, indexOf_append]
    rw [hindexed]
    by_cases hstep : (done.length + 1) % progressStep = 0
    · refine ⟨{ r₂ with events := .scanned (done.length + 1) :: r₂.events },
        hhash.bind (hcheck.bind (hexact.bind (hblinded.bind ?_))), haccesses⟩
      rw [indexedOf]
      dsimp only
      rw [if_pos hstep]
      exact (Scan.gives_emit _).bind (Scan.gives_pure _)
    · refine ⟨r₂, hhash.bind (hcheck.bind (hexact.bind (hblinded.bind ?_))), haccesses⟩
      rw [indexedOf]
      dsimp only
      rw [if_neg hstep]
      exact (Scan.gives_pure _).bind (Scan.gives_pure _)

theorem indexFiles_gives (todo : List SourceFile) {done : List ReadFile}
    (hnodup : (done.map ReadFile.path ++ todo.map SourceFile.relative).Nodup) (reader : FileReader)
    (r : Record) :
    ∃ r', (todo.foldlM indexFile (indexedOf done)).Gives reader r
      (indexedOf (done ++ readable reader r.accesses todo)) r' := by
  induction todo generalizing done r with
  | nil =>
    refine ⟨r, ?_⟩
    rw [readable, List.append_nil]
    exact Scan.gives_pure _
  | cons file rest ih =>
    have hnew : file.relative ∉ done.map ReadFile.path := by
      intro hmem
      exact (List.nodup_append.1 hnodup).2.2 _ hmem _ List.mem_cons_self rfl
    rcases indexFile_gives hnew reader r with ⟨r₁, hfile, haccesses⟩
    have hrest : ((done ++ (read? reader r.accesses file).toList).map ReadFile.path ++
        rest.map SourceFile.relative).Nodup := by
      refine hnodup.sublist ?_
      rw [List.map_append, List.append_assoc]
      exact ((map_path_read? reader r.accesses file).append (List.Sublist.refl _)).append_left _
    rcases ih hrest r₁ with ⟨r', hgives⟩
    refine ⟨r', ?_⟩
    rw [List.foldlM_cons, readable, ← List.append_assoc, ← haccesses]
    exact hfile.bind hgives

end Run

end Duplication

end CloneDetection
