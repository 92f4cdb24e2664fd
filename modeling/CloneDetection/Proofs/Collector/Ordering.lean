import CloneDetection.Collector.Survey
import CloneDetection.Proofs.Clone.Nesting
import CloneDetection.Proofs.Collector.Limits
import CloneDetection.Proofs.Finding.Key

/-!
# The order of a report

Two groups of one form with a common start differ in length, so the keys of all findings of a scan
differ. The order of the report is therefore the same whatever order the groups come in, and a
survey with one collector leaves the report of that collector as it is.
-/
namespace CloneDetection

open Std

theorem Index.Coherent.eq_of_common_start {index : Index} (h : Coherent index)
    (hs : index.StartsAscend) {near : Bool} {f g : CloneGroup} (hf : f ∈ index.groups near)
    (hg : g ∈ index.groups near) (hcount : f.lineCount = g.lineCount) {p : Place Int}
    (hpf : p ∈ f.starts) (hpg : p ∈ g.starts) : f = g := by
  obtain ⟨q, hq, rfl⟩ := mem_groups.1 hf
  obtain ⟨r, hr, rfl⟩ := mem_groups.1 hg
  rw [h.mem_regions] at hq hr
  obtain ⟨o, hoq, hor⟩ := exists_common_start hs hq.maximal hr.maximal hpf hpg
  rw [lineCount_groupOf, lineCount_groupOf] at hcount
  have hspan : q.span = r.span := by omega
  have hrq : r.start ⊆ q.start := hq.start_subset hr.maximal (Nat.le_of_eq hspan) hoq hor
  have hqr : q.start ⊆ r.start := hr.start_subset hq.maximal (Nat.le_of_eq hspan.symm) hor hoq
  rw [hq.eq_of_start_subset hr hrq hqr]

theorem Index.near_of_mem_groups {index : Index} {near : Bool} {g : CloneGroup}
    (hg : g ∈ index.groups near) :
    g.near = near := by
  obtain ⟨r, -, rfl⟩ := mem_groups.1 hg
  rfl

namespace Duplication

section Keys

variable {files : List ReadFile}

theorem mem_groupsOf {g : CloneGroup} (hg : g ∈ groupsOf files) :
    g ∈ (indexOf (if g.near then .blinded else .exact) files).groups g.near := by
  rcases List.mem_append.1 hg with hexact | hnear
  · rwa [Index.near_of_mem_groups hexact]
  · have hblinded := (List.mem_filter.1 hnear).1
    rwa [Index.near_of_mem_groups hblinded]

theorem nodup_groupsOf (files : List ReadFile) : (groupsOf files).Nodup := by
  have hnodup (form : NormalForm) (near : Bool) : ((indexOf form files).groups near).Nodup :=
    (filled_indexOf form files).coherent.nodup_groups
      ((filled_indexOf form files).startsAscend fun _ _ h => h.pairwise_startLine) near
  refine List.nodup_append.2 ⟨hnodup .exact false, (hnodup .blinded true).filter _, ?_⟩
  rintro g hexact _ hnear rfl
  have hfalse := Index.near_of_mem_groups hexact
  rw [Index.near_of_mem_groups (List.mem_filter.1 hnear).1] at hfalse
  cases hfalse

theorem eq_of_key_eq {g h : CloneGroup} (hg : g ∈ groupsOf files) (hh : h ∈ groupsOf files)
    {f f' : Finding} (hf : Finding.ofGroup g = .ok f) (hf' : Finding.ofGroup h = .ok f')
    (hkey : f.key = f'.key) : g = h := by
  obtain ⟨hnear, hcount, p, hpg, hph⟩ := Finding.of_key_eq hf hf' hkey
  have hg := mem_groupsOf hg
  have hh := mem_groupsOf hh
  rw [hnear] at hg
  have hfilled := filled_indexOf (if h.near then .blinded else .exact) files
  exact hfilled.coherent.eq_of_common_start
    (hfilled.startsAscend fun _ _ hw => hw.pairwise_startLine) hg hh hcount
    hpg hph

theorem nodup_keys {all : List Finding} (h : (groupsOf files).mapM Finding.ofGroup = .ok all) :
    (all.map Finding.key).Nodup := by
  let pairs := (groupsOf files).zip all
  have hlength : (groupsOf files).length = all.length := (forall₂_of_mapM_eq_ok h).length_eq
  have hnodup : pairs.Nodup := by
    apply List.Nodup.of_map Prod.fst
    rw [List.map_fst_zip (Nat.le_of_eq hlength)]
    exact nodup_groupsOf files
  have hfinding (p : CloneGroup × Finding) (hp : p ∈ pairs) : Finding.ofGroup p.1 = .ok p.2 :=
    List.forall₂_zip (forall₂_of_mapM_eq_ok h) hp
  rw [← map_snd_zip h, List.map_map]
  apply hnodup.map_on
  intro p hp q hq hkey
  have hgroup : p.1 = q.1 :=
    eq_of_key_eq (List.of_mem_zip hp).1 (List.of_mem_zip hq).1 (hfinding p hp) (hfinding q hq) hkey
  have hsame := (hfinding p hp).symm.trans (hgroup ▸ hfinding q hq)
  exact Prod.ext hgroup (Except.ok.inj hsame)

end Keys

section Survey

variable {registry : Registry} {name : Text} {tree : Tree} {root : Text} {options : Options}
    {reader : FileReader}
  {r r₁ : Record} {findings : List Finding} {metrics : Metrics}

/-- A survey with one collector for clone groups sorts what this collector finds. -/
theorem survey_gives (hregistered : registry.get? name = some collector)
    (h : (collect tree root options).Gives reader r (findings, metrics) r₁) :
    ∃ r₂, (survey registry [name] tree root options).Gives reader r
      ⟨Finding.sort findings, [(name, .counts metrics)]⟩ r₂ := by
  let r₀ : Record := { r with events := .running name root :: r.events }
  have hget : (Scan.ofOption (.unknownCollector name registry.names) (registry.get? name)).Gives
      reader r collector r :=
    Scan.gives_ofOption hregistered
  have hemit : (Scan.emit (.running name root)).Gives reader r () r₀ := Scan.gives_emit _
  have haccesses : r.accesses = r₀.accesses := rfl
  obtain ⟨r₂, hcollect⟩ := h.of_accesses_eq haccesses
  have hrun :
      (collector.collect tree root options).Gives reader r₀ (findings, .counts metrics) r₂ :=
    hcollect.bind (Scan.gives_pure _)
  have hstep : (Survey.step registry tree root options {} name).Gives reader r
      ⟨findings, Ordered.empty.insert name (.counts metrics)⟩ r₂ :=
    hget.bind (hemit.bind (hrun.bind (Scan.gives_pure _)))
  have htallies : (Ordered.empty.insert name (Tally.counts metrics)).toList =
      [(name, .counts metrics)] := by
    rw [Ordered.insert, Ordered.toList_upsert_of_not_mem (by simp [Ordered.contains_eq_isSome]),
      Ordered.toList_empty, List.nil_append]
  refine ⟨r₂, ?_⟩
  rw [survey, List.foldlM_cons, ← htallies]
  exact (hstep.bind (Scan.gives_pure _)).bind (Scan.gives_pure _)

end Survey

/-- The order of the report is fully determined. Below a usable root of a well-formed tree files are
found; unless one of the groups of those that can be read stands at more locations than the doubles
count, a scan that nobody cancels reports some of the findings of its groups. Their keys differ, so
these or any other ones of them are sorted and cut off in one way, whatever order they come in, and
a survey with one collector reports the same list. -/
theorem collect_order_determined {tree : Tree} {root : Text} (htree : tree.top.WellFormed)
    (hroot : Path.isUsable root = true) (lexers : Lexers) (excludes includes languages : List Text)
    (least : Double) (maxFindings workers : Int) (reader : FileReader) (r : Record) :
    let options :=
      (plainOptions lexers excludes includes languages maxFindings workers).withLeast least
    ∃ files r₁, (options.selection.discover tree root).Gives reader r files r₁ ∧
      ((∃ g ∈ groupsOf (readable reader r₁.accesses files), Nat.pow 2 1023 ≤ g.locations.length ∧
          ∃ r₂, (collect tree root options).uncancelled reader r =
            (.error (.fault .tooManyLocations), r₂)) ∨
        ∃ all metrics r₂,
          (groupsOf (readable reader r₁.accesses files)).mapM Finding.ofGroup = .ok all ∧
          (collect tree root options).Gives reader r
            (Finding.cap (limitOf maxFindings) (Finding.sort (all.filter (Finding.reaches least))),
              metrics) r₂ ∧
          (∀ kept, kept.Sublist all → (kept.map Finding.key).Nodup ∧ ∀ permuted limit,
            permuted.Perm kept →
            Finding.cap limit (Finding.sort permuted) = Finding.cap limit (Finding.sort kept)) ∧
          ∀ registry name, registry.get? name = some collector → ∃ r₃,
            (survey registry [name] tree root options).Gives reader r
              ⟨Finding.cap (limitOf maxFindings)
                (Finding.sort (all.filter (Finding.reaches least))),
                [(name, .counts metrics)]⟩ r₃) := by
  intro options
  obtain ⟨files, r₁, hdiscover, hnodup⟩ :=
    Selection.discover_gives lexers excludes includes languages 10000 htree hroot reader r
  have hselected : (options.selection.discover tree root).Gives reader r files r₁ := hdiscover
  refine ⟨files, r₁, hselected, ?_⟩
  rcases collect_reports hselected hnodup rfl rfl rfl with hmany | ⟨all, metrics, r₂, hall, hgives⟩
  · exact .inl hmany
  · refine .inr ⟨all, metrics, r₂, hall, hgives, fun kept hkept => ?_,
      fun registry name hregistered => ?_⟩
    · have hkeys : (kept.map Finding.key).Nodup := (nodup_keys hall).sublist (hkept.map _)
      have hnumbers (f : Finding) (hf : f ∈ kept) : f.confidence ≠ .nan :=
        confidence_ne_nan_of_mem hall (hkept.mem hf)
      refine ⟨hkeys, fun permuted limit hperm => ?_⟩
      rw [Finding.sort_eq_of_perm hnumbers hkeys hperm]
    · have hnumbers (f : Finding) (hf : f ∈ all.filter (Finding.reaches least)) :
          f.confidence ≠ .nan :=
        confidence_ne_nan_of_mem hall (List.mem_filter.1 hf).1
      obtain ⟨r₃, hsurvey⟩ := survey_gives hregistered hgives
      rw [reportOf, Finding.sort_cap_sort hnumbers] at hsurvey
      exact ⟨r₃, hsurvey⟩

theorem collect_order_determined_twins :
    twins.top.WellFormed ∧ Path.isUsable ['/'] = true ∧ ∃ files r₁,
      ((plainOptions cLexers [] [] [] 0 1).selection.discover twins ['/']).Gives twinsReader {}
        files r₁ ∧
        ∃ all findings metrics r₂ r₃,
          (groupsOf (readable twinsReader r₁.accesses files)).mapM Finding.ofGroup = .ok all ∧
          Finding.cap 200 (Finding.sort all.reverse) = Finding.cap 200 (Finding.sort all) ∧
          (collect twins ['/'] ((plainOptions cLexers [] [] [] 0 1).withLeast .zero)).Gives
            twinsReader {}
            (findings, metrics) r₂ ∧
          (survey .standard [Finding.duplication] twins ['/']
            ((plainOptions cLexers [] [] [] 0 1).withLeast .zero)).Gives twinsReader {}
              ⟨findings, [(Finding.duplication, .counts metrics)]⟩ r₃ := by
  have hroot : Path.isUsable ['/'] = true := by decide
  obtain ⟨files, r₁, hfiles, hcases⟩ :=
    collect_order_determined wellFormed_twins hroot cLexers [] [] [] .zero 0 1 twinsReader {}
  refine ⟨wellFormed_twins, hroot, files, r₁, hfiles, ?_⟩
  rcases hcases with ⟨g, hg, hmany, -⟩ | ⟨all, metrics, r₂, hall, hgives, hkept, hsurvey⟩
  · rw [readable_twins hfiles] at hg
    exact absurd hmany (few_locations_twins hg)
  · obtain ⟨r₃, hreport⟩ := hsurvey .standard Finding.duplication rfl
    exact ⟨all, _, metrics, r₂, r₃, hall,
      (hkept all (List.Sublist.refl _)).2 _ _ (List.reverse_perm _), hgives, hreport⟩

end Duplication

end CloneDetection
