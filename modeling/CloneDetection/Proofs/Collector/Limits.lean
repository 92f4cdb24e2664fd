import CloneDetection.Proofs.Collector.Calls
import CloneDetection.Proofs.Finding.Order

/-!
# One report for all limits

The findings of the groups that are there make one report in order of confidence. The least
confidence and the cap of a scan cut off its end, and the metrics count what the least confidence
leaves.
-/
namespace CloneDetection

namespace Duplication

theorem limitOf_pos (maxFindings : Int) : 0 < limitOf maxFindings := by
  unfold limitOf
  split
  · assumption
  · decide

/-- What a scan with these limits reports, from all findings. -/
def reportOf (all : List Finding) (least : Double) (maxFindings : Int) : List Finding :=
  Finding.cap (limitOf maxFindings) (Finding.sort (all.filter (Finding.reaches least)))

/-- The groups of the findings that are confident enough, from all groups and their findings. -/
def confident (groups : List CloneGroup) (all : List Finding) (least : Double) :
    List (CloneGroup × Finding) :=
  (groups.zip all).filter fun p => Finding.reaches least p.2

/-- Only a group at too many locations has no finding, and then no group is kept. -/
theorem kept_overflows {files : List ReadFile} {e : Fault}
    (h : (groupsOf files).mapM Finding.ofGroup = .error e) (least : Double) :
    kept (.ok least) (groupsOf files) = .error .tooManyLocations ∧
      ∃ g ∈ groupsOf files, Nat.pow 2 1023 ≤ g.locations.length := by
  obtain ⟨g, hg, herror⟩ := exists_of_mapM_eq_error h
  obtain ⟨rfl, hmany⟩ := Finding.of_ofGroup_eq_error (locations_ne_nil hg) herror
  refine ⟨?_, g, hg, hmany⟩
  rw [kept_eq, h]
  rfl

section Report

variable {groups : List CloneGroup} {all : List Finding} (h : groups.mapM Finding.ofGroup = .ok all)
include h

theorem kept_eq_confident (least : Double) :
    kept (.ok least) groups = .ok (confident groups all least) := by
  rw [kept_eq, h]
  rfl

theorem map_snd_zip : (groups.zip all).map Prod.snd = all := by
  have hlength : groups.length = all.length := (forall₂_of_mapM_eq_ok h).length_eq
  exact List.map_snd_zip (Nat.le_of_eq hlength.symm)

theorem map_snd_confident (least : Double) :
    (confident groups all least).map Prod.snd = all.filter (Finding.reaches least) := by
  conv_rhs => rw [← map_snd_zip h, List.filter_map]
  rfl

theorem length_reportOf (files : Nat) (least : Double) (maxFindings : Int) :
    ((reportOf all least maxFindings).length : Int) = min (limitOf maxFindings)
      ((metricsOf files ((confident groups all least).map Prod.fst)).exactClones +
        (metricsOf files ((confident groups all least).map Prod.fst)).nearClones) := by
  rw [reportOf, Finding.length_cap (limitOf_pos maxFindings), (Finding.sort_perm _).length_eq,
    metricsOf_count, ← map_snd_confident h, List.length_map, List.length_map]

theorem exists_group_of_mem {f : Finding} (hf : f ∈ all) :
    ∃ g ∈ groups, Finding.ofGroup g = .ok f := by
  rw [← map_snd_zip h, List.mem_map] at hf
  obtain ⟨p, hp, rfl⟩ := hf
  exact ⟨p.1, (List.of_mem_zip hp).1, List.forall₂_zip (forall₂_of_mapM_eq_ok h) hp⟩

theorem confidence_ne_nan_of_mem {f : Finding} (hf : f ∈ all) : f.confidence ≠ .nan := by
  obtain ⟨g, -, hg⟩ := exists_group_of_mem h hf
  exact Finding.confidence_ne_nan hg

omit h in
theorem mem_of_mem_reportOf {least : Double} {maxFindings : Int} {f : Finding}
    (hf : f ∈ reportOf all least maxFindings) : f ∈ all ∧ Finding.reaches least f = true := by
  have hfront : reportOf all least maxFindings <+:
      Finding.sort (all.filter (Finding.reaches least)) :=
    Finding.cap_prefix _ _
  have hsorted := hfront.mem hf
  rwa [(Finding.sort_perm _).mem_iff, List.mem_filter] at hsorted

omit h in
/-- What is confident enough is reported if the cap leaves room for all findings. -/
theorem mem_reportOf {least : Double} {maxFindings : Int} (hroom : all.length ≤ limitOf maxFindings)
    {f : Finding} (hf : f ∈ all) (hreaches : Finding.reaches least f = true) :
    f ∈ reportOf all least maxFindings := by
  have hlength : ((Finding.sort (all.filter (Finding.reaches least))).length : Int) ≤
      limitOf maxFindings := by
    have hfewer := List.length_filter_le (Finding.reaches least) all
    rw [(Finding.sort_perm _).length_eq]
    omega
  rw [reportOf, Finding.cap_eq_self hlength, (Finding.sort_perm _).mem_iff, List.mem_filter]
  exact ⟨hf, hreaches⟩

theorem least_le_of_mem_reportOf {least : Double} (hleast : least ≠ .nan) {maxFindings : Int}
    {f : Finding} (hf : f ∈ reportOf all least maxFindings) : least ≤ f.confidence := by
  obtain ⟨hmem, hreaches⟩ := mem_of_mem_reportOf hf
  exact (Finding.reaches_iff hleast (confidence_ne_nan_of_mem h hmem)).1 hreaches

theorem reportOf_prefix {least least' : Double} (hleast : least ≤ least')
    {maxFindings maxFindings' : Int} (hmax : limitOf maxFindings' ≤ limitOf maxFindings) :
    reportOf all least' maxFindings' <+: reportOf all least maxFindings := by
  obtain ⟨hnumber, hnumber'⟩ := Double.ne_nan_of_le hleast
  have hall (f : Finding) (hf : f ∈ all.filter (Finding.reaches least)) : f.confidence ≠ .nan :=
    confidence_ne_nan_of_mem h (List.mem_filter.1 hf).1
  have hfewer : all.filter (Finding.reaches least') =
      (all.filter (Finding.reaches least)).filter (Finding.reaches least') := by
    rw [List.filter_filter]
    apply List.filter_congr
    intro f hf
    have hf := confidence_ne_nan_of_mem h hf
    rw [Bool.eq_iff_iff, Bool.and_eq_true, Finding.reaches_iff hnumber hf,
      Finding.reaches_iff hnumber' hf]
    exact ⟨fun hreaches => ⟨hreaches, Double.le_trans hleast hreaches⟩, And.left⟩
  apply Finding.cap_prefix_cap (limitOf_pos maxFindings') hmax
  rw [hfewer, Finding.sort_filter hall]
  exact Finding.filter_sort_prefix hall hnumber'

end Report

section Run

variable {tree : Tree} {root : Text} {options : Options} {reader : FileReader} {r r₁ : Record}
    {files : List SourceFile}

/-- A scan that has found its files reports, or one of the groups stands at too many locations. -/
theorem collect_reports (hdiscover : (options.selection.discover tree root).Gives reader r files r₁)
    (hnodup : (files.map SourceFile.relative).Nodup) {workers : Int}
    (hworkers : options.workers = .ok workers) {least : Double}
    (hleast : options.minConfidence = .ok least) {maxFindings : Int}
    (hmax : options.maxFindings = .ok maxFindings) :
    (∃ g ∈ groupsOf (readable reader r₁.accesses files), Nat.pow 2 1023 ≤ g.locations.length ∧
        ∃ r₂, (collect tree root options).uncancelled reader r =
          (.error (.fault .tooManyLocations), r₂)) ∨
      ∃ all metrics r₂,
        (groupsOf (readable reader r₁.accesses files)).mapM Finding.ofGroup = .ok all ∧
        (collect tree root options).Gives reader r
          (reportOf all least maxFindings, metrics) r₂ := by
  cases hall : (groupsOf (readable reader r₁.accesses files)).mapM Finding.ofGroup with
  | error e =>
    obtain ⟨hkept, g, hg, hmany⟩ := kept_overflows hall least
    rw [← hleast] at hkept
    exact .inl ⟨g, hg, hmany, collect_fails hdiscover hnodup hworkers hkept⟩
  | ok all =>
    have hkept := kept_eq_confident hall least
    rw [← hleast] at hkept
    obtain ⟨r₂, hgives⟩ := collect_gives hdiscover hnodup hworkers hkept hmax
    rw [map_snd_confident hall] at hgives
    exact .inr ⟨all, _, r₂, rfl, hgives⟩

end Run

/-- The least confidence and the cap only cut off the end of one report. Below a usable root of a
well-formed tree files are found; unless one of the groups of those that can be read stands at more
locations than the doubles count, every scan that nobody cancels reports as many findings as its
metrics count, up to its cap, all of them confident enough. The metrics do not depend on the cap,
and with a higher least confidence and a lower cap the report is a prefix. -/
theorem collect_reports_prefix {tree : Tree} {root : Text} (htree : tree.top.WellFormed)
    (hroot : Path.isUsable root = true) (lexers : Lexers) (excludes includes languages : List Text)
    (workers : Int) (reader : FileReader) (r : Record) :
    let options (least : Double) (maxFindings : Int) : Options :=
      (plainOptions lexers excludes includes languages maxFindings workers).withLeast least
    ∃ files r₁,
      ((Selection.ofTexts lexers excludes includes languages 10000).discover tree root).Gives reader
        r files r₁ ∧
      ((∃ g ∈ groupsOf (readable reader r₁.accesses files), Nat.pow 2 1023 ≤ g.locations.length ∧
          ∀ least maxFindings, ∃ r₂,
            (collect tree root (options least maxFindings)).uncancelled reader r =
            (.error (.fault .tooManyLocations), r₂)) ∨
        ∃ (report : Double → Int → List Finding) (metrics : Double → Metrics),
          (∀ least maxFindings, ∃ r₂, (collect tree root (options least maxFindings)).Gives reader r
            (report least maxFindings, metrics least) r₂) ∧
          (∀ least maxFindings, ((report least maxFindings).length : Int) =
            min (limitOf maxFindings) ((metrics least).exactClones + (metrics least).nearClones)) ∧
          (∀ least maxFindings, least ≠ .nan → ∀ f ∈ report least maxFindings,
            least ≤ f.confidence) ∧
          ∀ least least' maxFindings maxFindings', least ≤ least' → limitOf maxFindings' ≤
            limitOf maxFindings →
            report least' maxFindings' <+: report least maxFindings) := by
  intro options
  obtain ⟨files, r₁, hdiscover, hnodup⟩ :=
    Selection.discover_gives lexers excludes includes languages 10000 htree hroot reader r
  let scanned := readable reader r₁.accesses files
  have hselected (least : Double) (maxFindings : Int) :
      ((options least maxFindings).selection.discover tree root).Gives reader r files r₁ :=
        hdiscover
  have hworkers (least : Double) (maxFindings : Int) : (options least maxFindings).workers =
      .ok workers := rfl
  refine ⟨files, r₁, hdiscover, ?_⟩
  cases hall : (groupsOf scanned).mapM Finding.ofGroup with
  | error e =>
    obtain ⟨g, hg, herror⟩ := exists_of_mapM_eq_error hall
    obtain ⟨rfl, hmany⟩ := Finding.of_ofGroup_eq_error (locations_ne_nil hg) herror
    refine .inl ⟨g, hg, hmany, fun least maxFindings => ?_⟩
    have hkept : kept (options least maxFindings).minConfidence (groupsOf scanned) =
        .error .tooManyLocations := by
      change kept (.ok least) _ = _
      rw [kept_eq, hall]
      rfl
    exact collect_fails (hselected least maxFindings) hnodup (hworkers least maxFindings) hkept
  | ok all =>
    refine .inr ⟨reportOf all,
      fun least => metricsOf scanned.length ((confident (groupsOf scanned) all least).map Prod.fst),
      fun least maxFindings => ?_, length_reportOf hall scanned.length,
      fun least maxFindings hleast f hf => ?_, ?_⟩
    · obtain ⟨r₂, hgives⟩ :=
        collect_gives (hselected least maxFindings) hnodup (hworkers least maxFindings)
        (kept_eq_confident hall least) rfl
      rw [map_snd_confident hall] at hgives
      exact ⟨r₂, hgives⟩
    · exact least_le_of_mem_reportOf hall hleast hf
    · intro least least' maxFindings maxFindings' hleast hmax
      exact reportOf_prefix hall hleast hmax

theorem collect_reports_prefix_twins :
    twins.top.WellFormed ∧ Path.isUsable ['/'] = true ∧ ∃ findings metrics r₂ findings' metrics' r₃,
      (collect twins ['/'] ((plainOptions cLexers [] [] [] 0 1).withLeast .zero)).Gives
        twinsReader {} (findings, metrics) r₂ ∧
      (collect twins ['/']
        ((plainOptions cLexers [] [] [] 1 1).withLeast (Confidence.hundredths 50))).Gives
        twinsReader {} (findings', metrics') r₃ ∧
      findings' <+: findings ∧ ∀ f ∈ findings', Confidence.hundredths 50 ≤ f.confidence := by
  have hroot : Path.isUsable ['/'] = true := by decide
  obtain ⟨files, r₁, hfiles, hcases⟩ :=
    collect_reports_prefix wellFormed_twins hroot cLexers [] [] [] 1 twinsReader {}
  refine ⟨wellFormed_twins, hroot, ?_⟩
  rcases hcases with ⟨g, hg, hmany, -⟩ | ⟨report, metrics, hgives, -, hleast, hprefix⟩
  · rw [readable_twins hfiles] at hg
    exact absurd hmany (few_locations_twins hg)
  · obtain ⟨r₂, hall⟩ := hgives .zero 0
    obtain ⟨r₃, hfew⟩ := hgives (Confidence.hundredths 50) 1
    have hle : Double.zero ≤ Confidence.hundredths 50 := by decide +kernel
    have hnumber : Confidence.hundredths 50 ≠ .nan := (Double.ne_nan_of_le hle).2
    exact ⟨_, _, r₂, _, _, r₃, hall, hfew, hprefix _ _ _ _ hle (by decide), hleast _ 1 hnumber⟩

end Duplication

end CloneDetection
