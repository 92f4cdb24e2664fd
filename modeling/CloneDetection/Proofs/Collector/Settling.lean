import CloneDetection.Proofs.Collector.Limits
import CloneDetection.Proofs.Collector.Schedule
import CloneDetection.Proofs.Tree.Room

/-!
# What a collection can end in

The files of a scan have different paths, so none is refused by an index; the regions of an index
have all their windows, and every group stands somewhere. A collection below a root that the host
can scan therefore returns its findings or is cancelled. Only a group at more locations than the
doubles count has no confidence, and the files do not hold that many lines.
-/
namespace CloneDetection

namespace Tree

/-- How many calls a scan may have open within one another: half of those that the host allows,
which leaves as many to its callers. -/
def maxNested : Nat := 500

/-- What the host asks of a tree and a root to scan them at all. Elsewhere it gives up with errors
of its own, which the model does not have. -/
structure Scannable (tree : Tree) (root : Text) : Prop where
  wellFormed : tree.top.WellFormed
  usable : Path.isUsable root = true
  /-- A relative root starts in a directory that there is. -/
  working : Path.isAbsolute root = false → (tree.top.get? tree.working).any Node.isDirectory = true
  /-- A directory is visited by a call within that of the directory it is in. -/
  nesting : ∀ v ∈ tree.walk (fun _ => true) root, v.names.length ≤ maxNested
  /-- The target of a link is resolved by a call within that of the link. -/
  rootLinks : tree.ResolvesWithin maxNested root
  fileLinks : ∀ v ∈ tree.walk (fun _ => true) root, ∀ e ∈ v.files, e.real?.isSome →
    tree.ResolvesWithin maxNested (pathBelow root (v.names ++ [e.name]))

end Tree

namespace Duplication

/-- What a collection from files with so many lines can end in. -/
inductive Settled (lines : Nat) : Except Halt (List Finding) → Prop where
  | returned (findings : List Finding) : Settled lines (.ok findings)
  | cancelled (cause : Cancellation) : Settled lines (.error (.cancelled cause))
  | uncountable (h : Nat.pow 2 1023 ≤ lines) : Settled lines (.error (.fault .tooManyLocations))

section Run

variable {tree : Tree} {root : Text} {options : Options} {reader : FileReader} {r r₁ : Record}
    {files : List SourceFile}

theorem result_of (metrics? : Option Metrics)
    (run : Except Halt (List Finding × Metrics) × Record) :
    (Call.of metrics? run).result = run.1.map Prod.fst := by
  rcases run with ⟨⟨halt⟩ | ⟨findings, metrics⟩, r⟩
  · rfl
  · rfl

theorem uncancelled_settled
    (hdiscover : (options.selection.discover tree root).Gives reader r files r₁)
    (hnodup : (files.map SourceFile.relative).Nodup) {workers : Int}
    (hworkers : options.workers = .ok workers) {least : Double}
    (hleast : options.minConfidence = .ok least) {maxFindings : Int}
    (hmax : options.maxFindings = .ok maxFindings) :
    Settled (linesOf (readable reader r₁.accesses files))
      (((collect tree root options).uncancelled reader r).1.map Prod.fst) := by
  rcases collect_reports hdiscover hnodup hworkers hleast hmax with
    ⟨g, hg, hmany, r₂, hfails⟩ | ⟨all, metrics, r₂, -, hgives⟩
  · have hscanned : ((readable reader r₁.accesses files).map ReadFile.path).Nodup :=
      hnodup.sublist (map_path_readable reader r₁.accesses files)
    rw [hfails]
    exact .uncountable (Nat.le_trans hmany (length_locations_groupsOf_le hscanned hg))
  · rw [Scan.Gives] at hgives
    rw [hgives]
    exact .returned _

theorem call_settled {lines : Nat}
    (h : Settled lines (((collect tree root options).uncancelled reader r).1.map Prod.fst))
    (signal : Nat → Option Cancellation) (metrics? : Option Metrics) :
    Settled lines (call signal reader tree root options metrics? r).result := by
  rw [call, result_of]
  rcases Scan.run_eq_uncancelled_or signal (collect tree root options) r
    with hsame | ⟨cause, r', hcancelled⟩
  · rwa [hsame]
  · rw [hcancelled]
    exact .cancelled cause

/-- Whenever nobody can do anything any more, the caller has ended as it would have alone, or it was
cancelled. -/
theorem complete_settled {setup : Pool.Setup}
    (hdiscover : (setup.options.selection.discover setup.tree setup.root).Gives
      (fun _ => setup.contents) {} files r₁)
    (hnodup : (files.map SourceFile.relative).Nodup) {workers : Int}
    (hworkers : setup.options.workers = .ok workers) (hseveral : 1 < workers) {least : Double}
    (hleast : setup.options.minConfidence = .ok least) {maxFindings : Int}
    (hmax : setup.options.maxFindings = .ok maxFindings) {token : Token} {now : Double}
    {before? : Option Metrics} {s : Pool.System}
    (hrun : Pool.Run setup (Pool.start setup token now before?) s)
    (hcomplete : Pool.Complete setup s) :
    ∃ outcome, s.caller = .ended outcome ∧
      Settled (linesOf (readOf setup.contents files)) outcome := by
  have hs : s.Sound setup before? :=
    hrun.sound hworkers (Pool.sound_start setup token now before?)
  have hwithdrawn : ∀ job ∈ s.jobs, job.status = .withdrawn → s.caller.HasFailed := by
    intro job hjob hstatus
    have hsound := hs.jobs job hjob
    rwa [Pool.Job.Sound, hstatus] at hsound
  obtain ⟨outcome, hended⟩ := hcomplete.exists_ended hworkers (by omega) hwithdrawn
  refine ⟨outcome, hended, ?_⟩
  obtain hagrees | ⟨⟨⟨cause, hcancelled⟩, -⟩, -⟩ := hs.agrees_or_aborted hended
  · have hfinds : (({ setup.options with workers := .ok 1 } : Options).selection.discover setup.tree
        setup.root).Gives (fun _ => setup.contents) {} files r₁ := hdiscover
    have hsettled := uncancelled_settled hfinds hnodup rfl hleast hmax
    rw [readable_eq_readOf] at hsettled
    have hresult := hagrees.caller_eq
    rw [hended, Pool.Caller.ended.injEq] at hresult
    rw [hresult]
    exact hsettled
  · rw [hended, Pool.Caller.ended.injEq] at hcancelled
    rw [hcancelled]
    exact .cancelled cause

end Run

/-- A collection returns its findings or is cancelled, nothing else. Below a root that can be
scanned it finds files with different paths, all groups of those that can be read stand somewhere,
and whatever accesses fail and whatever its checks show, the call returns or is cancelled, unless
the files have more lines than the doubles count. With several workers no schedule goes on for ever,
and whenever nobody can do anything any more, the caller has returned or was cancelled as well. -/
theorem call_returns_or_cancelled {tree : Tree} {root : Text} (hscan : tree.Scannable root)
    (lexers : Lexers) (excludes includes languages : List Text) (least : Double)
    (maxFindings workers : Int) :
    let options :=
      (plainOptions lexers excludes includes languages maxFindings workers).withLeast least
    (∀ (reader : FileReader) (r : Record), ∃ files r₁,
      (options.selection.discover tree root).Gives reader r files r₁ ∧
      (files.map SourceFile.relative).Nodup ∧
      (∀ g ∈ groupsOf (readable reader r₁.accesses files), g.locations ≠ []) ∧
      ∀ signal metrics?, Settled (linesOf (readable reader r₁.accesses files))
        (call signal reader tree root options metrics? r).result) ∧
    (1 < workers → ∀ contents : Contents, ∃ files,
      (options.selection.discover tree root).outcome contents = .ok files ∧
      WellFounded (fun t s => Pool.Step ⟨tree, root, options, contents⟩ s t) ∧
      ∀ token now before? s, Pool.Run ⟨tree, root, options, contents⟩
          (Pool.start ⟨tree, root, options, contents⟩ token now before?) s →
        Pool.Complete ⟨tree, root, options, contents⟩ s →
          ∃ outcome, s.caller = .ended outcome ∧
            Settled (linesOf (readOf contents files)) outcome) := by
  intro options
  refine ⟨fun reader r => ?_, fun hseveral contents => ?_⟩
  · obtain ⟨files, r₁, hdiscover, hnodup⟩ :=
      Selection.discover_gives lexers excludes includes languages
      10000 hscan.wellFormed hscan.usable reader r
    have hselected : (options.selection.discover tree root).Gives reader r files r₁ := hdiscover
    have hsettled := uncancelled_settled hselected hnodup rfl rfl rfl
    exact ⟨files, r₁, hselected, hnodup, fun g hg => locations_ne_nil hg, call_settled hsettled⟩
  · obtain ⟨files, r₁, hdiscover, hnodup⟩ :=
      Selection.discover_gives lexers excludes includes languages
      10000 hscan.wellFormed hscan.usable (fun _ => contents) {}
    have hselected : (options.selection.discover tree root).Gives (fun _ => contents) {} files r₁ :=
      hdiscover
    exact ⟨files, hselected.outcome_eq, Pool.wellFounded_step ⟨tree, root, options, contents⟩,
      fun _ _ _ _ => complete_settled hselected hnodup rfl hseveral rfl rfl⟩

theorem scannable_twins : twins.Scannable ['/'] where
  wellFormed := wellFormed_twins
  usable := by decide
  working := nofun
  nesting := by
    rw [walk_twins]
    simp
  rootLinks := fun more => by
    have hcomponents : Path.components ['/'] = [[], []] := by decide
    simp [hcomponents, Tree.resolve]
  fileLinks := by
    rw [walk_twins]
    simp

/-- One call that is cancelled at its third check, and two workers that nobody cancels. -/
theorem call_returns_or_cancelled_twins :
    twins.Scannable ['/'] ∧ (1 : Int) < 2 ∧
      (∃ files r₁, ((plainOptions cLexers [] [] [] 0 2).selection.discover twins ['/']).Gives
        twinsReader {} files r₁ ∧
        Settled (linesOf (readable twinsReader r₁.accesses files))
          (call (fun n => if n = 3 then some .requested else none) twinsReader twins ['/']
            ((plainOptions cLexers [] [] [] 0 2).withLeast .zero) none {}).result) ∧
      ∃ files s outcome,
        Pool.Run Pool.twinsSetup (Pool.start Pool.twinsSetup ⟨false, .zero, none⟩ .zero none) s ∧
        Pool.Complete Pool.twinsSetup s ∧ s.caller = .ended outcome ∧
          Settled (linesOf (readOf (twinsReader []) files)) outcome := by
  have hseveral : (1 : Int) < 2 := by decide
  obtain ⟨hcall, hpool⟩ := call_returns_or_cancelled scannable_twins cLexers [] [] [] .zero 0 2
  obtain ⟨files, r₁, hfiles, -, -, hsettled⟩ := hcall twinsReader {}
  obtain ⟨found, -, -, hended⟩ := hpool hseveral (twinsReader [])
  obtain ⟨s, hsteps, hcomplete⟩ :=
    Pool.exists_complete Pool.twinsSetup
      (Pool.start Pool.twinsSetup ⟨false, .zero, none⟩ .zero none)
  have hrun :
      Pool.Run Pool.twinsSetup (Pool.start Pool.twinsSetup ⟨false, .zero, none⟩ .zero none) s :=
    Relation.ReflTransGen.mono (fun _ _ => Pool.Turn.step) _ _ hsteps
  obtain ⟨outcome, hcaller, hfinal⟩ := hended _ _ _ s hrun hcomplete
  exact ⟨scannable_twins, hseveral, ⟨files, r₁, hfiles, hsettled _ none⟩, found, s, outcome, hrun,
    hcomplete, hcaller, hfinal⟩

/-- A root with a NUL character in it is no path, so the call neither returns nor is cancelled. -/
theorem call_fails_unusable :
    (call (fun _ => none) twinsReader twins "a\x00b".toList (plainOptions cLexers [] [] [] 0 1) none
      {}).result =
        .error (.fault .unusableRoot) ∧
      ¬ ((∃ findings,
        (call (fun _ => none) twinsReader twins "a\x00b".toList (plainOptions cLexers [] [] [] 0 1)
          none {}).result =
          .ok findings) ∨
        ∃ cause,
          (call (fun _ => none) twinsReader twins "a\x00b".toList
            (plainOptions cLexers [] [] [] 0 1) none {}).result =
          .error (.cancelled cause)) := by
  have hresult :
      (call (fun _ => none) twinsReader twins "a\x00b".toList (plainOptions cLexers [] [] [] 0 1)
        none {}).result =
      .error (.fault .unusableRoot) := rfl
  refine ⟨hresult, ?_⟩
  rw [hresult]
  rintro (⟨findings, hreturned⟩ | ⟨cause, hcancelled⟩)
  · cases hreturned
  · cases hcancelled

end Duplication

end CloneDetection
