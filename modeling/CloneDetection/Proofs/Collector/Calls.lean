import CloneDetection.Collector.Call
import CloneDetection.Proofs.Collector.Counts
import CloneDetection.Proofs.Collector.Pool
import CloneDetection.Proofs.Selection.Selected

/-!
# A call is cancelled as a whole or not at all

A collection checks before every step of its search, twice for every file that it finds, before
every digest of either index and once before it reports. A request that shows at one of these checks
ends the call there and leaves nothing behind; one that comes later changes nothing.
-/
namespace CloneDetection

/-- What a token finds that is cancelled just before its `k`-th check, when the clock shows
`clock n` at the `n`-th. -/
def Token.cancelledAt (token : Token) (clock : Nat → Double) (k : Nat) :
    Nat → Option Cancellation :=
  fun n => (if n < k then token else token.cancel).check (clock n)

theorem Token.cancelledAt_eq_none {token : Token} {clock : Nat → Double} {k : Nat}
    (hbefore : ∀ n, 0 < n → n < k → token.check (clock n) = none) (n : Nat) (hpos : 0 < n)
    (hlt : n < k) :
    token.cancelledAt clock k n = none := by
  rw [cancelledAt, if_pos hlt, hbefore n hpos hlt]

theorem Token.cancelledAt_self (token : Token) (clock : Nat → Double) (k : Nat) :
    token.cancelledAt clock k k = some .requested := by
  rw [cancelledAt, if_neg (Nat.lt_irrefl k)]
  rfl

def Options.withLeast (options : Options) (least : Double) : Options :=
  { options with minConfidence := .ok least }

namespace Duplication

section Count

variable {contents : Contents}

theorem checks_takeIn (state : Indexed) (file : SourceFile) (windows? : Option FileWindows) :
    (takeIn state file windows?).checks contents = 1 := by
  unfold takeIn
  rw [Scan.checks_checkpoint_bind, Nat.add_eq_right]
  cases windows? with
  | none => rfl
  | some windows =>
    apply Scan.checks_bind_eq_zero (Scan.checks_ofOption ..)
    intro exact
    apply Scan.checks_bind_eq_zero (Scan.checks_ofOption ..)
    intro blinded
    dsimp only
    split
    · rfl
    · rfl

theorem checks_indexFile (state : Indexed) (file : SourceFile) :
    (indexFile state file).checks contents = 2 := by
  obtain ⟨windows?, hhash⟩ := outcome_hashFile contents file
  rw [indexFile, Scan.checks_bind_of_ok hhash, checks_hashFile, checks_takeIn]

theorem findGroups_checks (contents : Contents) (form : NormalForm) {files : List ReadFile}
    (hnodup : (files.map ReadFile.path).Nodup) (near : Bool) :
    ((indexOf form files).findGroups near).outcome contents =
      .ok ((indexOf form files).groups near) ∧
      ((indexOf form files).findGroups near).checks contents =
        (digestsOf form files).toFinset.card := by
  have hgives := (filled_indexOf form files).coherent.findGroups_gives
    ((filled_indexOf form files).startsAscend fun _ _ h => h.pairwise_startLine) near
      (fun _ => contents) {}
  refine ⟨hgives.outcome_eq, ?_⟩
  have hchecks := hgives.checks_eq
  rw [size_buckets_indexOf hnodup] at hchecks
  exact (Nat.add_left_cancel hchecks).symm

theorem checks_conclude {files : List ReadFile} (hnodup : (files.map ReadFile.path).Nodup)
    (options : Options) :
    (conclude options (indexedOf files)).checks contents =
      (digestsOf .exact files).toFinset.card + (digestsOf .blinded files).toFinset.card + 1 := by
  obtain ⟨hexact, hexactChecks⟩ := findGroups_checks contents .exact hnodup false
  obtain ⟨hnear, hnearChecks⟩ := findGroups_checks contents .blinded hnodup true
  rw [conclude, indexedOf, Scan.checks_bind_of_ok hexact, Scan.checks_bind_of_ok hnear,
    Scan.checks_checkpoint_bind, Scan.checks_bind_eq_zero (Scan.checks_ofExcept ..), hexactChecks,
    hnearChecks, Nat.add_assoc]
  intro kept
  exact Scan.checks_bind_eq_zero (Scan.checks_ofExcept ..) fun maxFindings => rfl

def readOf (contents : Contents) (files : List SourceFile) : List ReadFile :=
  files.filterMap (read? (fun _ => contents) [])

theorem readable_eq_readOf (before : List Access) (files : List SourceFile) :
    readable (fun _ => contents) before files = readOf contents files := by
  induction files generalizing before with
  | nil => rfl
  | cons file rest ih =>
    rw [readable, ih]
    change (read? (fun _ => contents) [] file).toList ++ readOf contents rest =
      readOf contents (file :: rest)
    unfold readOf
    cases hread : read? (fun _ => contents) [] file with
    | none => simp [hread]
    | some file => simp [hread]

/-- A collection checks in its search, twice for every file, before every digest and once at the
end. -/
theorem checks_collect {tree : Tree} {root : Text} {options : Options} {files : List SourceFile}
    (hdiscover : (options.selection.discover tree root).outcome contents = .ok files)
    (hnodup : (files.map SourceFile.relative).Nodup) {workers : Int}
    (hworkers : options.workers = .ok workers) :
    (collect tree root options).checks contents =
      (options.selection.discover tree root).checks contents +
      2 * files.length + (digestsOf .exact (readOf contents files)).toFinset.card +
      (digestsOf .blinded (readOf contents files)).toFinset.card + 1 := by
  have hfresh : (([] : List ReadFile).map ReadFile.path ++ files.map SourceFile.relative).Nodup :=
    hnodup
  obtain ⟨r', hgives⟩ := indexFiles_gives files hfresh (fun _ => contents) {}
  rw [List.nil_append, readable_eq_readOf] at hgives
  have hscanned : ((readOf contents files).map ReadFile.path).Nodup := by
    rw [← readable_eq_readOf []]
    exact hnodup.sublist (map_path_readable ..)
  have hindex : (files.foldlM indexFile {}).outcome contents =
      .ok (indexedOf (readOf contents files)) :=
    hgives.outcome_eq
  change (options.selection.discover tree root >>= fun files => _).checks contents = _
  rw [Scan.checks_bind_of_ok hdiscover, Scan.checks_bind_of_ok (a := ()) rfl, Scan.checks_emit,
    hworkers, Scan.checks_bind_of_ok (a := workers) rfl, Scan.checks_ofExcept,
    Scan.checks_bind_of_ok hindex, Scan.checks_foldlM checks_indexFile hindex,
    checks_conclude hscanned]
  omega

end Count

section Cancelled

variable {tree : Tree} {root : Text} {options : Options} {reader : FileReader}
    {metrics? : Option Metrics} {r : Record}
  {token : Token} {clock : Nat → Double} {k : Nat}

theorem record_of (metrics? : Option Metrics)
    (run : Except Halt (List Finding × Metrics) × Record) :
    (Call.of metrics? run).record = run.2 := by
  rcases run with ⟨⟨halt⟩ | ⟨findings, metrics⟩, r⟩
  · rfl
  · rfl

theorem checks_call (contents : Contents) (options : Options) (metrics? : Option Metrics)
    (r : Record) :
    (call (fun _ => none) (fun _ => contents) tree root options metrics? r).record.checks =
      r.checks + (collect tree root options).checks contents := by
  rw [call, record_of]
  exact Scan.checks_uncancelled _ _

/-- A request that shows at a check ends the call there, without findings and with the metrics of
before. -/
theorem call_of_le (hbefore : ∀ n, 0 < n → n < k → token.check (clock n) = none) (hr : r.checks < k)
    (hk : k ≤ (call (fun _ => none) reader tree root options metrics? r).record.checks) :
    (call (token.cancelledAt clock k) reader tree root options metrics? r).record.checks = k ∧
      (call (token.cancelledAt clock k) reader tree root options metrics? r).result =
        .error (.cancelled .requested) ∧
      (call (token.cancelledAt clock k) reader tree root options metrics? r).metrics? =
        metrics? := by
  rw [call, record_of] at hk
  obtain ⟨r', hrun, hchecks⟩ := Scan.run_of_le_checks (Token.cancelledAt_eq_none hbefore)
    (token.cancelledAt_self clock k) (collect tree root options) r hr hk
  rw [call, hrun]
  exact ⟨hchecks, rfl, rfl⟩

/-- A request after the last check comes too late. -/
theorem call_of_lt (hbefore : ∀ n, 0 < n → n < k → token.check (clock n) = none)
    (hk : (call (fun _ => none) reader tree root options metrics? r).record.checks < k) :
    call (token.cancelledAt clock k) reader tree root options metrics? r =
      call (fun _ => none) reader tree root options metrics? r := by
  rw [call, record_of] at hk
  have hrun :=
    Scan.run_of_checks_lt (Token.cancelledAt_eq_none hbefore) (collect tree root options) r hk
  rw [call, hrun]
  rfl

/-- Cancellation is all or nothing. Without a pool, as long as nothing changes the files, a call
that nobody cancels makes a check for every directory and file that its search comes to, two for
every file that it finds, one for every digest of either index and one at the end. A request before
one of them ends the call at this check with the metrics that were there; after the last one it
changes nothing. -/
theorem call_whole_or_cancelled (htree : tree.top.WellFormed) (hroot : Path.isUsable root = true)
    (lexers : Lexers) (excludes includes languages : List Text) (least : Double) (maxFindings : Int)
    {workers : Int} (hworkers : workers ≤ 1) (contents : Contents) (metrics? : Option Metrics)
    (accesses : List Access) :
    let options :=
      (plainOptions lexers excludes includes languages maxFindings workers).withLeast least
    let setup : Pool.Setup := { tree, root, options, contents }
    let whole := call (fun _ => none) (fun _ => contents) tree root options metrics? { accesses }
    ∃ files r₁,
      (options.selection.discover tree root).Gives (fun _ => contents) { accesses } files r₁ ∧
      setup.share files = .closing (setup.index files {}) ∧
      whole.record.checks =
        (Selection.stepsBelow tree root lexers excludes includes languages contents 10000).length +
        2 * files.length + (digestsOf .exact (readOf contents files)).toFinset.card +
        (digestsOf .blinded (readOf contents files)).toFinset.card + 1 ∧
      ∀ (token : Token) (clock : Nat → Double) (k : Nat), 1 ≤ k →
        (∀ n, 0 < n → n < k → token.check (clock n) = none) →
        let cancelled :=
          call (token.cancelledAt clock k) (fun _ => contents) tree root options metrics?
            { accesses }
        (k ≤ whole.record.checks →
          cancelled.record.checks = k ∧ cancelled.result = .error (.cancelled .requested) ∧
            cancelled.metrics? = metrics?) ∧
        (whole.record.checks < k → cancelled = whole) := by
  intro options setup whole
  obtain ⟨files, r₁, hdiscover, hnodup⟩ :=
    Selection.discover_gives lexers excludes includes languages 10000 htree hroot
      (fun _ => contents) { accesses }
  have hselected : (options.selection.discover tree root).Gives (fun _ => contents) { accesses }
      files r₁ := hdiscover
  refine ⟨files, r₁, hselected, ?_, ?_, ?_⟩
  · exact if_pos (.inl hworkers)
  · have hsearch : (options.selection.discover tree root).checks contents =
        (Selection.stepsBelow tree root lexers excludes includes languages contents 10000).length :=
      (Selection.discover_yields tree hroot lexers excludes includes languages contents
        10000).checks_eq
    have hworkers : options.workers = .ok workers := rfl
    rw [checks_call, checks_collect hselected.outcome_eq hnodup hworkers, hsearch, Nat.zero_add]
  · intro token clock k hk hbefore
    exact ⟨call_of_le hbefore hk, call_of_lt hbefore⟩

theorem card_digestsOf_twins (form : NormalForm) : (digestsOf form (readOf (twinsReader [])
    [⟨"a.c".toList, "/a.c".toList⟩, ⟨"b.c".toList, "/b.c".toList⟩])).toFinset.card = 1 := by
  have hwindows : ∃ d, (windowsOf form (Content.lines sixLines)).map Window.digest = [d] := by
    rw [lines_sixLines]
    cases form with
    | exact => exact ⟨_, rfl⟩
    | blinded => exact ⟨_, rfl⟩
  obtain ⟨d, hd⟩ := hwindows
  have hdigests : digestsOf form (readOf (twinsReader [])
      [⟨"a.c".toList, "/a.c".toList⟩, ⟨"b.c".toList, "/b.c".toList⟩]) = [d, d] := by
    change (windowsOf form (Content.lines sixLines)).map Window.digest ++
      ((windowsOf form (Content.lines sixLines)).map Window.digest ++ []) = [d, d]
    rw [hd]
    rfl
  rw [hdigests]
  simp

/-- Three checks for the top directory and its files, two more for each of them, one for the digest
of either index and one at the end make ten. -/
theorem call_whole_or_cancelled_twins :
    twins.top.WellFormed ∧ Path.isUsable ['/'] = true ∧ (1 : Int) ≤ 1 ∧
      (∀ n, 0 < n → n < 11 → (Token.start .zero none).check .zero = none) ∧
      (call ((Token.start .zero none).cancelledAt (fun _ => .zero) 10) twinsReader twins ['/']
        ((plainOptions cLexers [] [] [] 0 1).withLeast .zero) none {}).result =
          .error (.cancelled .requested) ∧
      call ((Token.start .zero none).cancelledAt (fun _ => .zero) 11) twinsReader twins ['/']
          ((plainOptions cLexers [] [] [] 0 1).withLeast .zero) none {} =
        call (fun _ => none) twinsReader twins ['/']
          ((plainOptions cLexers [] [] [] 0 1).withLeast .zero) none {} := by
  have hroot : Path.isUsable ['/'] = true := by decide
  have hnone (n : Nat) : (Token.start .zero none).check .zero = none := rfl
  obtain ⟨files, r₁, hfiles, -, hchecks, hcancel⟩ :=
    call_whole_or_cancelled wellFormed_twins hroot cLexers [] [] [] .zero 0
    (Int.le_refl 1) (twinsReader []) none []
  obtain ⟨_, hknown⟩ := discover_twins
  have hsame := hfiles.unique hknown
  subst hsame
  have hsteps : (Selection.stepsBelow twins ['/'] cLexers [] [] [] (twinsReader []) 10000).length =
      3 := by
    rw [Selection.stepsBelow, Tree.visits, walk_twins, Selection.taken_eq_self (by decide)]
    rfl
  rw [hsteps, card_digestsOf_twins, card_digestsOf_twins] at hchecks
  have hten :
      (call (fun _ => none) twinsReader twins ['/']
        ((plainOptions cLexers [] [] [] 0 1).withLeast .zero) none
      {}).record.checks = 10 := hchecks
  refine ⟨wellFormed_twins, hroot, Int.le_refl 1, fun n _ _ => hnone n, ?_, ?_⟩
  · exact ((hcancel (Token.start .zero none) (fun _ => .zero) 10 (by omega) fun n _ _ => hnone n).1
      (Nat.le_of_eq hten.symm)).2.1
  · exact (hcancel (Token.start .zero none) (fun _ => .zero) 11 (by omega) fun n _ _ => hnone n).2
      (hten ▸ Nat.lt_succ_self 10)

end Cancelled

end Duplication

end CloneDetection
