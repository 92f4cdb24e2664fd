import CloneDetection.Proofs.Collector.CopiedPair
import CloneDetection.Proofs.Collector.Progress
import CloneDetection.Proofs.Scan.Cancellation

/-!
# Every schedule of a pool agrees with no pool

Whatever the workers do, a job is in the middle of hashing its file, and what is left to the caller
is what is left of the collection without a pool once the messages so far are out. Hashing gives no
progress message, so it does not matter when it is done. Jobs fail only by cancellation, and a
cancelled token stays cancelled; so a caller that has ended has the result of the collection without
a pool, or was cancelled.
-/
namespace CloneDetection

namespace Duplication

namespace Pool

/-- How a job stands to the hashing of its file. A job fails only by cancellation, and is withdrawn
only once the caller has failed. -/
def Job.Sound (contents : Contents) (s : System) (job : Job) : Prop :=
  match job.status with
  | .queued => True
  | .running rest => Scan.Continues contents (hashFile job.file) [] rest
  | .finished (.ok windows?) => Scan.Continues contents (hashFile job.file) [] (.done windows?)
  | .finished (.error halt) => s.isCancelled = true ∧ ∃ cause, halt = .cancelled cause
  | .withdrawn => s.caller.HasFailed

namespace System

variable (setup : Setup) (before? : Option Metrics) (s : System)

/-- No metrics are left yet, and this scan is what is left of the collection without a pool. -/
def Left (rest : Scan (List Finding × Metrics)) : Prop :=
  s.metrics? = before? ∧
  Scan.Continues setup.contents setup.sequential (Event.messages s.events) rest

/-- The collection without a pool fails as well, or it is cancelled. -/
def Failed : Halt → Prop
  | .fault e => s.Left setup before? (.fail e)
  | .cancelled _ => s.metrics? = before? ∧ s.isCancelled = true

/-- The caller is where the collection without a pool comes by, or has failed. -/
def OnTrack : Prop :=
  match s.caller with
  | .selecting rest => s.files = [] ∧
      s.Left setup before? (rest >>= fun files => setup.index files {})
  | .submitting todo => s.Left setup before? (setup.index (s.files ++ todo) {})
  | .awaiting taken state => s.Left setup before? (setup.index (s.files.drop taken) state)
  | .taking taken rest => s.Left setup before? (rest >>= setup.index (s.files.drop taken))
  | .closing rest => s.Left setup before? rest
  | .leaving halt => s.Failed setup before? halt
  | .ended (.error halt) => s.Failed setup before? halt
  | .ended (.ok findings) => ∃ metrics, s.metrics? = some metrics ∧
    Scan.Continues setup.contents setup.sequential (Event.messages s.events)
      (.done (findings, metrics))

/-- What every schedule keeps. -/
structure Sound : Prop where
  onTrack : s.OnTrack setup before?
  jobs : ∀ job ∈ s.jobs, job.Sound setup.contents s

end System

variable {setup : Setup} {before? : Option Metrics} {s t : System}

theorem index_cons (file : SourceFile) (rest : List SourceFile) (state : Indexed) :
    setup.index (file :: rest) state =
      hashFile file >>= fun windows? => takeIn state file windows? >>= setup.index rest := by
  simp only [Setup.index, List.foldlM_cons, indexFile, bind_assoc]
  rfl

section Jobs

variable {file : SourceFile} {rest rest' : Scan (Option FileWindows)} {event? : Option Event}
  {result : Except Halt (Option FileWindows)}

theorem Job.Sound.continues_pure (h : Job.Sound setup.contents s ⟨file, .running rest⟩) :
    Scan.Continues setup.contents (hashFile file) [] (rest >>= pure) := by
  rw [bind_pure]
  exact h

theorem Job.Sound.messages_eq (h : Job.Sound setup.contents s ⟨file, .running rest⟩)
    (hmove : rest.move setup.contents s.signal? = .goes event? rest') :
    Event.messages event?.toList = [] := by
  have hrest := h.continues_pure.move_bind s.signal?
  rw [hmove] at hrest
  have hall := hrest.messages_eq
  rw [messages_hashFile, List.nil_append, List.append_eq_nil_iff] at hall
  exact hall.1

theorem Job.Sound.goes (h : Job.Sound setup.contents s ⟨file, .running rest⟩)
    (hmove : rest.move setup.contents s.signal? = .goes event? rest') :
    Job.Sound setup.contents t ⟨file, .running rest'⟩ := by
  have hrest := h.continues_pure.move_bind s.signal?
  rw [hmove] at hrest
  dsimp only at hrest
  rw [h.messages_eq hmove, bind_pure] at hrest
  exact hrest

theorem Job.Sound.ends (h : Job.Sound setup.contents s ⟨file, .running rest⟩)
    (hmove : rest.move setup.contents s.signal? = .ends result)
    (hcancelled : t.isCancelled = s.isCancelled) :
    Job.Sound setup.contents t ⟨file, .finished result⟩ := by
  have hend := h.continues_pure.move_bind s.signal?
  rw [hmove] at hend
  match result with
  | .ok windows? => exact hend
  | .error (.cancelled cause) =>
    exact ⟨hcancelled.trans (Token.isCancelled_of_check hend), cause, rfl⟩
  | .error (.fault e) =>
    obtain ⟨windows?, hok⟩ := outcome_hashFile setup.contents file
    have hfault := hend.outcome_eq
    rw [hok] at hfault
    cases hfault

theorem Job.Sound.mono {job : Job} (h : job.Sound setup.contents s)
    (hcancelled : s.isCancelled = true → t.isCancelled = true)
    (hfailed : s.caller.HasFailed → t.caller.HasFailed) :
    job.Sound setup.contents t := by
  obtain ⟨file, status⟩ := job
  match status with
  | .queued => trivial
  | .running rest => exact h
  | .finished (.ok windows?) => exact h
  | .finished (.error halt) => exact ⟨hcancelled h.1, h.2⟩
  | .withdrawn => exact hfailed h

end Jobs

section Steps

theorem Step.isCancelled_eq (h : Step setup s t) : t.isCancelled = s.isCancelled := by
  cases h with
  | select | index | conclude =>
    apply System.advance_induct (P := fun t => t.isCancelled = s.isCancelled)
    · exact fun _ _ _ => rfl
    · exact fun _ _ => rfl
    · exact fun _ _ => rfl
  | submit | await | take | stop | close | leave | start | work | settle | withdraw => rfl

theorem Step.hasFailed (h : Step setup s t) (hfailed : s.caller.HasFailed) :
    t.caller.HasFailed := by
  cases h with
  | select hcaller | index hcaller | conclude hcaller | submit hcaller | await hcaller
  | take hcaller | stop hcaller | close hcaller => simp [hcaller, Caller.HasFailed] at hfailed
  | leave => trivial
  | start | work | settle | withdraw => exact hfailed

theorem mem_of_jobs_eq {before after : List Job} {job : Job}
    (hjobs : s.jobs = before ++ job :: after) :
    job ∈ s.jobs := by
  rw [hjobs]
  exact List.mem_append_right _ List.mem_cons_self

theorem mem_or_eq_of_mem {before after : List Job} {old new job : Job}
    (hjobs : s.jobs = before ++ old :: after) (h : job ∈ before ++ new :: after) :
    job ∈ s.jobs ∨ job = new := by
  rw [hjobs]
  simp only [List.mem_append, List.mem_cons] at h ⊢
  obtain hbefore | rfl | hafter := h
  · exact .inl (.inl hbefore)
  · exact .inr rfl
  · exact .inl (.inr (.inr hafter))

theorem Step.mem_jobs (h : Step setup s t) (hs : ∀ job ∈ s.jobs, job.Sound setup.contents s)
    {job : Job} (hjob : job ∈ t.jobs) : job ∈ s.jobs ∨ job.Sound setup.contents t := by
  have hcancelled := h.isCancelled_eq
  cases h with
  | select | index | conclude =>
    left
    revert hjob
    apply System.advance_induct (P := fun t => job ∈ t.jobs → job ∈ s.jobs)
    · exact fun _ _ _ => id
    · exact fun _ _ => id
    · exact fun _ _ => id
  | await | take | stop | close | leave => exact .inl hjob
  | submit =>
    obtain hold | hnew := List.mem_append.1 hjob
    · exact .inl hold
    · rw [List.mem_singleton.1 hnew]
      exact .inr trivial
  | start hjobs =>
    obtain hold | rfl := mem_or_eq_of_mem hjobs hjob
    · exact .inl hold
    · exact .inr (.refl _)
  | work hjobs hmove =>
    obtain hold | rfl := mem_or_eq_of_mem hjobs hjob
    · exact .inl hold
    · exact .inr ((hs _ (mem_of_jobs_eq hjobs)).goes hmove)
  | settle hjobs hmove =>
    obtain hold | rfl := mem_or_eq_of_mem hjobs hjob
    · exact .inl hold
    · exact .inr ((hs _ (mem_of_jobs_eq hjobs)).ends hmove hcancelled)
  | withdraw hcaller hjobs =>
    obtain hold | rfl := mem_or_eq_of_mem hjobs hjob
    · exact .inl hold
    · right
      simp [Job.Sound, hcaller, Caller.HasFailed]

/-- Being on track depends on the jobs only through their files, and on the events only through
their messages. -/
theorem onTrack_congr (h : s.OnTrack setup before?) (hcaller : t.caller = s.caller)
    (hfiles : t.files = s.files) (hmessages : Event.messages t.events = Event.messages s.events)
    (hmetrics : t.metrics? = s.metrics?)
    (hcancelled : s.isCancelled = true → t.isCancelled = true) : t.OnTrack setup before? := by
  have hleft {rest : Scan (List Finding × Metrics)} (h : s.Left setup before? rest) :
      t.Left setup before? rest :=
    ⟨hmetrics.trans h.1, hmessages ▸ h.2⟩
  have hfailed {halt : Halt} (h : s.Failed setup before? halt) : t.Failed setup before? halt := by
    cases halt with
    | fault e => exact hleft h
    | cancelled cause => exact ⟨hmetrics.trans h.1, hcancelled h.2⟩
  rw [System.OnTrack] at h ⊢
  rw [hcaller, hfiles]
  match s.caller, h with
  | .selecting rest, h => exact ⟨h.1, hleft h.2⟩
  | .submitting todo, h => exact hleft h
  | .awaiting taken state, h => exact hleft h
  | .taking taken rest, h => exact hleft h
  | .closing rest, h => exact hleft h
  | .leaving halt, h => exact hfailed h
  | .ended (.error halt), h => exact hfailed h
  | .ended (.ok findings), h => rwa [hmetrics, hmessages]

/-- A move of the caller keeps it on track if what it stays in and what comes next are on track. -/
theorem onTrack_advance {α : Type} {rest : Scan α} {f : α → Scan (List Finding × Metrics)}
    {stay : Scan α → Caller} {next : α → System} (h : s.Left setup before? (rest >>= f))
    (hstay : ∀ (events : List Event) (rest' : Scan α),
      System.Left setup before? { s with events := events, caller := stay rest' } (rest' >>= f) →
      System.OnTrack setup before? { s with events := events, caller := stay rest' })
    (hnext : ∀ a, s.Left setup before? (f a) → (next a).OnTrack setup before?) :
    (s.advance setup rest stay next).OnTrack setup before? := by
  have hmove_bind := h.2.move_bind s.signal?
  apply System.advance_induct
  · intro event? rest' hmove
    rw [hmove] at hmove_bind
    apply hstay
    refine ⟨h.1, ?_⟩
    rw [Event.messages_append]
    exact hmove_bind
  · intro a hmove
    rw [hmove] at hmove_bind
    exact hnext a ⟨h.1, hmove_bind⟩
  · intro halt hmove
    rw [hmove] at hmove_bind
    cases halt with
    | fault e => exact ⟨h.1, hmove_bind⟩
    | cancelled cause => exact ⟨h.1, Token.isCancelled_of_check hmove_bind⟩

theorem files_eq_of_jobs {before after : List Job} {file : SourceFile} {status status' : Status}
    (hjobs : s.jobs = before ++ ⟨file, status⟩ :: after) {events : List Event} :
    System.files { s with events := events, jobs := before ++ ⟨file, status'⟩ :: after } =
      s.files := by
  simp [System.files, hjobs]

theorem Step.onTrack {workers : Int} (hworkers : setup.options.workers = .ok workers)
    (h : Step setup s t) (hs : s.Sound setup before?) : t.OnTrack setup before? := by
  have htrack := hs.onTrack
  rw [System.OnTrack] at htrack
  cases h with
  | select hcaller =>
    rw [hcaller] at htrack
    obtain ⟨hfiles, hleft⟩ := htrack
    apply onTrack_advance hleft
    · exact fun _ _ h => ⟨hfiles, h⟩
    · intro files h
      rw [System.OnTrack, Setup.share, hworkers]
      by_cases hfew : workers ≤ 1 ∨ files.length ≤ 1
      · simp only [hfew, if_true]
        exact h
      · simp only [hfew, if_false]
        rw [← List.nil_append files, ← hfiles] at h
        exact h
  | @submit file todo hcaller =>
    rw [hcaller] at htrack
    have hfiles :
        System.files { s with jobs := s.jobs ++ [⟨file, .queued⟩], caller := .submitting todo } ++
          todo = s.files ++ file :: todo := by simp [System.files]
    rw [System.OnTrack]
    dsimp only
    rw [hfiles]
    exact htrack
  | await hcaller =>
    rw [hcaller] at htrack
    dsimp only at htrack
    rw [List.append_nil] at htrack
    exact htrack
  | @take taken state file windows? hcaller hjob =>
    rw [hcaller] at htrack
    dsimp only at htrack
    have hfile : s.files[taken]? = some file := by simp [System.files, hjob]
    obtain ⟨hlt, hget⟩ := List.getElem?_eq_some_iff.1 hfile
    rw [List.drop_eq_getElem_cons hlt, hget, index_cons] at htrack
    -- Hashing the file is all that stands between the two scans, and the job has done it without a
    -- message.
    have hhashed : Job.Sound setup.contents s ⟨file, .finished (.ok windows?)⟩ :=
      hs.jobs _ (List.mem_of_getElem? hjob)
    exact ⟨htrack.1, htrack.2.of_done hhashed⟩
  | @stop taken state file halt hcaller hjob =>
    rw [hcaller] at htrack
    have hhashed : Job.Sound setup.contents s ⟨file, .finished (.error halt)⟩ :=
      hs.jobs _ (List.mem_of_getElem? hjob)
    obtain ⟨hcancelled, cause, rfl⟩ := hhashed
    exact ⟨htrack.1, hcancelled⟩
  | index hcaller =>
    rw [hcaller] at htrack
    exact onTrack_advance htrack (fun _ _ h => h) fun _ h => h
  | close hcaller hlast =>
    rw [hcaller] at htrack
    dsimp only at htrack
    rw [List.drop_eq_nil_of_le (by simpa [System.files] using hlast)] at htrack
    exact htrack
  | @conclude rest hcaller =>
    rw [hcaller] at htrack
    dsimp only at htrack
    rw [← bind_pure rest] at htrack
    exact onTrack_advance htrack (fun _ _ h => by rwa [bind_pure] at h) fun result h =>
      ⟨result.2, rfl, h.2⟩
  | leave hcaller =>
    rw [hcaller] at htrack
    exact htrack
  | start hjobs => exact onTrack_congr hs.onTrack rfl (files_eq_of_jobs hjobs) rfl rfl id
  | work hjobs hmove =>
    refine onTrack_congr hs.onTrack rfl (files_eq_of_jobs hjobs) ?_ rfl id
    rw [Event.messages_append, (hs.jobs _ (mem_of_jobs_eq hjobs)).messages_eq hmove,
      List.append_nil]
  | settle hjobs => exact onTrack_congr hs.onTrack rfl (files_eq_of_jobs hjobs) rfl rfl id
  | withdraw _ hjobs => exact onTrack_congr hs.onTrack rfl (files_eq_of_jobs hjobs) rfl rfl id

theorem Turn.sound {workers : Int} (hworkers : setup.options.workers = .ok workers)
    (h : Turn setup s t) (hs : s.Sound setup before?) : t.Sound setup before? := by
  cases h with
  | step h =>
    refine ⟨h.onTrack hworkers hs, fun job hjob => ?_⟩
    obtain hold | hsound := h.mem_jobs hs.jobs hjob
    · apply (hs.jobs job hold).mono
      · rw [h.isCancelled_eq]
        exact id
      · exact h.hasFailed
    · exact hsound
  | cancel =>
    have hcancelled : s.token.cancel.isCancelled s.now = true := Token.isCancelled_cancel _ _
    exact ⟨onTrack_congr hs.onTrack rfl rfl rfl rfl fun _ => hcancelled,
      fun job hjob => (hs.jobs job hjob).mono (fun _ => hcancelled) id⟩
  | @pass later hle =>
    have hcancelled (h : s.isCancelled = true) : s.token.isCancelled later = true :=
      Token.isCancelled_of_le h hle
    exact ⟨onTrack_congr hs.onTrack rfl rfl rfl rfl hcancelled,
      fun job hjob => (hs.jobs job hjob).mono hcancelled id⟩

theorem sound_start (setup : Setup) (token : Token) (now : Double) (before? : Option Metrics) :
    (start setup token now before?).Sound setup before? := by
  refine ⟨⟨rfl, rfl, ?_⟩, fun job hjob => nomatch hjob⟩
  rw [← Setup.sequential_eq]
  exact .refl _

theorem Run.sound {workers : Int} (hworkers : setup.options.workers = .ok workers)
    (h : Run setup s t) (hs : s.Sound setup before?) : t.Sound setup before? := by
  induction h with
  | refl => exact hs
  | tail _ hturn ih => exact hturn.sound hworkers ih

end Steps

section Result

/-- Where nothing is left but to fail or to return, the result is that of the collection without a
pool. -/
theorem agrees_of_continues {rest : Scan (List Finding × Metrics)}
    (result : Except Halt (List Finding × Metrics))
    (h : Scan.Continues setup.contents setup.sequential (Event.messages s.events) rest)
    (hresult : rest.outcome setup.contents = result) (hsilent : rest.messages setup.contents = [])
    (hcaller : s.caller = .ended (result.map Prod.fst))
    (hmetrics : s.metrics? = (result.toOption.map Prod.snd).or before?) :
    s.Agrees before? (setup.sequential.uncancelled (fun _ => setup.contents) {}) := by
  obtain ⟨r, hrun, hmessages⟩ := setup.sequential.uncancelled_eq setup.contents {}
  have houtcome : setup.sequential.outcome setup.contents = result :=
    h.outcome_eq.symm.trans hresult
  rw [hrun, houtcome]
  refine ⟨hcaller, hmetrics, ?_⟩
  dsimp only
  rw [hmessages, ← h.messages_eq, hsilent, List.append_nil]
  rfl

theorem System.Sound.agrees_or_aborted (hs : s.Sound setup before?)
    {outcome : Except Halt (List Finding)} (hended : s.caller = .ended outcome) :
    s.Agrees before? (setup.sequential.uncancelled (fun _ => setup.contents) {}) ∨
      s.Aborted before? ∧ s.isCancelled = true := by
  have htrack := hs.onTrack
  rw [System.OnTrack, hended] at htrack
  match outcome, htrack with
  | .ok findings, ⟨metrics, hmetrics, hrest⟩ =>
    exact .inl (agrees_of_continues (.ok (findings, metrics)) hrest rfl rfl hended hmetrics)
  | .error (.fault e), ⟨hmetrics, hrest⟩ =>
    exact .inl (agrees_of_continues (.error (.fault e)) hrest rfl rfl hended hmetrics)
  | .error (.cancelled cause), ⟨hmetrics, hcancelled⟩ =>
    exact .inr ⟨⟨⟨cause, hended⟩, hmetrics⟩, hcancelled⟩

/-- With several workers, every complete run of a collection ends with the findings, the metrics and
the progress messages of the uncancelled collection without a pool, or for a cancellation and with
the metrics from before. If the token is not cancelled in the end, and so never was, it is the
former. -/
theorem complete_run_agrees {setup : Setup} {workers : Int}
    (hworkers : setup.options.workers = .ok workers) (hseveral : 1 < workers) {token : Token}
    {now : Double} {before? : Option Metrics} {s : System}
    (hrun : Run setup (start setup token now before?) s) (hcomplete : Complete setup s) :
    (s.Agrees before? (setup.sequential.uncancelled (fun _ => setup.contents) {}) ∨
      s.Aborted before?) ∧
      (s.isCancelled = false →
        s.Agrees before? (setup.sequential.uncancelled (fun _ => setup.contents) {})) := by
  have hs : s.Sound setup before? := hrun.sound hworkers (sound_start setup token now before?)
  have hwithdrawn : ∀ job ∈ s.jobs, job.status = .withdrawn → s.caller.HasFailed := by
    intro job hjob hstatus
    have hsound := hs.jobs job hjob
    rwa [Job.Sound, hstatus] at hsound
  obtain ⟨outcome, hended⟩ := hcomplete.exists_ended hworkers (by omega) hwithdrawn
  obtain hagrees | ⟨haborted, hcancelled⟩ := hs.agrees_or_aborted hended
  · exact ⟨.inl hagrees, fun _ => hagrees⟩
  · refine ⟨.inr haborted, fun hnot => ?_⟩
    rw [hnot] at hcancelled
    cases hcancelled

def twinsSetup : Setup where
  tree := twins
  root := ['/']
  options := plainOptions cLexers [] [] [] 0 2
  contents := twinsReader []

theorem isCancelled_of_steps (h : Relation.ReflTransGen (Step setup) s t) :
    t.isCancelled = s.isCancelled := by
  induction h with
  | refl => rfl
  | tail _ hstep ih => exact hstep.isCancelled_eq.trans ih

theorem complete_run_agrees_twins :
    ∃ s, Run twinsSetup (start twinsSetup ⟨false, .zero, none⟩ .zero none) s ∧
      Complete twinsSetup s ∧
      s.Agrees none (twinsSetup.sequential.uncancelled (fun _ => twinsSetup.contents) {}) := by
  obtain ⟨s, hsteps, hcomplete⟩ :=
    exists_complete twinsSetup (start twinsSetup ⟨false, .zero, none⟩ .zero none)
  have hrun : Run twinsSetup (start twinsSetup ⟨false, .zero, none⟩ .zero none) s :=
    Relation.ReflTransGen.mono (fun _ _ => Turn.step) _ _ hsteps
  have hcancelled : s.isCancelled = false := (isCancelled_of_steps hsteps).trans rfl
  exact ⟨s, hrun, hcomplete, (complete_run_agrees rfl (by decide : (1 : Int) < 2) hrun hcomplete).2
    hcancelled⟩

end Result

end Pool

end Duplication

end CloneDetection
