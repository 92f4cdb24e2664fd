import CloneDetection.Proofs.Collector.Pool
import Mathlib

/-!
# A pool always comes to an end

Every step lowers the rank of the system: the phase of the caller, then the results that it still
waits for, then the moves that are left to the caller and to the jobs. So no schedule goes on for
ever. It does not get stuck either: as long as the caller has not ended, the caller or a worker can
take a step.
-/
namespace CloneDetection

namespace Duplication

namespace Pool

def Caller.HasFailed : Caller → Prop
  | .leaving _ | .ended (.error _) => True
  | _ => False

/-- The moves that a job has left, one more for its start. -/
def Job.load (contents : Contents) (job : Job) : Nat :=
  match job.status with
  | .queued => (hashFile job.file).moves contents + 1
  | .running rest => rest.moves contents
  | .finished _ | .withdrawn => 0

namespace System

variable (setup : Setup) (s : System)

def phase : Nat :=
  match s.caller with
  | .selecting _ => 5
  | .submitting _ => 4
  | .awaiting _ _ | .taking _ _ => 3
  | .closing _ => 2
  | .leaving _ => 1
  | .ended _ => 0

/-- The files that the caller has still to submit, later twice those that it has still to take and
one more while it is taking one. -/
def pending : Nat :=
  match s.caller with
  | .submitting todo => todo.length
  | .awaiting taken _ => 2 * (s.jobs.length - taken)
  | .taking taken _ => 2 * (s.jobs.length - taken) + 1
  | _ => 0

def callerMoves : Nat :=
  match s.caller with
  | .selecting rest => rest.moves setup.contents
  | .taking _ rest => rest.moves setup.contents
  | .closing rest => rest.moves setup.contents
  | _ => 0

def work : Nat :=
  s.callerMoves setup + (s.jobs.map (Job.load setup.contents)).sum

def rank : Nat ×ₗ Nat ×ₗ Nat :=
  toLex (s.phase, toLex (s.pending, s.work setup))

end System

variable {setup : Setup} {s t : System}

section Rank

theorem rank_lt_of_phase (h : t.phase < s.phase) : t.rank setup < s.rank setup :=
  Prod.Lex.toLex_lt_toLex.2 (.inl h)

theorem rank_lt_of_pending (hphase : t.phase = s.phase) (h : t.pending < s.pending) :
    t.rank setup < s.rank setup :=
  Prod.Lex.toLex_lt_toLex.2 (.inr ⟨hphase, Prod.Lex.toLex_lt_toLex.2 (.inl h)⟩)

theorem rank_lt_of_work (hphase : t.phase = s.phase) (hpending : t.pending = s.pending)
    (h : t.work setup < s.work setup) : t.rank setup < s.rank setup :=
  Prod.Lex.toLex_lt_toLex.2 (.inr ⟨hphase, Prod.Lex.toLex_lt_toLex.2 (.inr ⟨hpending, h⟩)⟩)

/-- A move of the caller lowers the rank if staying in the scan changes no more than the moves that
are left, and if what comes after the scan has a lower rank. -/
theorem rank_advance {α : Type} {rest : Scan α} {stay : Scan α → Caller} {next : α → System}
    (hphase : 1 < s.phase) (hcaller : s.caller = stay rest)
    (hstay : ∀ (events : List Event) (rest' : Scan α),
      let t : System := { s with events := events, caller := stay rest' }
      t.phase = s.phase ∧ t.pending = s.pending ∧
        t.callerMoves setup = rest'.moves setup.contents)
    (hnext : ∀ a, (next a).rank setup < s.rank setup) :
    (s.advance setup rest stay next).rank setup < s.rank setup := by
  apply System.advance_induct (P := fun t => t.rank setup < s.rank setup)
  · intro event? rest' hmove
    obtain ⟨hphase, hpending, hmoves⟩ := hstay (event?.toList ++ s.events) rest'
    apply rank_lt_of_work hphase hpending
    have hbefore : s.callerMoves setup = rest.moves setup.contents := by
      have hsame := (hstay s.events rest).2.2
      rw [← hcaller] at hsame
      exact hsame
    rw [System.work, System.work, hmoves, hbefore]
    exact Nat.add_lt_add_right (Scan.moves_of_move hmove) _
  · intro a _
    exact hnext a
  · intro halt _
    exact rank_lt_of_phase hphase

theorem rank_lt_of_load {before after : List Job} {job job' : Job} {events : List Event}
    (hjobs : s.jobs = before ++ job :: after)
    (h : job'.load setup.contents < job.load setup.contents) :
    System.rank setup { s with events := events, jobs := before ++ job' :: after } <
      s.rank setup := by
  apply rank_lt_of_work
  · rfl
  · simp [System.pending, hjobs]
  · simp only [System.work, System.callerMoves, hjobs, List.map_append, List.map_cons,
      List.sum_append, List.sum_cons]
    omega

theorem rank_share (hcaller : 4 < s.phase) (files : List SourceFile) :
    System.rank setup { s with caller := setup.share files } < s.rank setup := by
  apply rank_lt_of_phase
  apply Nat.lt_of_le_of_lt _ hcaller
  rw [System.phase, Setup.share]
  cases setup.options.workers with
  | error fault => exact (by decide : 1 ≤ 4)
  | ok workers =>
    by_cases hfew : workers ≤ 1 ∨ files.length ≤ 1
    · simp [hfew]
    · simp [hfew]

theorem Step.rank_lt (h : Step setup s t) : t.rank setup < s.rank setup := by
  cases h with
  | select hcaller =>
    apply rank_advance
    · simp [System.phase, hcaller]
    · exact hcaller
    · simp [System.phase, System.pending, System.callerMoves, hcaller]
    · apply rank_share
      simp [System.phase, hcaller]
  | submit hcaller =>
    apply rank_lt_of_pending
    · simp [System.phase, hcaller]
    · simp [System.pending, hcaller]
  | await hcaller =>
    apply rank_lt_of_phase
    simp [System.phase, hcaller]
  | take hcaller hjob =>
    have hlt := (List.getElem?_eq_some_iff.1 hjob).1
    apply rank_lt_of_pending
    · simp [System.phase, hcaller]
    · simp only [System.pending, hcaller]
      omega
  | stop hcaller =>
    apply rank_lt_of_phase
    simp [System.phase, hcaller]
  | index hcaller =>
    apply rank_advance
    · simp [System.phase, hcaller]
    · exact hcaller
    · simp [System.phase, System.pending, System.callerMoves, hcaller]
    · intro state
      apply rank_lt_of_pending
      · simp [System.phase, hcaller]
      · simp [System.pending, hcaller]
  | close hcaller =>
    apply rank_lt_of_phase
    simp [System.phase, hcaller]
  | conclude hcaller =>
    apply rank_advance
    · simp [System.phase, hcaller]
    · exact hcaller
    · simp [System.phase, System.pending, System.callerMoves, hcaller]
    · intro result
      apply rank_lt_of_phase
      simp [System.phase, System.finish, hcaller]
  | leave hcaller =>
    apply rank_lt_of_phase
    simp [System.phase, hcaller]
  | start hjobs => exact rank_lt_of_load hjobs (Nat.lt_succ_self _)
  | work hjobs hmove => exact rank_lt_of_load hjobs (Scan.moves_of_move hmove)
  | settle hjobs => exact rank_lt_of_load hjobs (Scan.moves_pos _)
  | withdraw _ hjobs => exact rank_lt_of_load hjobs (Nat.succ_pos _)

/-- No schedule goes on for ever. -/
theorem wellFounded_step (setup : Setup) : WellFounded fun t s => Step setup s t :=
  Subrelation.wf Step.rank_lt (InvImage.wf (System.rank setup) wellFounded_lt)

theorem exists_complete (setup : Setup) (s : System) :
    ∃ t, Relation.ReflTransGen (Step setup) s t ∧ Complete setup t := by
  induction s using (wellFounded_step setup).induction with
  | _ s ih =>
    by_cases hcomplete : Complete setup s
    · exact ⟨s, .refl, hcomplete⟩
    · simp only [Complete, not_forall, not_not] at hcomplete
      obtain ⟨u, hstep⟩ := hcomplete
      obtain ⟨t, hrun, hdone⟩ := ih u hstep
      exact ⟨t, .head hstep hrun, hdone⟩

end Rank

section Deadlock

theorem exists_step_of_running (h : 0 < s.busy) : ∃ t, Step setup s t := by
  obtain ⟨⟨file, status⟩, hjob, hrunning⟩ := List.countP_pos_iff.1 h
  obtain ⟨before, after, hjobs⟩ := List.append_of_mem hjob
  cases status with
  | running rest =>
    cases hmove : rest.move setup.contents s.signal? with
    | goes event? rest' => exact ⟨_, .work hjobs hmove⟩
    | ends result => exact ⟨_, .settle hjobs hmove⟩
  | queued | finished _ | withdrawn => cases hrunning

/-- As long as a job has not settled, a worker can take a step. -/
theorem exists_step_of_not_idle {workers : Int} (hworkers : setup.options.workers = .ok workers)
    (hpos : 0 < workers) (h : ¬ s.Idle) : ∃ t, Step setup s t := by
  by_cases hbusy : 0 < s.busy
  · exact exists_step_of_running hbusy
  · have hnone : s.busy = 0 := Nat.eq_zero_of_not_pos hbusy
    simp only [System.Idle, not_forall] at h
    obtain ⟨⟨file, status⟩, hjob, hsettled⟩ := h
    cases status with
    | queued =>
      obtain ⟨before, after, hjobs⟩ := List.append_of_mem hjob
      exact ⟨_, .start hjobs hworkers (by rw [hnone]; exact hpos)⟩
    | running rest => exact absurd rfl (List.countP_eq_zero.1 hnone _ hjob)
    | finished _ | withdrawn => exact absurd rfl hsettled

/-- Where nothing more can happen the caller has ended, if jobs are withdrawn only once it has
failed. -/
theorem Complete.exists_ended {workers : Int} (h : Complete setup s)
    (hworkers : setup.options.workers = .ok workers) (hpos : 0 < workers)
    (hwithdrawn : ∀ job ∈ s.jobs, job.status = .withdrawn → s.caller.HasFailed) :
    ∃ result, s.caller = .ended result := by
  have hidle : s.Idle := by
    by_contra hidle
    obtain ⟨t, hstep⟩ := exists_step_of_not_idle hworkers hpos hidle
    exact h t hstep
  cases hcaller : s.caller with
  | selecting rest => exact absurd (.select hcaller) (h _)
  | submitting todo =>
    cases todo with
    | nil => exact absurd (.await hcaller) (h _)
    | cons file todo => exact absurd (.submit hcaller) (h _)
  | awaiting taken state =>
    cases hjob : s.jobs[taken]? with
    | none => exact absurd (.close hcaller hjob hidle) (h _)
    | some job =>
      have hmem : job ∈ s.jobs := List.mem_of_getElem? hjob
      have hsettled := hidle job hmem
      have hkept := hwithdrawn job hmem
      obtain ⟨file, status⟩ := job
      cases status with
      | finished result =>
        cases result with
        | ok windows? => exact absurd (.take hcaller hjob) (h _)
        | error halt => exact absurd (.stop hcaller hjob) (h _)
      | withdrawn =>
        rw [hcaller] at hkept
        exact (hkept rfl).elim
      | queued | running _ => cases hsettled
  | taking taken rest => exact absurd (.index hcaller) (h _)
  | closing rest => exact absurd (.conclude hcaller) (h _)
  | leaving halt => exact absurd (.leave hcaller hidle) (h _)
  | ended result => exact ⟨result, rfl⟩

end Deadlock

end Pool

end Duplication

end CloneDetection
