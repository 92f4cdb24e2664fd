import CloneDetection.Collector.Duplication
import CloneDetection.Proofs.Scan.Moves
import Mathlib.Logic.Relation

/-!
# Collecting with a pool of workers

The caller hands every file to the pool as a job of its own. Workers start the jobs in any order, at
most so many at a time, and take them move by move, while the caller takes their results in the
order of the files and waits where the next one is not there yet. A caller that fails leaves as soon
as every job has come to an end; jobs that no worker has started may be withdrawn by then. Between
any two steps the token may be cancelled and the clock may go on.
-/
namespace CloneDetection

namespace Duplication

namespace Pool

/-- What is collected, and from what. -/
structure Setup where
  tree : Tree
  root : Text
  options : Options
  contents : Contents

namespace Setup

variable (setup : Setup)

def select : Scan (List SourceFile) := do
  let files ← setup.options.selection.discover setup.tree setup.root
  .emit (.discovered files.length setup.root)
  return files

/-- Takes all files into the indexes that there are, and concludes. -/
def index (files : List SourceFile) (state : Indexed) : Scan (List Finding × Metrics) := do
  conclude setup.options (← files.foldlM indexFile state)

def sequential : Scan (List Finding × Metrics) :=
  collect setup.tree setup.root { setup.options with workers := .ok 1 }

theorem sequential_eq : setup.sequential = setup.select >>= fun files => setup.index files {} := by
  simp only [select, bind_assoc, pure_bind]
  rfl

end Setup

inductive Status where
  | queued
  | running (rest : Scan (Option FileWindows))
  | finished (result : Except Halt (Option FileWindows))
  | withdrawn

namespace Status

def isRunning : Status → Bool
  | .running _ => true
  | _ => false

def isSettled : Status → Bool
  | .finished _ | .withdrawn => true
  | _ => false

end Status

structure Job where
  file : SourceFile
  status : Status

inductive Caller where
  | selecting (rest : Scan (List SourceFile))
  | submitting (todo : List SourceFile)
  /-- So many results are taken into these indexes, and the next one is awaited. -/
  | awaiting (taken : Nat) (state : Indexed)
  | taking (taken : Nat) (rest : Scan Indexed)
  /-- No results are awaited any more. -/
  | closing (rest : Scan (List Finding × Metrics))
  /-- The caller has failed and waits for the jobs to settle. -/
  | leaving (halt : Halt)
  | ended (result : Except Halt (List Finding))

/-- Where the caller goes with the selected files. The pool is used only for several workers and
several files. -/
def Setup.share (setup : Setup) (files : List SourceFile) : Caller :=
  match setup.options.workers with
  | .error fault => .leaving (.fault fault)
  | .ok workers =>
    if workers ≤ 1 ∨ files.length ≤ 1 then .closing (setup.index files {}) else .submitting files

structure System where
  token : Token
  now : Double
  /-- Everything noted so far, last first. -/
  events : List Event
  /-- The jobs that are submitted, in the order of their files. -/
  jobs : List Job
  caller : Caller
  /-- The metrics of the last collection that ended. -/
  metrics? : Option Metrics

namespace System

def signal? (s : System) : Option Cancellation :=
  s.token.check s.now

def isCancelled (s : System) : Bool :=
  s.token.isCancelled s.now

def files (s : System) : List SourceFile :=
  s.jobs.map Job.file

/-- How many workers are at a job. -/
def busy (s : System) : Nat :=
  s.jobs.countP (·.status.isRunning)

def Idle (s : System) : Prop :=
  ∀ job ∈ s.jobs, job.status.isSettled = true

variable {α : Type} (setup : Setup)

/-- One move of a scan that the caller runs itself: the caller stays in the scan, or goes on with
its result. -/
def advance (s : System) (rest : Scan α) (stay : Scan α → Caller) (next : α → System) : System :=
  match rest.move setup.contents s.signal? with
  | .goes event? rest => { s with events := event?.toList ++ s.events, caller := stay rest }
  | .ends (.ok a) => next a
  | .ends (.error halt) => { s with caller := .leaving halt }

def finish (s : System) : List Finding × Metrics → System
  | (findings, metrics) => { s with caller := .ended (.ok findings), metrics? := some metrics }

/-- What holds of a system after a move of the caller if it holds wherever the move can lead. -/
theorem advance_induct {P : System → Prop} {s : System} {rest : Scan α} {stay : Scan α → Caller}
    {next : α → System}
    (hgoes : ∀ event? rest', rest.move setup.contents s.signal? = .goes event? rest' →
      P { s with events := event?.toList ++ s.events, caller := stay rest' })
    (hends : ∀ a, rest.move setup.contents s.signal? = .ends (.ok a) → P (next a))
    (hstops : ∀ halt, rest.move setup.contents s.signal? = .ends (.error halt) →
      P { s with caller := .leaving halt }) : P (s.advance setup rest stay next) := by
  rw [advance]
  cases hmove : rest.move setup.contents s.signal? with
  | goes event? rest' => exact hgoes event? rest' hmove
  | ends result =>
    cases result with
    | ok a => exact hends a hmove
    | error halt => exact hstops halt hmove

/-- The caller has come to the result, the metrics and the messages of a scan; the metrics of a scan
that fails are those from before. -/
structure Agrees (s : System) (before? : Option Metrics)
    (run : Except Halt (List Finding × Metrics) × Record) :
    Prop where
  caller_eq : s.caller = .ended (run.1.map Prod.fst)
  metrics_eq : s.metrics? = (run.1.toOption.map Prod.snd).or before?
  messages_eq : Event.messages s.events = Event.messages run.2.events

/-- The caller has ended for a cancellation and left the metrics as they were. -/
structure Aborted (s : System) (before? : Option Metrics) : Prop where
  caller_eq : ∃ cause, s.caller = .ended (.error (.cancelled cause))
  metrics_eq : s.metrics? = before?

end System

def start (setup : Setup) (token : Token) (now : Double) (before? : Option Metrics) : System where
  token := token
  now := now
  events := []
  jobs := []
  caller := .selecting setup.select
  metrics? := before?

section Steps

variable (setup : Setup)

/-- One step of the caller or of a worker. -/
inductive Step : System → System → Prop where
  | select {s : System} {rest : Scan (List SourceFile)} (hcaller : s.caller = .selecting rest) :
    Step s (s.advance setup rest .selecting fun files => { s with caller := setup.share files })
  | submit {s : System} {file : SourceFile} {todo : List SourceFile}
    (hcaller : s.caller = .submitting (file :: todo)) :
    Step s { s with jobs := s.jobs ++ [⟨file, .queued⟩], caller := .submitting todo }
  | await {s : System} (hcaller : s.caller = .submitting []) :
    Step s { s with caller := .awaiting 0 {} }
  | take {s : System} {taken : Nat} {state : Indexed} {file : SourceFile}
      {windows? : Option FileWindows}
    (hcaller : s.caller = .awaiting taken state)
    (hjob : s.jobs[taken]? = some ⟨file, .finished (.ok windows?)⟩) :
    Step s { s with caller := .taking (taken + 1) (takeIn state file windows?) }
  | stop {s : System} {taken : Nat} {state : Indexed} {file : SourceFile} {halt : Halt}
    (hcaller : s.caller = .awaiting taken state)
      (hjob : s.jobs[taken]? = some ⟨file, .finished (.error halt)⟩) :
    Step s { s with caller := .leaving halt }
  | index {s : System} {taken : Nat} {rest : Scan Indexed}
      (hcaller : s.caller = .taking taken rest) :
    Step s (s.advance setup rest (.taking taken)
      fun state => { s with caller := .awaiting taken state })
  | close {s : System} {taken : Nat} {state : Indexed} (hcaller : s.caller = .awaiting taken state)
    (hlast : s.jobs[taken]? = none) (hidle : s.Idle) :
    Step s { s with caller := .closing (conclude setup.options state) }
  | conclude {s : System} {rest : Scan (List Finding × Metrics)}
      (hcaller : s.caller = .closing rest) :
    Step s (s.advance setup rest .closing s.finish)
  | leave {s : System} {halt : Halt} (hcaller : s.caller = .leaving halt) (hidle : s.Idle) :
    Step s { s with caller := .ended (.error halt) }
  /-- A worker that has nothing to do starts a job. -/
  | start {s : System} {before after : List Job} {file : SourceFile} {workers : Int}
    (hjobs : s.jobs = before ++ ⟨file, .queued⟩ :: after) (hworkers : setup.options.workers =
      .ok workers)
    (hfree : s.busy < workers) :
    Step s { s with jobs := before ++ ⟨file, .running (hashFile file)⟩ :: after }
  | work {s : System} {before after : List Job} {file : SourceFile}
      {rest rest' : Scan (Option FileWindows)}
    {event? : Option Event} (hjobs : s.jobs = before ++ ⟨file, .running rest⟩ :: after)
    (hmove : rest.move setup.contents s.signal? = .goes event? rest') :
    Step s
      { s with
        events := event?.toList ++ s.events
        jobs := before ++ ⟨file, .running rest'⟩ :: after }
  | settle {s : System} {before after : List Job} {file : SourceFile}
      {rest : Scan (Option FileWindows)}
    {result : Except Halt (Option FileWindows)}
      (hjobs : s.jobs = before ++ ⟨file, .running rest⟩ :: after)
    (hmove : rest.move setup.contents s.signal? = .ends result) :
    Step s { s with jobs := before ++ ⟨file, .finished result⟩ :: after }
  | withdraw {s : System} {before after : List Job} {file : SourceFile} {halt : Halt}
    (hcaller : s.caller = .leaving halt) (hjobs : s.jobs = before ++ ⟨file, .queued⟩ :: after) :
    Step s { s with jobs := before ++ ⟨file, .withdrawn⟩ :: after }

/-- A step of the system, or something from outside. -/
inductive Turn : System → System → Prop where
  | step {s t : System} (h : Step setup s t) : Turn s t
  | cancel (s : System) : Turn s { s with token := s.token.cancel }
  | pass (s : System) {later : Double} (h : s.now ≤ later) : Turn s { s with now := later }

def Run : System → System → Prop :=
  Relation.ReflTransGen (Turn setup)

/-- Neither the caller nor a worker can do anything any more. -/
def Complete (s : System) : Prop :=
  ∀ t, ¬ Step setup s t

end Steps

end Pool

end Duplication

end CloneDetection
