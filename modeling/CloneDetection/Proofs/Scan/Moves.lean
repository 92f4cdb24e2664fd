import CloneDetection.Proofs.Scan.Uncancelled

/-!
# Scans step by step

As long as nothing changes the files, an access gives the same at any time. What a scan comes to and
which progress messages it gives are then functions of the scan, and a scan can be taken one move at
a time: `Continues whole said s` says that `s` is what is left of `whole` once these messages are
out.
-/
namespace CloneDetection

/-- What the accesses give as long as nothing changes the files. -/
abbrev Contents := Access → Option Bytes

/-- The progress messages among events, which are last first. -/
def Event.messages (events : List Event) : List Text :=
  events.reverse.filterMap progress?

namespace Event

theorem messages_append (later earlier : List Event) :
    messages (later ++ earlier) = messages earlier ++ messages later := by
  simp [messages]

end Event

namespace Scan

variable {α β : Type} (contents : Contents)

def outcome : Scan α → Except Halt α
  | .done a => .ok a
  | .fail e => .error (.fault e)
  | .check next => (next ()).outcome
  | .note _ next => (next ()).outcome
  | .read path limit? next => (next (contents ⟨path, limit?⟩)).outcome

def messages : Scan α → List Text
  | .done _ | .fail _ => []
  | .check next => (next ()).messages
  | .note e next => Event.messages [e] ++ (next ()).messages
  | .read path limit? next => (next (contents ⟨path, limit?⟩)).messages

section Whole

theorem bind_done (s : Scan α) : s.bind .done = s := by
  induction s with
  | done a => rfl
  | fail e => rfl
  | check next ih => simp [bind, ih]
  | note e next ih => simp [bind, ih]
  | read path limit? next ih => simp [bind, ih]

theorem bind_bind {γ : Type} (s : Scan α) (f : α → Scan β) (g : β → Scan γ) :
    (s.bind f).bind g = s.bind fun a => (f a).bind g := by
  induction s with
  | done a => rfl
  | fail e => rfl
  | check next ih => simp [bind, ih]
  | note e next ih => simp [bind, ih]
  | read path limit? next ih => simp [bind, ih]

instance : LawfulMonad Scan :=
  .mk' Scan bind_done (fun _ _ => rfl) bind_bind

theorem outcome_bind (s : Scan α) (f : α → Scan β) :
    (s >>= f).outcome contents = s.outcome contents >>= fun a => (f a).outcome contents := by
  change (s.bind f).outcome contents = _
  induction s with
  | done a => rfl
  | fail e => rfl
  | check next ih => exact ih ()
  | note e next ih => exact ih ()
  | read path limit? next ih => exact ih _

theorem messages_bind (s : Scan α) (f : α → Scan β) :
    (s >>= f).messages contents = s.messages contents ++ match s.outcome contents with
      | .ok a => (f a).messages contents
      | .error _ => [] := by
  change (s.bind f).messages contents = _
  induction s with
  | done a => rfl
  | fail e => rfl
  | check next ih => exact ih ()
  | note e next ih => simp [bind, messages, outcome, ih]
  | read path limit? next ih => exact ih _

theorem uncancelled_eq (s : Scan α) (r : Record) :
    ∃ r', s.uncancelled (fun _ => contents) r = (s.outcome contents, r') ∧
      Event.messages r'.events = Event.messages r.events ++ s.messages contents := by
  induction s generalizing r with
  | done a => exact ⟨r, rfl, by simp [messages]⟩
  | fail e => exact ⟨r, rfl, by simp [messages]⟩
  | check next ih => exact ih () { r with checks := r.checks + 1 }
  | note e next ih =>
    obtain ⟨r', hrun, hmessages⟩ := ih () { r with events := e :: r.events }
    refine ⟨r', hrun, ?_⟩
    rw [hmessages, messages, ← List.append_assoc, ← Event.messages_append]
    rfl
  | read path limit? next ih => exact ih _ { r with accesses := ⟨path, limit?⟩ :: r.accesses }

end Whole

inductive Move (α : Type) where
  | ends (result : Except Halt α)
  | goes (event? : Option Event) (rest : Scan α)

/-- The next move of a scan when a check would find this signal. -/
def move (signal? : Option Cancellation) : Scan α → Move α
  | .done a => .ends (.ok a)
  | .fail e => .ends (.error (.fault e))
  | .check next => match signal? with
    | some cause => .ends (.error (.cancelled cause))
    | none => .goes none (next ())
  | .note e next => .goes (some e) (next ())
  | .read path limit? next => .goes none (next (contents ⟨path, limit?⟩))

def moves : Scan α → Nat
  | .done _ | .fail _ => 1
  | .check next => (next ()).moves + 1
  | .note _ next => (next ()).moves + 1
  | .read path limit? next => (next (contents ⟨path, limit?⟩)).moves + 1

section Move

variable {contents} {signal? : Option Cancellation} {s rest : Scan α} {event? : Option Event}

theorem moves_pos (s : Scan α) : 0 < s.moves contents := by
  cases s <;> simp [moves]

theorem moves_of_move (h : s.move contents signal? = .goes event? rest) :
    rest.moves contents < s.moves contents := by
  cases s with
  | done a => simp [move] at h
  | fail e => simp [move] at h
  | check next =>
    cases signal? with
    | some cause => simp [move] at h
    | none =>
      simp only [move, Move.goes.injEq] at h
      simp [moves, ← h.2]
  | note e next =>
    simp only [move, Move.goes.injEq] at h
    simp [moves, ← h.2]
  | read path limit? next =>
    simp only [move, Move.goes.injEq] at h
    simp [moves, ← h.2]

end Move

/-- Once these messages are out, the scan `s` is what is left of `whole`. -/
structure Continues (whole : Scan α) (said : List Text) (s : Scan α) : Prop where
  outcome_eq : s.outcome contents = whole.outcome contents
  messages_eq : said ++ s.messages contents = whole.messages contents

namespace Continues

variable {contents} {whole : Scan α} {said : List Text}

theorem refl (whole : Scan α) : Continues contents whole [] whole :=
  ⟨rfl, rfl⟩

/-- A part that was run elsewhere without a message need not be run. -/
theorem of_done {s : Scan β} {f : β → Scan α} {b : β} (h : Continues contents whole said (s >>= f))
    (hs : Continues contents s [] (.done b)) : Continues contents whole said (f b) := by
  have hmessages : s.messages contents = [] := hs.messages_eq.symm
  have houtcome : s.outcome contents = .ok b := hs.outcome_eq.symm
  constructor
  · rw [← h.outcome_eq, outcome_bind, houtcome]
    rfl
  · rw [← h.messages_eq, messages_bind, houtcome, hmessages]
    rfl

/-- What one move of a part leaves: the rest of the part, or what follows it, or a fault of the
whole scan. -/
theorem move_bind {s : Scan β} {f : β → Scan α} (h : Continues contents whole said (s >>= f))
    (signal? : Option Cancellation) :
    match s.move contents signal? with
    | .goes event? rest =>
      Continues contents whole (said ++ Event.messages event?.toList) (rest >>= f)
    | .ends (.ok b) => Continues contents whole said (f b)
    | .ends (.error (.fault e)) => Continues contents whole said (.fail e)
    | .ends (.error (.cancelled cause)) => signal? = some cause := by
  cases s with
  | done b => exact h
  | fail e => exact h
  | check next =>
    cases signal? with
    | some cause => rfl
    | none =>
      exact ⟨h.outcome_eq, (congrArg (· ++ _) (List.append_nil said)).trans h.messages_eq⟩
  | note e next =>
    constructor
    · exact h.outcome_eq
    · rw [List.append_assoc]
      exact h.messages_eq
  | read path limit? next =>
    exact ⟨h.outcome_eq, (congrArg (· ++ _) (List.append_nil said)).trans h.messages_eq⟩

end Continues

end Scan

end CloneDetection
