import CloneDetection.Scan.Basic

/-!
# Scans that nobody cancels

The host in memory answers every check with no cancellation. `Gives` says that a scan then runs to
its end, with what value and what the host has seen by then; scans that run to their end follow one
another.
-/
namespace CloneDetection

namespace Scan

variable {α β : Type} {reader : FileReader} {r r' r'' : Record}

/-- What a scan that nobody cancels comes to, and what the host has seen then. -/
def uncancelled (reader : FileReader) (s : Scan α) (r : Record) : Except Halt α × Record :=
  (s.run (Host.recorded (fun _ => none) reader)).run r

def Gives (reader : FileReader) (s : Scan α) (r : Record) (a : α) (r' : Record) : Prop :=
  s.uncancelled reader r = (.ok a, r')

theorem Gives.unique {s : Scan α} {a b : α} (h : s.Gives reader r a r')
    (h' : s.Gives reader r b r'') : a = b := by
  have hpair := h.symm.trans h'
  simp only [Prod.mk.injEq, Except.ok.injEq] at hpair
  exact hpair.1

theorem gives_pure (a : α) : Gives reader (pure a : Scan α) r a r := rfl

theorem gives_checkpoint : Gives reader checkpoint r () { r with checks := r.checks + 1 } := rfl

theorem gives_emit (e : Event) :
    Gives reader (emit e) r () { r with events := e :: r.events } := rfl

theorem gives_readHead (path : Text) (size : Nat) :
    Gives reader (readHead path size) r (reader r.accesses ⟨path, some size⟩)
      { r with accesses := ⟨path, some size⟩ :: r.accesses } := rfl

theorem gives_readAll (path : Text) :
    Gives reader (readAll path) r (reader r.accesses ⟨path, none⟩)
      { r with accesses := ⟨path, none⟩ :: r.accesses } := rfl

theorem gives_ofOption {fault : Fault} {a? : Option α} {a : α} (h : a? = some a) :
    Gives reader (ofOption fault a?) r a r := by
  subst h
  rfl

theorem gives_ofExcept {a? : Except Fault α} {a : α} (h : a? = .ok a) :
    Gives reader (ofExcept a?) r a r := by
  subst h
  rfl

theorem Gives.uncancelled_bind {s : Scan α} {f : α → Scan β} {a : α} (h : s.Gives reader r a r') :
    (s >>= f).uncancelled reader r = (f a).uncancelled reader r' := by
  have hrun : (s.run (Host.recorded (fun _ => none) reader)).run r = (.ok a, r') := h
  change ((s.bind f).run (Host.recorded (fun _ => none) reader)).run r = _
  rw [run_bind, StateT.run_bind, hrun]
  rfl

theorem Gives.bind {s : Scan α} {f : α → Scan β} {a : α} {b : β} (h : s.Gives reader r a r')
    (hf : (f a).Gives reader r' b r'') : (s >>= f).Gives reader r b r'' :=
  h.uncancelled_bind.trans hf

/-- What a scan comes to depends on what the host has seen only through the accesses. -/
theorem uncancelled_fst_congr (s : Scan α) (checks checks' : Nat) (events events' : List Event)
    (accesses : List Access) : (s.uncancelled reader ⟨checks, events, accesses⟩).1 =
      (s.uncancelled reader ⟨checks', events', accesses⟩).1 := by
  induction s generalizing checks checks' events events' accesses with
  | done a => rfl
  | fail e => rfl
  | check next ih => exact ih () _ _ _ _ _
  | note e next ih => exact ih () _ _ _ _ _
  | read path limit? next ih => exact ih _ _ _ _ _ _

theorem Gives.of_accesses_eq {s : Scan α} {a : α} (h : s.Gives reader r a r'')
    (haccesses : r.accesses = r'.accesses) :
    ∃ r₁, s.Gives reader r' a r₁ := by
  rcases r with ⟨checks, events, accesses⟩
  rcases r' with ⟨checks', events', accesses'⟩
  cases haccesses
  have hsame : (s.uncancelled reader ⟨checks, events, accesses⟩).1 =
      (s.uncancelled reader ⟨checks', events', accesses⟩).1 :=
    uncancelled_fst_congr s checks checks' events events' accesses
  rw [h] at hsame
  exact ⟨(s.uncancelled reader ⟨checks', events', accesses⟩).2, Prod.ext hsame.symm rfl⟩

end Scan

end CloneDetection
