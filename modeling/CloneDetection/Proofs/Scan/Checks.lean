import CloneDetection.Proofs.Scan.Moves

/-!
# The checks of a scan

How many checks a scan makes is a function of the scan as long as nothing changes the files and
nobody cancels it; the checks of scans that follow one another add up. A cancellation that shows at
a check ends the scan there. If the scan does not come that far, it is as if there had been none.
-/
namespace CloneDetection

namespace Scan

variable {α β : Type}

section Count

variable (contents : Contents)

def checks : Scan α → Nat
  | .done _ | .fail _ => 0
  | .check next => (next ()).checks + 1
  | .note _ next => (next ()).checks
  | .read path limit? next => (next (contents ⟨path, limit?⟩)).checks

@[simp]
theorem checks_emit (e : Event) : (emit e).checks contents = 0 := rfl

@[simp]
theorem checks_ofExcept (a? : Except Fault α) : (ofExcept a?).checks contents = 0 := by
  cases a? <;> rfl

@[simp]
theorem checks_ofOption (fault : Fault) (a? : Option α) :
    (ofOption fault a?).checks contents = 0 := by
  cases a? <;> rfl

theorem checks_bind (s : Scan α) (f : α → Scan β) :
    (s >>= f).checks contents = s.checks contents + match s.outcome contents with
      | .ok a => (f a).checks contents
      | .error _ => 0 := by
  change (s.bind f).checks contents = _
  induction s with
  | done a => simp [bind, checks, outcome]
  | fail e => rfl
  | check next ih =>
    rw [bind, checks, ih, checks, outcome]
    exact Nat.add_right_comm _ _ _
  | note e next ih => exact ih ()
  | read path limit? next ih => exact ih _

theorem checks_checkpoint_bind (f : Unit → Scan β) :
    (checkpoint >>= f).checks contents = (f ()).checks contents + 1 :=
  rfl

variable {contents}

theorem checks_bind_of_ok {s : Scan α} {a : α} (h : s.outcome contents = .ok a) (f : α → Scan β) :
    (s >>= f).checks contents = s.checks contents + (f a).checks contents := by
  rw [checks_bind, h]

theorem checks_bind_eq_zero {s : Scan α} {f : α → Scan β} (hs : s.checks contents = 0)
    (hf : ∀ a, (f a).checks contents = 0) : (s >>= f).checks contents = 0 := by
  rw [checks_bind, hs, Nat.zero_add]
  split
  · exact hf _
  · rfl

theorem outcome_bind_of_ok {s : Scan α} {a : α} (h : s.outcome contents = .ok a) (f : α → Scan β) :
    (s >>= f).outcome contents = (f a).outcome contents := by
  rw [outcome_bind, h]
  rfl

/-- In a loop that comes to its end, every round makes its checks. -/
theorem checks_foldlM {γ : Type} {step : β → γ → Scan β} {n : Nat}
    (hstep : ∀ b c, (step b c).checks contents = n) {l : List γ} {b b' : β}
    (h : (l.foldlM step b).outcome contents = .ok b') :
    (l.foldlM step b).checks contents = n * l.length := by
  induction l generalizing b with
  | nil => rfl
  | cons c l ih =>
    rw [List.foldlM_cons, outcome_bind] at h
    cases hfirst : (step b c).outcome contents with
    | error halt =>
      rw [hfirst] at h
      cases h
    | ok next =>
      rw [hfirst] at h
      rw [List.foldlM_cons, checks_bind_of_ok hfirst, hstep, ih h, List.length_cons, Nat.mul_succ,
        Nat.add_comm]

variable (contents) in
/-- As long as nothing changes the files, a scan that nobody cancels comes to `a`, with these
progress messages and so many checks. -/
structure Yields (s : Scan α) (a : α) (said : List Text) (n : Nat) : Prop where
  outcome_eq : s.outcome contents = .ok a
  messages_eq : s.messages contents = said
  checks_eq : s.checks contents = n

theorem yields_pure (a : α) : Yields contents (pure a) a [] 0 :=
  ⟨rfl, rfl, rfl⟩

theorem yields_checkpoint : Yields contents checkpoint () [] 1 :=
  ⟨rfl, rfl, rfl⟩

theorem yields_emit (e : Event) : Yields contents (emit e) () (Event.messages [e]) 0 :=
  ⟨rfl, List.append_nil _, rfl⟩

theorem yields_readHead (path : Text) (size : Nat) :
    Yields contents (readHead path size) (contents ⟨path, some size⟩) [] 0 :=
  ⟨rfl, rfl, rfl⟩

theorem yields_ofExcept {a? : Except Fault α} {a : α} (h : a? = .ok a) :
    Yields contents (ofExcept a?) a [] 0 := by
  subst h
  exact yields_pure a

theorem Yields.bind {s : Scan α} {f : α → Scan β} {a : α} {b : β} {said said' : List Text}
    {n n' : Nat} (h : Yields contents s a said n) (hf : Yields contents (f a) b said' n') :
    Yields contents (s >>= f) b (said ++ said') (n + n') where
  outcome_eq := (outcome_bind_of_ok h.outcome_eq f).trans hf.outcome_eq
  messages_eq := by rw [messages_bind, h.outcome_eq, h.messages_eq, ← hf.messages_eq]
  checks_eq := by rw [checks_bind_of_ok h.outcome_eq, h.checks_eq, hf.checks_eq]

theorem Yields.bind_silent {s : Scan α} {f : α → Scan β} {a : α} {b : β} {said : List Text}
    {n : Nat} (h : Yields contents s a [] 0) (hf : Yields contents (f a) b said n) :
    Yields contents (s >>= f) b said n := by
  have hboth := h.bind hf
  rwa [List.nil_append, Nat.zero_add] at hboth

theorem Yields.bind_check {s : Scan α} {f : α → Scan β} {a : α} {b : β} {said : List Text} {n : Nat}
    (h : Yields contents s a [] 1) (hf : Yields contents (f a) b said n) :
    Yields contents (s >>= f) b said (n + 1) := by
  have hboth := h.bind hf
  rwa [List.nil_append, Nat.add_comm] at hboth

theorem checks_uncancelled (s : Scan α) (r : Record) :
    (s.uncancelled (fun _ => contents) r).2.checks = r.checks + s.checks contents := by
  induction s generalizing r with
  | done a => rfl
  | fail e => rfl
  | check next ih =>
    refine (ih () { r with checks := r.checks + 1 }).trans ?_
    rw [checks]
    exact Nat.add_right_comm _ _ _
  | note e next ih => exact ih () _
  | read path limit? next ih => exact ih _ _

theorem Gives.outcome_eq {s : Scan α} {r r' : Record} {a : α}
    (h : s.Gives (fun _ => contents) r a r') :
    s.outcome contents = .ok a := by
  obtain ⟨r₁, hrun, -⟩ := s.uncancelled_eq contents r
  exact (Prod.mk.inj (hrun.symm.trans h)).1

theorem Gives.checks_eq {s : Scan α} {r r' : Record} {a : α}
    (h : s.Gives (fun _ => contents) r a r') :
    r'.checks = r.checks + s.checks contents := by
  rw [← checks_uncancelled, h]

theorem Yields.gives {s : Scan α} {a : α} {said : List Text} {n : Nat}
    (h : Yields contents s a said n) (r : Record) :
    ∃ r', s.Gives (fun _ => contents) r a r' ∧
      Event.messages r'.events = Event.messages r.events ++ said ∧ r'.checks = r.checks + n := by
  obtain ⟨r', hrun, hmessages⟩ := s.uncancelled_eq contents r
  have hchecks : (s.uncancelled (fun _ => contents) r).2.checks = r.checks + s.checks contents :=
    checks_uncancelled s r
  rw [hrun, h.checks_eq] at hchecks
  refine ⟨r', ?_, ?_, hchecks⟩
  · rw [Gives, hrun, h.outcome_eq]
  · rw [hmessages, h.messages_eq]

end Count

section Cancelled

variable {reader : FileReader} {signal : Nat → Option Cancellation} {k : Nat}

theorem checks_le_uncancelled (reader : FileReader) (s : Scan α) (r : Record) :
    r.checks ≤ (s.uncancelled reader r).2.checks := by
  induction s generalizing r with
  | done a => exact Nat.le_refl _
  | fail e => exact Nat.le_refl _
  | check next ih => exact Nat.le_trans (Nat.le_succ _) (ih () { r with checks := r.checks + 1 })
  | note e next ih => exact ih () { r with events := e :: r.events }
  | read path limit? next ih => exact ih _ { r with accesses := ⟨path, limit?⟩ :: r.accesses }

theorem run_check_of_none {r : Record} (h : signal (r.checks + 1) = none) (next : Unit → Scan α) :
    ((Scan.check next).run (Host.recorded signal reader)).run r =
      ((next ()).run (Host.recorded signal reader)).run { r with checks := r.checks + 1 } := by
  have hcheck : (Host.recorded signal reader).check.run r =
      (none, { r with checks := r.checks + 1 }) := by
    rw [← h]
    rfl
  rw [run, StateT.run_bind, hcheck]
  rfl

theorem run_check_of_some {r : Record} {cause : Cancellation}
    (h : signal (r.checks + 1) = some cause) (next : Unit → Scan α) :
    ((Scan.check next).run (Host.recorded signal reader)).run r =
      (.error (.cancelled cause), { r with checks := r.checks + 1 }) := by
  have hcheck : (Host.recorded signal reader).check.run r =
      (some cause, { r with checks := r.checks + 1 }) := by
    rw [← h]
    rfl
  rw [run, StateT.run_bind, hcheck]
  rfl

/-- Whatever the checks show, a scan is cancelled or runs as if nobody cancelled it. -/
theorem run_eq_uncancelled_or (signal : Nat → Option Cancellation) (s : Scan α) (r : Record) :
    (s.run (Host.recorded signal reader)).run r = s.uncancelled reader r ∨
      ∃ cause r', (s.run (Host.recorded signal reader)).run r =
        (.error (.cancelled cause), r') := by
  induction s generalizing r with
  | done a => exact .inl rfl
  | fail e => exact .inl rfl
  | check next ih =>
    cases hsignal : signal (r.checks + 1) with
    | none =>
      rw [run_check_of_none hsignal]
      exact ih () { r with checks := r.checks + 1 }
    | some cause => exact .inr ⟨cause, _, run_check_of_some hsignal next⟩
  | note e next ih => exact ih () { r with events := e :: r.events }
  | read path limit? next ih => exact ih _ { r with accesses := ⟨path, limit?⟩ :: r.accesses }

theorem run_of_checks_lt (hbefore : ∀ n, 0 < n → n < k → signal n = none) (s : Scan α) (r : Record)
    (h : (s.uncancelled reader r).2.checks < k) :
    (s.run (Host.recorded signal reader)).run r = s.uncancelled reader r := by
  induction s generalizing r with
  | done a => rfl
  | fail e => rfl
  | check next ih =>
    let r₁ : Record := { r with checks := r.checks + 1 }
    have hlt : r.checks + 1 < k := Nat.lt_of_le_of_lt (checks_le_uncancelled reader (next ()) r₁) h
    rw [run_check_of_none (hbefore _ (Nat.succ_pos _) hlt)]
    exact ih () r₁ h
  | note e next ih => exact ih () { r with events := e :: r.events } h
  | read path limit? next ih => exact ih _ { r with accesses := ⟨path, limit?⟩ :: r.accesses } h

theorem run_of_le_checks {cause : Cancellation} (hbefore : ∀ n, 0 < n → n < k → signal n = none)
    (hk : signal k = some cause) (s : Scan α) (r : Record) (hr : r.checks < k)
    (h : k ≤ (s.uncancelled reader r).2.checks) :
    ∃ r', (s.run (Host.recorded signal reader)).run r = (.error (.cancelled cause), r') ∧
      r'.checks = k := by
  induction s generalizing r with
  | done a => exact absurd h (Nat.not_le_of_lt hr)
  | fail e => exact absurd h (Nat.not_le_of_lt hr)
  | check next ih =>
    let r₁ : Record := { r with checks := r.checks + 1 }
    by_cases hlast : r.checks + 1 = k
    · rw [← hlast] at hk
      exact ⟨r₁, run_check_of_some hk next, hlast⟩
    · have hlt : r.checks + 1 < k := by omega
      rw [run_check_of_none (hbefore _ (Nat.succ_pos _) hlt)]
      exact ih () r₁ hlt h
  | note e next ih => exact ih () { r with events := e :: r.events } hr h
  | read path limit? next ih => exact ih _ { r with accesses := ⟨path, limit?⟩ :: r.accesses } hr h

end Cancelled

end Scan

end CloneDetection
