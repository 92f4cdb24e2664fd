import CloneDetection.Line.Blinding
import Mathlib.Data.List.Forall2

/-!
# The runs of a text

A text has one division into runs of word characters and runs of other characters that come by
turns: `runs_eq_iff`. So whatever is put in place of the runs, as long as each one keeps its kind,
the runs of the new text are what was put there.
-/
namespace CloneDetection

/-- Runs of word characters and of other characters by turns, none of them empty; `kind` says
whether the first one is of word characters. -/
inductive ByTurns : Bool → List Text → Prop
  | nil (kind : Bool) : ByTurns kind []
  | cons {kind : Bool} {run : Text} {rest : List Text} : run ≠ [] → (∀ c ∈ run, isWord c = kind) →
      ByTurns (!kind) rest → ByTurns kind (run :: rest)

/-- The text is not empty, and all its characters are word characters if those of the run are, or
else none is. -/
def SameKind (run text : Text) : Prop :=
  text ≠ [] ∧ ∀ kind, (∀ c ∈ run, isWord c = kind) → ∀ c ∈ text, isWord c = kind

namespace ByTurns

variable {kind : Bool} {runs : List Text}

theorem ne_nil (h : ByTurns kind runs) {run : Text} (hrun : run ∈ runs) : run ≠ [] := by
  induction h with
  | nil => cases hrun
  | cons hne _ _ ih =>
    rcases List.mem_cons.1 hrun with rfl | hrest
    · exact hne
    · exact ih hrest

theorem isWord_head (h : ByTurns kind runs) {c : Char} (hc : runs.flatten.head? = some c) :
    isWord c = kind := by
  cases h with
  | nil => cases hc
  | @cons _ run rest hne hkind _ =>
    cases run with
    | nil => exact absurd rfl hne
    | cons d run =>
      have hdc : d = c := Option.some.inj hc
      exact hdc ▸ hkind d List.mem_cons_self

/-- What is put in place of the runs comes by turns too, if every piece is of the kind of its
run. -/
theorem replaced (h : ByTurns kind runs) {pieces : List Text}
    (hpieces : List.Forall₂ SameKind runs pieces) :
    ByTurns kind pieces := by
  induction h generalizing pieces with
  | nil kind =>
    cases hpieces
    exact .nil kind
  | cons _ hkind _ ih =>
    cases hpieces with
    | cons hpiece hrest => exact .cons hpiece.1 (hpiece.2 _ hkind) (ih hrest)

end ByTurns

theorem byTurns_consRun (c : Char) {kind : Bool} {runs : List Text} (h : ByTurns kind runs) :
    ByTurns (isWord c) (consRun c runs) := by
  have hsingle : ∀ d ∈ [c], isWord d = isWord c := by
    intro d hd
    rw [List.mem_singleton.1 hd]
  cases h with
  | nil => exact .cons (List.cons_ne_nil _ _) hsingle (.nil _)
  | @cons _ run rest hne hkind hrest =>
    cases run with
    | nil => exact absurd rfl hne
    | cons d run =>
      have hd : isWord d = kind := hkind d List.mem_cons_self
      rw [consRun]
      split
      · next hcd =>
        rw [hcd, hd]
        refine .cons (List.cons_ne_nil _ _) ?_ hrest
        intro e he
        rcases List.mem_cons.1 he with rfl | he
        · rw [hcd, hd]
        · exact hkind e he
      · next hcd =>
        have hother : kind = !isWord c := by
          rw [← hd]
          cases hc : isWord c <;> cases hw : isWord d <;> simp_all
        refine .cons (List.cons_ne_nil _ _) hsingle ?_
        rw [← hother]
        exact .cons (List.cons_ne_nil _ _) hkind hrest

theorem exists_byTurns_runs (t : Text) : ∃ kind, ByTurns kind t.runs := by
  induction t with
  | nil => exact ⟨true, .nil true⟩
  | cons c t ih =>
    obtain ⟨kind, h⟩ := ih
    exact ⟨isWord c, byTurns_consRun c h⟩

/-- Characters of one kind in front of runs of which the first is of the other kind make a run of
their own. -/
theorem foldr_consRun {kind : Bool} {run : Text} {rest : List Text} (hne : run ≠ [])
    (hkind : ∀ c ∈ run, isWord c = kind) (hrest : ByTurns (!kind) rest) :
    run.foldr consRun rest = run :: rest := by
  induction run with
  | nil => exact absurd rfl hne
  | cons c run ih =>
    have hc : isWord c = kind := hkind c List.mem_cons_self
    rw [List.foldr_cons]
    cases run with
    | nil =>
      cases hrest with
      | nil => rfl
      | @cons _ next rest hnext hother _ =>
        cases next with
        | nil => exact absurd rfl hnext
        | cons d next =>
          have hd : isWord d = !kind := hother d List.mem_cons_self
          rw [List.foldr_nil, consRun, if_neg (by simp [hc, hd])]
    | cons d run =>
      have hd : isWord d = kind := hkind d (List.mem_cons_of_mem _ List.mem_cons_self)
      rw [ih (List.cons_ne_nil _ _) fun e he => hkind e (List.mem_cons_of_mem _ he), consRun,
        if_pos (hc.trans hd.symm)]

theorem ByTurns.runs_flatten {kind : Bool} {runs : List Text} (h : ByTurns kind runs) :
    Text.runs runs.flatten = runs := by
  induction h with
  | nil => rfl
  | cons hne hkind hrest ih =>
    rw [List.flatten_cons, Text.runs, List.foldr_append, ← Text.runs, ih]
    exact foldr_consRun hne hkind hrest

/-- The division of a text into runs is the only one whose pieces come by turns. -/
theorem Text.runs_eq_iff {t : Text} {runs : List Text} :
    t.runs = runs ↔ runs.flatten = t ∧ ∃ kind, ByTurns kind runs := by
  constructor
  · rintro rfl
    exact ⟨t.flatten_runs, exists_byTurns_runs t⟩
  · rintro ⟨rfl, kind, h⟩
    exact h.runs_flatten

theorem Text.runs_flatten_of_sameKind {t : Text} {pieces : List Text}
    (h : List.Forall₂ SameKind t.runs pieces) :
    Text.runs pieces.flatten = pieces := by
  obtain ⟨kind, hturns⟩ := exists_byTurns_runs t
  exact (hturns.replaced h).runs_flatten

end CloneDetection
