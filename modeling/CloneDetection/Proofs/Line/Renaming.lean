import CloneDetection.Proofs.Line.Runs
import CloneDetection.Proofs.Text.Regex

/-!
# Blinding tells texts apart up to renaming

Blinding puts a piece of the same kind in place of every run, so the runs of a blinded text are the
blinded runs. Two texts become equal just where their runs do, and two runs become equal if they are
equal or both may be renamed. Blinding is also what a replacement of identifiers in the text does,
as what the expression for them finds is always a whole run.
-/
namespace CloneDetection

section Run

variable {run other : Text}

/-- The two runs are equal, or both are identifiers that are no keywords. -/
def SameOrRenamable (run other : Text) : Prop :=
  run = other ∨ isRenamable run ∧ isRenamable other

/-- The run stays, or it is renamable and another renamable word comes in its place. -/
def RenamesTo (run piece : Text) : Prop :=
  piece = run ∨ isRenamable run ∧ isRenamable piece ∧ ∀ c ∈ piece, isWord c

def isInitial (c : Char) : Bool :=
  c.isAlpha || c == '_'

theorem isWord_of_isInitial {c : Char} (h : isInitial c) : isWord c := by
  rcases Bool.or_eq_true_iff.1 h with halpha | hline
  · exact isWord_of_isAlphanum (Bool.or_eq_true_iff.2 (.inl halpha))
  · rw [eq_of_beq hline]
    decide

theorem isRenamable_placeholder : isRenamable placeholder := by
  decide

theorem blindRun_of_isRenamable (h : isRenamable run) : blindRun run = placeholder :=
  if_pos h

theorem blindRun_of_not_isRenamable (h : ¬isRenamable run) : blindRun run = run :=
  if_neg h

/-- The placeholder is a word like those that it stands for. -/
theorem isRenamable_blindRun (run : Text) : isRenamable (blindRun run) = isRenamable run := by
  by_cases h : isRenamable run
  · rw [blindRun_of_isRenamable h, h, isRenamable_placeholder]
  · rw [blindRun_of_not_isRenamable h]

theorem blindRun_blindRun (run : Text) : blindRun (blindRun run) = blindRun run := by
  by_cases h : isRenamable run
  · have hblinded : isRenamable (blindRun run) := by rw [isRenamable_blindRun, h]
    rw [blindRun_of_isRenamable hblinded, blindRun_of_isRenamable h]
  · rw [blindRun_of_not_isRenamable h, blindRun_of_not_isRenamable h]

theorem blindRun_eq_iff : blindRun run = blindRun other ↔ SameOrRenamable run other := by
  constructor
  · intro heq
    have hboth : isRenamable run = isRenamable other := by
      rw [← isRenamable_blindRun run, heq, isRenamable_blindRun]
    by_cases h : isRenamable run
    · exact .inr ⟨h, hboth ▸ h⟩
    · rw [blindRun_of_not_isRenamable h, blindRun_of_not_isRenamable (hboth ▸ h)] at heq
      exact .inl heq
  · rintro (rfl | ⟨hrun, hother⟩)
    · rfl
    · rw [blindRun_of_isRenamable hrun, blindRun_of_isRenamable hother]

theorem RenamesTo.sameOrRenamable {piece : Text} (h : RenamesTo run piece) :
    SameOrRenamable run piece :=
  h.imp Eq.symm fun ⟨hrun, hpiece, _⟩ => ⟨hrun, hpiece⟩

/-- A renamable run has word characters only, as it begins with one. -/
theorem isWord_of_isRenamable {kind : Bool} (hkind : ∀ c ∈ run, isWord c = kind)
    (h : isRenamable run) :
    kind = true := by
  simp only [isRenamable, Bool.and_eq_true, Option.any_eq_true] at h
  obtain ⟨⟨c, hc, hinitial⟩, -⟩ := h
  rw [← hkind c (List.mem_of_head? hc), isWord_of_isInitial hinitial]

theorem RenamesTo.sameKind {piece : Text} (hne : run ≠ []) (h : RenamesTo run piece) :
    SameKind run piece := by
  rcases h with rfl | ⟨hrun, hpiece, hword⟩
  · exact ⟨hne, fun _ hkind => hkind⟩
  · refine ⟨?_, fun kind hkind c hc => ?_⟩
    · rintro rfl
      cases hpiece
    · rw [isWord_of_isRenamable hkind hrun, hword c hc]

theorem renamesTo_blindRun (run : Text) : RenamesTo run (blindRun run) := by
  by_cases h : isRenamable run
  · rw [blindRun_of_isRenamable h]
    exact .inr ⟨h, isRenamable_placeholder, List.all_eq_true.1 (by decide)⟩
  · exact .inl (blindRun_of_not_isRenamable h)

end Run

section Renamed

variable {x : Text} {pieces : List Text}

theorem runs_flatten_of_renamesTo (h : List.Forall₂ RenamesTo x.runs pieces) :
    Text.runs pieces.flatten = pieces := by
  obtain ⟨kind, hturns⟩ := exists_byTurns_runs x
  apply Text.runs_flatten_of_sameKind (t := x)
  rw [List.forall₂_iff_get] at h ⊢
  refine ⟨h.1, fun i hi hi' => ?_⟩
  exact (h.2 i hi hi').sameKind (hturns.ne_nil (List.get_mem _ _))

theorem blind_eq_flatten (x : Text) : blind x = (x.runs.map blindRun).flatten :=
  List.flatMap_def

theorem runs_blind (x : Text) : (blind x).runs = x.runs.map blindRun := by
  rw [blind_eq_flatten]
  apply runs_flatten_of_renamesTo (x := x)
  exact List.forall₂_map_right_iff.2 (List.forall₂_same.2 fun run _ => renamesTo_blindRun run)

theorem map_blindRun_eq_iff {runs others : List Text} :
    runs.map blindRun = others.map blindRun ↔ List.Forall₂ SameOrRenamable runs others := by
  rw [← List.forall₂_eq_eq_eq, List.forall₂_map_left_iff, List.forall₂_map_right_iff]
  simp only [blindRun_eq_iff]

theorem blind_renamed (h : List.Forall₂ RenamesTo x.runs pieces) :
    blind pieces.flatten = blind x := by
  have hsame : x.runs.map blindRun = pieces.map blindRun :=
    map_blindRun_eq_iff.2 (h.imp fun _ _ hpiece => hpiece.sameOrRenamable)
  rw [blind_eq_flatten, runs_flatten_of_renamesTo h, ← hsame, ← blind_eq_flatten]

end Renamed

section Identifiers

/-- An initial letter and then word characters, with no word character before or after them. -/
def identifier : Regex :=
  .seq .boundary (.seq (.one isInitial) (.seq (.many isWord) .boundary))

def blindWord (word : Text) : Text :=
  if keywords.contains word then word else placeholder

variable {f : Text → Text} {before : Option Char} {run rest : Text} {kind : Bool}

theorem first?_identifier_eq_none {c : Char} (h : isInitial c → before.any isWord = true) :
    identifier.first? before (c :: rest) = none := by
  by_cases hinitial : isInitial c
  · simp [Regex.first?, identifier, Regex.ways, h hinitial, isWord_of_isInitial hinitial]
  · cases hb : before.any isWord <;> cases hc : isWord c <;>
      simp [Regex.first?, identifier, Regex.ways, hinitial, hb, hc]

/-- A whole run of word characters is found where it begins with a letter. -/
theorem first?_identifier_eq_some {c : Char} (hbefore : before.any isWord = false)
    (hinitial : isInitial c) (hrun : ∀ d ∈ run, isWord d)
    (hrest : ∀ d, rest.head? = some d → isWord d = false) :
    identifier.first? before (c :: run ++ rest) = some (c :: run) := by
  have hc := isWord_of_isInitial hinitial
  have hlast : isWord (run.getLast?.getD c) = true := by
    cases hl : run.getLast? with
    | none => exact hc
    | some d => exact hrun d (List.mem_of_getLast? hl)
  have hnext : rest.head?.any isWord = false := by
    cases hr : rest.head? with
    | none => rfl
    | some d => exact hrest d hr
  obtain ⟨more, hmore⟩ := Regex.exists_fronts_eq_cons hrun hrest
  simp [Regex.first?, identifier, Regex.ways, hbefore, hinitial, hc, hmore, hlast, hnext]

theorem substitute_identifier_kept (hkind : ∀ c ∈ run, isWord c = kind)
    (hfirst : ∀ c, run.head? = some c → isInitial c → before.any isWord = true) :
    identifier.substitute f before 0 (run ++ rest) =
      run ++ identifier.substitute f (run.getLast?.or before) 0 rest := by
  induction run generalizing before with
  | nil => rfl
  | cons c run ih =>
    have hnone : identifier.first? before (c :: (run ++ rest)) = none :=
      first?_identifier_eq_none (hfirst c rfl)
    have hnext : ∀ d, run.head? = some d → isInitial d → (some c).any isWord = true := by
      intro d hd hinitial
      have hc : isWord c = kind := hkind c List.mem_cons_self
      have hd : isWord d = kind := hkind d (List.mem_cons_of_mem _ (List.mem_of_head? hd))
      exact hc.trans (hd.symm.trans (isWord_of_isInitial hinitial))
    rw [List.cons_append, Regex.substitute_of_first?_eq_none hnone,
      ih (fun d hd => hkind d (List.mem_cons_of_mem _ hd)) hnext, List.getLast?_cons]
    cases run.getLast? <;> rfl

/-- What stands for a run is what blinding puts in its place. -/
theorem substitute_identifier_run (hne : run ≠ []) (hkind : ∀ c ∈ run, isWord c = kind)
    (hbefore : kind = true → before.any isWord = false)
    (hrest : ∀ c, rest.head? = some c → isWord c = !kind) :
    identifier.substitute blindWord before 0 (run ++ rest) =
      blindRun run ++ identifier.substitute blindWord (run.getLast?.or before) 0 rest := by
  cases run with
  | nil => exact absurd rfl hne
  | cons c run =>
    by_cases hinitial : isInitial c
    · have hword : kind = true :=
        (hkind c List.mem_cons_self).symm.trans (isWord_of_isInitial hinitial)
      subst hword
      have hfound := first?_identifier_eq_some (hbefore rfl) hinitial
        (fun d hd => hkind d (List.mem_cons_of_mem _ hd)) hrest
      have hblind : blindRun (c :: run) = blindWord (c :: run) := by
        have hrenamable : isRenamable (c :: run) = !keywords.contains (c :: run) :=
          (congrArg (· && !keywords.contains (c :: run)) hinitial).trans (Bool.true_and _)
        rw [blindRun, hrenamable, blindWord]
        cases keywords.contains (c :: run) <;> rfl
      rw [Regex.substitute_of_first?_eq_some hfound, hblind, List.getLast?_cons]
      cases run.getLast? <;> rfl
    · have hblind : blindRun (c :: run) = c :: run :=
        blindRun_of_not_isRenamable fun h => hinitial (Bool.and_eq_true_iff.1 h).1
      rw [hblind]
      apply substitute_identifier_kept hkind
      intro d hd hd'
      exact absurd (Option.some.inj hd ▸ hd') hinitial

theorem ByTurns.substitute_identifier {runs : List Text} (h : ByTurns kind runs)
    (hbefore : kind = true → before.any isWord = false) :
    identifier.substitute blindWord before 0 runs.flatten = (runs.map blindRun).flatten := by
  induction h generalizing before with
  | nil => rfl
  | @cons kind run rest hne hkind hrest ih =>
    have hlast : (!kind) = true → (run.getLast?.or before).any isWord = false := by
      intro hother
      rw [List.getLast?_eq_some_getLast hne]
      exact (hkind _ (List.getLast_mem hne)).trans (by simpa using hother)
    rw [List.flatten_cons,
      substitute_identifier_run hne hkind hbefore fun _ hc => hrest.isWord_head hc, ih hlast]
    rfl

/-- Blinding replaces what the expression for identifiers finds. -/
theorem blind_eq_substitute (x : Text) : blind x = identifier.substitute blindWord none 0 x := by
  obtain ⟨kind, hturns⟩ := exists_byTurns_runs x
  have hruns : identifier.substitute blindWord none 0 x.runs.flatten =
      (x.runs.map blindRun).flatten :=
    hturns.substitute_identifier fun _ => rfl
  rw [blind_eq_flatten, ← hruns, Text.flatten_runs]

end Identifiers

/-- Two texts have the same blinded form if and only if they have as many maximal runs, and at each
place the two runs are equal or both renamable. So blinding a second time changes nothing, nor does
it matter which renamable words stand for those of a text. What is replaced are the matches of the
expression for identifiers. -/
theorem blind_eq_blind_iff (x y : Text) :
    (x.runs.flatten = x ∧ ∃ kind, ByTurns kind x.runs) ∧
    (blind x = blind y ↔ List.Forall₂ SameOrRenamable x.runs y.runs) ∧
    blind (blind x) = blind x ∧
    (∀ pieces, List.Forall₂ RenamesTo x.runs pieces → blind pieces.flatten = blind x) ∧
    blind x = identifier.substitute blindWord none 0 x := by
  refine ⟨Text.runs_eq_iff.1 rfl, ?_, ?_, fun _ => blind_renamed, blind_eq_substitute x⟩
  · rw [← map_blindRun_eq_iff]
    constructor
    · intro h
      rw [← runs_blind, h, runs_blind]
    · intro h
      rw [blind_eq_flatten, h, ← blind_eq_flatten]
  · rw [blind_eq_flatten (blind x), runs_blind, List.map_map, blind_eq_flatten x]
    congr 1
    exact List.map_congr_left fun run _ => blindRun_blindRun run

/-- A call of one name with another one, and the same call with other names. -/
theorem blind_eq_blind_iff_call :
    List.Forall₂ RenamesTo (Text.runs ['f', '1', '(', 'x', ')']) [['g'], ['('], ['_', '2'], [')']] ∧
      blind ['g', '(', '_', '2', ')'] = blind ['f', '1', '(', 'x', ')'] := by
  have hpieces : List.Forall₂ RenamesTo (Text.runs ['f', '1', '(', 'x', ')'])
      [['g'], ['('], ['_', '2'], [')']] :=
    .cons (.inr ⟨by decide, by decide, List.all_eq_true.1 (by decide)⟩) <| .cons (.inl rfl) <|
      .cons (.inr ⟨by decide, by decide, List.all_eq_true.1 (by decide)⟩) <| .cons (.inl rfl) .nil
  obtain ⟨-, -, -, hrenamed, -⟩ := blind_eq_blind_iff ['f', '1', '(', 'x', ')'] []
  exact ⟨hpieces, hrenamed _ hpieces⟩

end CloneDetection
