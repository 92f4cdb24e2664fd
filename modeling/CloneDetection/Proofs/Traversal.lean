import Mathlib.Data.List.Forall2

/-!
# Computations that may fail

A computation that ends well has met no failure on its way, and a traversal that fails has met the
failure it ends in.
-/
namespace CloneDetection

variable {α β ε : Type} {f : α → Except ε β}

theorem exists_of_bind_eq_ok {x : Except ε α} {b : β} (h : x >>= f = .ok b) :
    ∃ a, x = .ok a ∧ f a = .ok b := by
  cases x with
  | error e => cases h
  | ok a => exact ⟨a, rfl, h⟩

theorem foldlM_eq_ok {step : β → α → Except ε β} {next : β → α → β} {l : List α}
    (h : ∀ a ∈ l, ∀ b, step b a = .ok (next b a)) (b : β) :
    l.foldlM step b = .ok (l.foldl next b) := by
  induction l generalizing b with
  | nil => rfl
  | cons a l ih =>
    obtain ⟨hfirst, hrest⟩ := List.forall_mem_cons.1 h
    rw [List.foldlM_cons, hfirst, List.foldl_cons]
    exact ih hrest (next b a)

theorem forall₂_of_mapM_eq_ok {l : List α} {m : List β} (h : l.mapM f = .ok m) :
    List.Forall₂ (fun a b => f a = .ok b) l m := by
  induction l generalizing m with
  | nil =>
    cases h
    exact .nil
  | cons a l ih =>
    rw [List.mapM_cons] at h
    cases ha : f a with
    | error e =>
      rw [ha] at h
      cases h
    | ok b =>
      rw [ha] at h
      cases hl : l.mapM f with
      | error e =>
        rw [hl] at h
        cases h
      | ok bs =>
        rw [hl] at h
        cases h
        exact .cons ha (ih hl)

theorem mapM_eq_ok_of_forall₂ {l : List α} {m : List β}
    (h : List.Forall₂ (fun a b => f a = .ok b) l m) :
    l.mapM f = .ok m := by
  induction h with
  | nil => rfl
  | cons hfirst _ ih =>
    rw [List.mapM_cons, hfirst, ih]
    rfl

theorem exists_of_mapM_eq_ok {l : List α} {m : List β} (h : l.mapM f = .ok m) {a : α} (ha : a ∈ l) :
    ∃ b ∈ m, f a = .ok b := by
  have hall := forall₂_of_mapM_eq_ok h
  clear h
  induction hall with
  | nil => cases ha
  | cons hfirst _ ih =>
    rcases List.mem_cons.1 ha with rfl | hrest
    · exact ⟨_, List.mem_cons_self, hfirst⟩
    · obtain ⟨b, hb, hfb⟩ := ih hrest
      exact ⟨b, List.mem_cons_of_mem _ hb, hfb⟩

theorem mapM_eq_error_iff {l : List α} {e : ε} :
    l.mapM f = .error e ↔
      ∃ before a after, l = before ++ a :: after ∧ (∀ b ∈ before, ∃ c, f b = .ok c) ∧
        f a = .error e := by
  induction l with
  | nil =>
    refine iff_of_false nofun ?_
    rintro ⟨before, a, after, hsplit, -⟩
    cases before <;> cases hsplit
  | cons a l ih =>
    rw [List.mapM_cons]
    constructor
    · intro h
      cases ha : f a with
      | error e' =>
        rw [ha] at h
        cases h
        exact ⟨[], a, l, rfl, nofun, ha⟩
      | ok b =>
        rw [ha] at h
        cases hl : l.mapM f with
        | error e' =>
          rw [hl] at h
          cases h
          obtain ⟨before, c, after, rfl, hbefore, herror⟩ := ih.1 hl
          exact ⟨a :: before, c, after, rfl, List.forall_mem_cons.2 ⟨⟨b, ha⟩, hbefore⟩, herror⟩
        | ok bs =>
          rw [hl] at h
          cases h
    · rintro ⟨before, c, after, hsplit, hbefore, herror⟩
      cases before with
      | nil =>
        cases hsplit
        rw [herror]
        rfl
      | cons b before =>
        cases hsplit
        obtain ⟨⟨d, hd⟩, hrest⟩ := List.forall_mem_cons.1 hbefore
        rw [hd, ih.2 ⟨before, c, after, rfl, hrest, herror⟩]
        rfl

theorem exists_of_mapM_eq_error {l : List α} {e : ε} (h : l.mapM f = .error e) :
    ∃ a ∈ l, f a = .error e := by
  obtain ⟨before, a, after, rfl, -, herror⟩ := mapM_eq_error_iff.1 h
  exact ⟨a, List.mem_append_right _ List.mem_cons_self, herror⟩

end CloneDetection
