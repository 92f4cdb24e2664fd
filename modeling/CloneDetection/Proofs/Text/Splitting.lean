/-!
# Cutting at a mark

A list that is cut at a mark has parts without the mark, and nothing else than what was in the list.
Parts that were put one after the other, each with a mark at its end, are found again.
-/
namespace CloneDetection

variable {α : Type} [BEq α] [LawfulBEq α] {a : α}

theorem not_mem_of_mem_splitOn {t part : List α} (h : part ∈ t.splitOn a) : a ∉ part := by
  induction t generalizing part with
  | nil =>
    rw [List.splitOn_nil, List.mem_singleton] at h
    rw [h]
    exact List.not_mem_nil
  | cons x t ih =>
    rw [List.splitOn_cons_eq_if_modifyHead] at h
    split at h
    · rcases List.mem_cons.1 h with rfl | hrest
      · exact List.not_mem_nil
      · exact ih hrest
    · next hx =>
      cases hparts : t.splitOn a with
      | nil => exact absurd hparts (List.splitOn_ne_nil a t)
      | cons first rest =>
        rw [hparts] at h ih
        rcases List.mem_cons.1 h with rfl | hrest
        · intro hmem
          rcases List.mem_cons.1 hmem with rfl | hfirst
          · simp at hx
          · exact ih List.mem_cons_self hfirst
        · exact ih (List.mem_cons_of_mem _ hrest)

omit [BEq α] [LawfulBEq α] in
theorem mem_intercalate_of_mem {separator part : List α} {parts : List (List α)} {c : α}
    (hpart : part ∈ parts) (hc : c ∈ part) : c ∈ separator.intercalate parts := by
  induction parts with
  | nil => cases hpart
  | cons first parts ih =>
    cases parts with
    | nil =>
      rw [List.mem_singleton] at hpart
      simpa [← hpart] using hc
    | cons second parts =>
      rw [List.intercalate_cons_cons]
      rcases List.mem_cons.1 hpart with rfl | hrest
      · simp [hc]
      · simp [ih hrest]

theorem mem_of_mem_splitOn {t part : List α} {c : α} (hpart : part ∈ t.splitOn a) (hc : c ∈ part) :
    c ∈ t := by
  have hjoined : [a].intercalate (t.splitOn a) = t := List.intercalate_splitOn a
  rw [← hjoined]
  exact mem_intercalate_of_mem hpart hc

section Terminated

variable {texts : List (List α)}

/-- Texts that end with a mark are found again by cutting at the marks, whatever comes after
them. -/
theorem splitOn_flatMap_terminated_append (h : ∀ t ∈ texts, a ∉ t) (last : List α) :
    (texts.flatMap (· ++ [a]) ++ last).splitOn a = texts ++ last.splitOn a := by
  induction texts with
  | nil => rfl
  | cons t texts ih =>
    rw [List.flatMap_cons, List.append_assoc, List.append_assoc, List.singleton_append,
      List.splitOn_append_cons_self_of_not_mem (h t List.mem_cons_self),
      ih fun s hs => h s (List.mem_cons_of_mem _ hs), List.cons_append]

theorem splitOn_flatMap_terminated (h : ∀ t ∈ texts, a ∉ t) :
    (texts.flatMap (· ++ [a])).splitOn a = texts ++ [[]] := by
  simpa using splitOn_flatMap_terminated_append h []

theorem flatMap_terminated_inj {others : List (List α)} (h : ∀ t ∈ texts, a ∉ t)
    (h' : ∀ t ∈ others, a ∉ t) :
    texts.flatMap (· ++ [a]) = others.flatMap (· ++ [a]) ↔ texts = others := by
  refine ⟨fun heq => ?_, fun heq => by rw [heq]⟩
  have hparts : texts ++ [[]] = others ++ [[]] := by
    rw [← splitOn_flatMap_terminated h, ← splitOn_flatMap_terminated h', heq]
  exact List.append_cancel_right hparts

end Terminated

end CloneDetection
