import CloneDetection.Proofs.Path.Within

/-!
# Paths by their components

Taking a path apart at its slashes and putting components together are inverse to each other. A text
between slashes stands in another one exactly if its components stand in a row among those of the
other, whole components only. The base name is what stands after the last slash.
-/
namespace CloneDetection

namespace Path

theorem components_ne_nil (path : Text) : components path ≠ [] :=
  List.splitOn_ne_nil '/' path

theorem ofComponents_components (path : Text) : ofComponents (components path) = path :=
  List.intercalate_splitOn '/'

theorem ofComponents_cons (n : Text) {names : List Text} (h : names ≠ []) :
    ofComponents (n :: names) = n ++ '/' :: ofComponents names := by
  have hjoin : ofComponents (n :: names) = n ++ ['/'] ++ ofComponents names :=
    List.intercalate_cons_of_ne_nil h
  rw [hjoin, List.append_assoc, List.singleton_append]

theorem ofComponents_singleton (n : Text) : ofComponents [n] = n :=
  List.append_nil n

theorem ofComponents_append {a b : List Text} (ha : a ≠ []) (hb : b ≠ []) :
    ofComponents (a ++ b) = ofComponents a ++ '/' :: ofComponents b := by
  induction a with
  | nil => exact absurd rfl ha
  | cons n a ih =>
    by_cases hnil : a = []
    · rw [hnil, List.singleton_append, ofComponents_cons n hb, ofComponents_singleton]
    · rw [List.cons_append, ofComponents_cons n (List.append_ne_nil_of_left_ne_nil hnil b), ih hnil,
        ofComponents_cons n hnil, List.append_assoc, List.cons_append]

theorem ofComponents_mono {a b : List Text} (h : a <+: b) : ofComponents a <+: ofComponents b := by
  obtain ⟨rest, rfl⟩ := h
  by_cases ha : a = []
  · rw [ha]
    exact List.nil_prefix
  · by_cases hrest : rest = []
    · simp [hrest]
    · rw [ofComponents_append ha hrest]
      exact List.prefix_append ..

/-- Slashes around a path add an empty component at either end. -/
theorem components_enclosed (path : Text) :
    components ('/' :: path ++ ['/']) = [] :: components path ++ [[]] := by
  have hback : components (path ++ ['/']) = components path ++ [[]] :=
    components_append_slash path []
  have hfront := components_append_slash [] (path ++ ['/'])
  rw [hback] at hfront
  exact hfront

/-- Between slashes a path stands in another one if its components stand in a row in those of the
other. -/
theorem enclosed_infix_iff (d path : Text) :
    '/' :: d ++ ['/'] <:+: '/' :: path ++ ['/'] ↔ components d <:+: components path := by
  constructor
  · rintro ⟨before, after, heq⟩
    have hparts := congrArg components heq
    have hsplit : before ++ ('/' :: d ++ ['/']) ++ after =
        before ++ '/' :: (d ++ '/' :: after) := by simp
    rw [hsplit, components_append_slash, components_append_slash, components_enclosed] at hparts
    obtain ⟨first, front, hfront⟩ := List.exists_cons_of_ne_nil (components_ne_nil before)
    obtain ⟨back, last, hback⟩ :=
      (List.eq_nil_or_concat' (components after)).resolve_left (components_ne_nil after)
    rw [hfront, hback] at hparts
    have hinner : front ++ components d ++ back ++ [last] = components path ++ [[]] := by
      simpa using (List.cons.inj hparts).2
    exact ⟨front, back, (List.append_inj' hinner rfl).1⟩
  · rintro ⟨front, back, heq⟩
    have hparts : components ('/' :: path ++ ['/']) =
        ([] :: front) ++ (components d ++ (back ++ [[]])) := by
      rw [components_enclosed, ← heq]
      simp
    have hback : back ++ [[]] ≠ [] := List.append_ne_nil_of_right_ne_nil _ (List.cons_ne_nil _ _)
    refine ⟨ofComponents ([] :: front), ofComponents (back ++ [[]]), ?_⟩
    calc ofComponents ([] :: front) ++ ('/' :: d ++ ['/']) ++ ofComponents (back ++ [[]])
        = ofComponents ([] :: front) ++ '/' :: (d ++ '/' :: ofComponents (back ++ [[]])) := by simp
      _ = ofComponents (([] :: front) ++ (components d ++ (back ++ [[]]))) := by
          rw [ofComponents_append (List.cons_ne_nil _ _)
            (List.append_ne_nil_of_left_ne_nil (components_ne_nil d) _),
            ofComponents_append (components_ne_nil d) hback, ofComponents_components]
      _ = '/' :: path ++ ['/'] := by rw [← hparts, ofComponents_components]

section BaseName

variable {e : Text} (he : '/' ∉ e)
include he

theorem baseName_append (t : Text) : baseName (t ++ e) = baseName t ++ e := by
  have hplain : ∀ c ∈ e.reverse, (c != '/') = true := by
    intro c hc
    rw [bne_iff_ne]
    rintro rfl
    exact he (List.mem_reverse.1 hc)
  rw [baseName, List.reverse_append, List.takeWhile_append_of_pos hplain, List.reverse_append,
    List.reverse_reverse]
  rfl

theorem suffix_baseName_iff (t : Text) : e <:+ baseName t ↔ e <:+ t := by
  constructor
  · intro h
    have hbase : baseName t <:+ t :=
      List.reverse_prefix.1 (by simpa [baseName] using List.takeWhile_prefix _)
    exact h.trans hbase
  · rintro ⟨front, rfl⟩
    rw [baseName_append he]
    exact List.suffix_append _ _

theorem suffix_append_slash_iff (a b : Text) : e <:+ a ++ '/' :: b ↔ e <:+ b := by
  constructor
  · intro h
    have hb : '/' :: b <:+ a ++ '/' :: b := List.suffix_append _ _
    rcases List.suffix_or_suffix_of_suffix h hb with hshort | hlong
    · rcases List.suffix_cons_iff.1 hshort with rfl | hsuffix
      · exact absurd List.mem_cons_self he
      · exact hsuffix
    · exact absurd (hlong.subset List.mem_cons_self) he
  · intro h
    exact h.trans ((List.suffix_cons '/' b).trans (List.suffix_append _ _))

end BaseName

end Path

end CloneDetection
