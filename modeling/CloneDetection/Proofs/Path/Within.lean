import CloneDetection.Proofs.Tree.Distinct
import Mathlib.Data.List.Induction

/-!
# Paths below others

The names of a path are taken apart at its slashes, so a path after another one has the names of
both. A path is within another one only if its names go on after those of the other: `/ab` is not
within `/a`.
-/
namespace CloneDetection

namespace Path

theorem components_append_slash (a b : Text) :
    components (a ++ '/' :: b) = components a ++ components b :=
  List.splitOnP_append_cons a b (by simp)

/-- A path below a root goes on after the root, but for a slash at its end. -/
theorem exists_components_append {root : Text} (hroot : root ≠ []) (path : Text) :
    ∃ stem, components (append root path) = stem ++ components path ∧
      (components root = stem ∨ components root = stem ++ [[]]) := by
  unfold append
  split
  · next hslash =>
    have hlast : root.getLast? = some '/' := by simpa [hroot] using hslash
    obtain ⟨stem, rfl⟩ := List.getLast?_eq_some_iff.1 hlast
    refine ⟨components stem, ?_, .inr (components_append_slash stem [])⟩
    rw [List.append_assoc, List.singleton_append, components_append_slash]
  · exact ⟨components root, components_append_slash root path, .inl rfl⟩

theorem isAbsolute_append {root : Text} (hroot : root ≠ []) (path : Text) :
    isAbsolute (append root path) = isAbsolute root := by
  obtain ⟨c, rest, rfl⟩ := List.exists_cons_of_ne_nil hroot
  unfold append
  split
  · rfl
  · rfl

end Path

namespace Tree

theorem namesOf_append_slash (a b : Text) : namesOf (a ++ '/' :: b) = namesOf a ++ namesOf b := by
  rw [namesOf, Path.components_append_slash, List.filter_append]
  rfl

theorem namesOf_append_slash_nil (a : Text) : namesOf (a ++ ['/']) = namesOf a := by
  rw [namesOf_append_slash]
  exact List.append_nil _

theorem namesOf_stem (path : Text) :
    namesOf (path.reverse.dropWhile (· == '/')).reverse = namesOf path := by
  induction path using List.reverseRecOn with
  | nil => rfl
  | append_singleton path c ih =>
    rw [List.reverse_append, List.reverse_singleton, List.singleton_append, List.dropWhile_cons]
    split
    · next hslash =>
      rw [ih, eq_of_beq hslash, namesOf_append_slash_nil]
    · rw [List.reverse_cons, List.reverse_reverse]

theorem namesOf_prefix_of_within {path root : Text} (h : Path.within path root = true) :
    namesOf root <+: namesOf path := by
  unfold Path.within at h
  rw [Bool.or_eq_true, beq_iff_eq, List.isPrefixOf_iff_prefix] at h
  rcases h with rfl | ⟨rest, rfl⟩
  · exact List.prefix_rfl
  · rw [List.append_assoc, List.singleton_append, namesOf_append_slash, namesOf_stem]
    exact List.prefix_append _ _

/-- A name of an entry: it is not empty, it does not stand for another directory, and it has no
slash in it. -/
structure IsName (name : Text) : Prop where
  ordinary : isSpecial name = false
  plain : '/' ∉ name

theorem IsName.ne_nil {name : Text} (h : IsName name) : name ≠ [] := by
  rintro rfl
  cases h.ordinary

section Absolute

variable {names : List Text} (h : ∀ n ∈ names, IsName n)
include h

theorem components_absolute (hne : names ≠ []) :
    Path.components (absolute names) = [] :: names := by
  have hcomponents := Path.components_append_slash [] (Path.ofComponents names)
  rw [Path.components_ofComponents hne fun n hn => (h n hn).plain] at hcomponents
  exact hcomponents

theorem namesOf_absolute : namesOf (absolute names) = names := by
  by_cases hne : names = []
  · subst hne
    rfl
  · rw [namesOf, components_absolute h hne, List.filter_cons_of_neg (by simp), List.filter_eq_self]
    intro n hn
    simpa using (h n hn).ne_nil

end Absolute

end Tree

end CloneDetection
