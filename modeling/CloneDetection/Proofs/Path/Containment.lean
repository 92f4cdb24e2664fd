import CloneDetection.Proofs.Path.Components

/-!
# Containment by components

A path in normal form is one slash and the components after it, none of which is empty or stands for
another directory. One such path is within another one, which is decided on the texts alone, if and
only if it has the components of the other one first. A slash is put after the root, so `/ab` is not
within `/a`; the topmost directory, whose path is a slash already, does not get another one.
-/
namespace CloneDetection

namespace Path

/-- The topmost directory, or components after a single slash, none of which is empty, `.` or
`..`. -/
def IsNormal (path : Text) : Prop :=
  isAbsolute path = true ∧ (path.tail = [] ∨ ∀ n ∈ components path.tail, Tree.isSpecial n = false)

instance : DecidablePred IsNormal :=
  fun path => inferInstanceAs (Decidable (isAbsolute path = true ∧
    (path.tail = [] ∨ ∀ n ∈ components path.tail, Tree.isSpecial n = false)))

theorem isAbsolute_iff {path : Text} : isAbsolute path = true ↔ ∃ rest, path = '/' :: rest := by
  rw [isAbsolute, beq_iff_eq, List.head?_eq_some_iff]

theorem components_cons_slash (path : Text) : components ('/' :: path) = [] :: components path :=
  components_append_slash [] path

theorem components_prefix_iff (d path : Text) :
    components d <+: components path ↔ path = d ∨ d ++ ['/'] <+: path := by
  constructor
  · rintro ⟨rest, heq⟩
    rw [← ofComponents_components path, ← heq]
    by_cases hrest : rest = []
    · rw [hrest, List.append_nil, ofComponents_components]
      exact .inl rfl
    · rw [ofComponents_append (components_ne_nil d) hrest, ofComponents_components]
      exact .inr ⟨ofComponents rest, by rw [List.append_assoc, List.singleton_append]⟩
  · rintro (rfl | ⟨rest, rfl⟩)
    · exact List.prefix_rfl
    · rw [List.append_assoc, List.singleton_append, components_append_slash]
      exact List.prefix_append _ _

theorem stem_eq_self {root : Text} (h : root.getLast? ≠ some '/') :
    (root.reverse.dropWhile (· == '/')).reverse = root := by
  cases root using List.reverseRecOn with
  | nil => rfl
  | append_singleton root c =>
    rw [List.getLast?_concat, Ne, Option.some_inj] at h
    rw [List.reverse_append, List.reverse_singleton, List.singleton_append,
      List.dropWhile_cons_of_neg (by simpa using h), List.reverse_cons, List.reverse_reverse]

theorem within_iff_prefix_components {root : Text} (h : root.getLast? ≠ some '/') (path : Text) :
    within path root = true ↔ components root <+: components path := by
  rw [within, stem_eq_self h, Bool.or_eq_true, beq_iff_eq, List.isPrefixOf_iff_prefix,
    components_prefix_iff]

theorem within_slash_iff (path : Text) : within path ['/'] = true ↔ isAbsolute path = true := by
  have hstem : (['/'].reverse.dropWhile (· == '/')).reverse = [] := by decide
  rw [within, hstem, Bool.or_eq_true, beq_iff_eq, List.nil_append, List.isPrefixOf_iff_prefix,
    isAbsolute_iff]
  constructor
  · rintro (rfl | ⟨rest, rfl⟩)
    · exact ⟨[], rfl⟩
    · exact ⟨rest, rfl⟩
  · rintro ⟨rest, rfl⟩
    exact .inr ⟨rest, rfl⟩

/-- Below the topmost directory a path in normal form does not end in a slash, and only what is
before its first slash is no name. -/
theorem IsNormal.eq_slash_or {path : Text} (h : IsNormal path) :
    path = ['/'] ∨ path.getLast? ≠ some '/' ∧ Tree.namesOf path ≠ [] ∧
    components path = [] :: Tree.namesOf path := by
  obtain ⟨habsolute, hnames⟩ := h
  obtain ⟨rest, rfl⟩ := isAbsolute_iff.1 habsolute
  rw [List.tail_cons] at hnames
  rcases hnames with rfl | hnames
  · exact .inl rfl
  · have hne : ∀ n ∈ components rest, n ≠ [] := by
      rintro n hn rfl
      cases hnames [] hn
    have hnamesOf : Tree.namesOf ('/' :: rest) = components rest := by
      rw [Tree.namesOf, components_cons_slash, List.filter_cons_of_neg (by simp),
        List.filter_eq_self]
      simpa using hne
    refine .inr ⟨?_, ?_, ?_⟩
    · intro hlast
      have hrest : rest ≠ [] := by
        rintro rfl
        exact hne [] List.mem_cons_self rfl
      rw [List.getLast?_cons_of_ne_nil hrest, List.getLast?_eq_some_iff] at hlast
      obtain ⟨stem, rfl⟩ := hlast
      rw [components_append_slash] at hne
      exact hne [] (List.mem_append_right _ List.mem_cons_self) rfl
    · rw [hnamesOf]
      exact components_ne_nil rest
    · rw [hnamesOf, components_cons_slash]

theorem IsNormal.within_of_prefix {path root : Text} (hpath : IsNormal path)
    (hroot : IsNormal root) (hnames : Tree.namesOf root <+: Tree.namesOf path) :
    within path root = true := by
  rcases hroot.eq_slash_or with rfl | ⟨hlast, hne, hcomponents⟩
  · rw [within_slash_iff]
    exact hpath.1
  · rw [within_iff_prefix_components hlast, hcomponents]
    rcases hpath.eq_slash_or with rfl | ⟨-, -, hpathComponents⟩
    · exact absurd (List.prefix_nil.1 hnames) hne
    · rw [hpathComponents]
      exact (List.prefix_cons_inj []).2 hnames

/-- Of two paths in normal form, one is within the other if it has the names of the other first. -/
theorem within_iff_prefix_namesOf {path root : Text} (hpath : IsNormal path)
    (hroot : IsNormal root) :
    within path root = true ↔ Tree.namesOf root <+: Tree.namesOf path :=
  ⟨Tree.namesOf_prefix_of_within, hpath.within_of_prefix hroot⟩

/-- A directory has itself and what is below it within, not the one whose name goes on; the topmost
one has all. -/
theorem within_iff_prefix_namesOf_ab :
    IsNormal "/".toList ∧ IsNormal "/a".toList ∧ IsNormal "/ab".toList ∧ IsNormal "/a/b".toList ∧
      within "/a/b".toList "/a".toList = true ∧ within "/a".toList "/a".toList = true ∧
      within "/ab".toList "/a".toList = false ∧ within "/ab".toList "/".toList = true ∧
      within "/".toList "/".toList = true ∧ within "/".toList "/a".toList = false := by
  have htop : IsNormal "/".toList := by decide
  have ha : IsNormal "/a".toList := by decide
  have hab : IsNormal "/ab".toList := by decide
  have hbelow : IsNormal "/a/b".toList := by decide
  refine ⟨htop, ha, hab, hbelow, (within_iff_prefix_namesOf hbelow ha).2 (by decide),
    (within_iff_prefix_namesOf ha ha).2 (by decide), ?_,
    (within_iff_prefix_namesOf hab htop).2 (by decide),
    (within_iff_prefix_namesOf htop htop).2 (by decide), ?_⟩
  · rw [← Bool.not_eq_true, within_iff_prefix_namesOf hab ha]
    decide
  · rw [← Bool.not_eq_true, within_iff_prefix_namesOf htop ha]
    decide

end Path

end CloneDetection
