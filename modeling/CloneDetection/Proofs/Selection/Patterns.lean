import CloneDetection.Proofs.Path.Components
import CloneDetection.Proofs.Path.Matching
import CloneDetection.Selection.Pattern

/-!
# What patterns stand for

A star of a glob crosses slashes, so a directory pattern is more than its glob: the glob sees the
directory at the front of a path, the comparison of texts between slashes sees it anywhere. Together
they accept the paths that have the directory as a run of whole components. A recursive pattern for
an ending needs both its rules in the same way: its glob asks for a directory in between, the base
name covers what is directly in the first one.
-/
namespace CloneDetection

def Path.IsComponent (name : Text) : Prop :=
  name ≠ [] ∧ '/' ∉ name

instance : DecidablePred Path.IsComponent :=
  fun name => inferInstanceAs (Decidable (name ≠ [] ∧ '/' ∉ name))

namespace Pattern

open CloneDetection.Path Glob

theorem isNamePattern_eq_false {pattern : Text} (h : '/' ∈ pattern) :
    isNamePattern pattern = false := by
  simp [isNamePattern, h]

theorem matchesPath_of_slash {pattern : Text} (h : '/' ∈ pattern) (path : Text) :
    matchesPath path pattern = globMatches pattern path := by
  rw [matchesPath, isNamePattern_eq_false h, Bool.false_and, Bool.or_false]

theorem isPlain_ofComponents {names : List Text} (h : ∀ n ∈ names, IsPlain n) :
    IsPlain (ofComponents names) := by
  induction names with
  | nil => exact fun _ hc => absurd hc List.not_mem_nil
  | cons n names ih =>
    obtain ⟨hn, hnames⟩ := List.forall_mem_cons.1 h
    by_cases hnil : names = []
    · rw [hnil, ofComponents_singleton]
      exact hn
    · rw [ofComponents_cons n hnil]
      refine List.forall_mem_append.2 ⟨hn, List.forall_mem_cons.2 ⟨by decide, ih hnames⟩⟩

section Directory

theorem directory?_append (d : Text) : directory? (d ++ "/**".toList) = some d := by
  have hsuffix : "/**".toList.isSuffixOf (d ++ "/**".toList) = true :=
    List.isSuffixOf_iff_suffix.2 (List.suffix_append _ _)
  rw [directory?, if_pos hsuffix]
  simp

/-- A directory pattern excludes by its glob or by the directory between slashes. -/
theorem excludes_directory_iff (d path : Text) :
    excludes (d ++ "/**".toList) path = true ↔
      Matches (parse d ++ [.literal '/', .star, .star]) path ∨
      components d <:+: components path := by
  have hslash : '/' ∈ d ++ "/**".toList := List.mem_append_right _ List.mem_cons_self
  have hparse : parse (d ++ "/**".toList) = parse d ++ [.literal '/', .star, .star] := by
    have hstars : parse ['*', '*'] = [.star, .star] := by simp [parse]
    rw [← hstars]
    exact parse_append_slash (by decide) d
  rw [excludes, matchesPath_of_slash hslash, directory?_append, Bool.or_eq_true, globMatches_iff,
    hparse]
  dsimp only
  rw [Text.hasInfix_iff, enclosed_infix_iff]

/-- The glob of a plain directory pattern sees the directory at the front only. -/
theorem matches_directory_iff (d path : Text) :
    Matches (d.map .literal ++ [.literal '/', .star, .star]) path ↔
    ∃ rest, path = d ++ '/' :: rest := by
  simp only [matches_append, matches_literals, matches_literal]
  constructor
  · rintro ⟨_, _, rfl, rfl, rest, rfl, -⟩
    exact ⟨rest, rfl⟩
  · rintro ⟨rest, rfl⟩
    have hstars : Matches [.star, .star] rest :=
      matches_star.2 ⟨rest, [], by simp, matches_star.2 ⟨[], [], rfl, .nil⟩⟩
    exact ⟨d, '/' :: rest, rfl, rfl, rest, rfl, hstars⟩

/-- What is below a directory has the directory as its first components. -/
theorem components_infix_of_matches {d path : Text}
    (h : Matches (d.map .literal ++ [.literal '/', .star, .star]) path) :
    components d <:+: components path := by
  obtain ⟨rest, rfl⟩ := (matches_directory_iff d path).1 h
  rw [components_append_slash]
  exact (List.prefix_append _ _).isInfix

theorem components_infix_iff {d p : List Text} (hne : d ≠ []) (hd : ∀ n ∈ d, IsComponent n)
    (hp : ∀ n ∈ p, IsComponent n) :
    components (ofComponents d) <:+: components (ofComponents p) ↔ d <:+: p := by
  rw [components_ofComponents hne fun n hn => (hd n hn).2]
  by_cases hnil : p = []
  · -- the empty text has one component, which is empty
    subst hnil
    refine iff_of_false ?_ (by simp [hne])
    intro h
    obtain ⟨n, hn⟩ := List.exists_mem_of_ne_nil d hne
    exact (hd n hn).1 (List.mem_singleton.1 (h.subset hn))
  · rw [components_ofComponents hnil fun n hn => (hp n hn).2]

theorem anyExcludes_singleton (pattern path : Text) :
    anyExcludes [pattern] path = excludes pattern path := by
  simp [anyExcludes]

/-- What is below an excluded path is excluded, whatever globs the pattern starts with. -/
theorem excludes_append_slash {d path : Text} (h : excludes (d ++ "/**".toList) path = true)
    (rest : Text) :
    excludes (d ++ "/**".toList) (path ++ '/' :: rest) = true := by
  rw [excludes_directory_iff] at h ⊢
  rcases h with hglob | hinside
  · left
    have hlast : parse d ++ [.literal '/', .star, .star] =
        (parse d ++ [.literal '/', .star]) ++ [.star] := by simp
    rw [hlast] at hglob ⊢
    exact hglob.append_right _
  · right
    rw [components_append_slash]
    exact hinside.trans (List.prefix_append _ _).isInfix

/-- A pattern of a directory without special characters excludes exactly the paths that have the
components of the directory in a row. Below a path that such a pattern excludes, with whatever
special characters, everything is excluded too. -/
theorem anyExcludes_directory :
    (∀ d : List Text, d ≠ [] → (∀ n ∈ d, IsComponent n ∧ IsPlain n) → ∀ p : List Text,
      (∀ n ∈ p, IsComponent n) →
      (anyExcludes [ofComponents d ++ "/**".toList] (ofComponents p) = true ↔ d <:+: p)) ∧
    ∀ pattern : Text, "/**".toList <:+ pattern → ∀ p q : Text,
      anyExcludes [pattern] p = true → anyExcludes [pattern] (p ++ '/' :: q) = true := by
  constructor
  · intro d hne hd p hp
    have hplain : IsPlain (ofComponents d) := isPlain_ofComponents fun n hn => (hd n hn).2
    rw [anyExcludes_singleton, excludes_directory_iff, parse_plain hplain,
      or_iff_right_of_imp components_infix_of_matches]
    exact components_infix_iff hne (fun n hn => (hd n hn).1) hp
  · rintro pattern ⟨d, rfl⟩ p q h
    rw [anyExcludes_singleton] at h ⊢
    exact excludes_append_slash h q

/-- A directory of two components deep in a path, a directory whose name only starts alike, and an
open bracket. -/
theorem anyExcludes_directory_vendor :
    ["lib".toList, "vendor".toList] ≠ [] ∧
    (∀ n ∈ ["lib".toList, "vendor".toList], IsComponent n ∧ IsPlain n) ∧
      anyExcludes ["lib/vendor/**".toList] "src/lib/vendor/a.c".toList = true ∧
      anyExcludes ["lib/vendor/**".toList] "src/lib/vendored/a.c".toList = false ∧
      "/**".toList <:+ "*[a/**".toList ∧ anyExcludes ["*[a/**".toList] "x[a/b".toList = true ∧
      anyExcludes ["*[a/**".toList] "x[a/b/c.c".toList = true := by
  have hne : ["lib".toList, "vendor".toList] ≠ [] := by decide
  have hd : ∀ n ∈ ["lib".toList, "vendor".toList], IsComponent n ∧ IsPlain n := by decide
  have hiff := anyExcludes_directory.1 _ hne hd
  have hinside := hiff ["src".toList, "lib".toList, "vendor".toList, "a.c".toList] (by decide)
  have houtside := hiff ["src".toList, "lib".toList, "vendored".toList, "a.c".toList] (by decide)
  have hsuffix : "/**".toList <:+ "*[a/**".toList := by decide
  have hopen : anyExcludes ["*[a/**".toList] "x[a/b".toList = true := by decide +kernel
  refine ⟨hne, hd, hinside.2 (by decide), ?_, hsuffix, hopen,
    anyExcludes_directory.2 _ hsuffix _ "c.c".toList hopen⟩
  rw [← Bool.not_eq_true]
  exact fun h => absurd (houtside.1 h) (by decide)

end Directory

section Recursive

theorem cutDoubleStar?_append {t : Text} (ht : IsPlain t) (u : Text) :
    cutDoubleStar? (t ++ '*' :: '*' :: u) = some (t, u) := by
  induction t with
  | nil => rfl
  | cons c t ih =>
    obtain ⟨⟨hstar, -⟩, ht⟩ := List.forall_mem_cons.1 ht
    rw [List.cons_append, cutDoubleStar?, ih ht]
    · rfl
    · exact fun _ hc => absurd hc hstar

/-- The glob of a recursive pattern asks for a directory between the first one and the file. -/
theorem matches_recursive_iff (d e path : Text) :
    Matches (d.map .literal ++ .literal '/' :: .star :: .star :: .literal '/' :: .star ::
      e.map .literal) path ↔
      ∃ below front, path = d ++ '/' :: (below ++ '/' :: (front ++ e)) := by
  simp only [matches_append, matches_literals, matches_star, matches_literal]
  constructor
  · rintro ⟨_, _, rfl, rfl, _, rfl, outer, _, rfl, inner, _, rfl, _, rfl, front, _, rfl, rfl⟩
    exact ⟨outer ++ inner, front, by simp⟩
  · rintro ⟨below, front, rfl⟩
    exact ⟨d, _, rfl, rfl, _, rfl, [], _, rfl, below, _, rfl, _, rfl, front, e, rfl, rfl⟩

theorem matches_ending_iff (e path : Text) :
    Matches (.star :: e.map .literal) path ↔ e <:+ path := by
  simp only [matches_star, matches_literals]
  constructor
  · rintro ⟨front, _, rfl, rfl⟩
    exact List.suffix_append _ _
  · rintro ⟨front, rfl⟩
    exact ⟨front, e, rfl, rfl⟩

variable {d e : Text} (hd : IsPlain d) (he : IsPlain e) (hslash : '/' ∉ e)
include hd he hslash

/-- A recursive pattern for an ending includes what is below its directory and ends like this. -/
theorem includes_recursive_iff (path : Text) :
    includes (d ++ "/**/*".toList ++ e) path = true ↔ d ++ ['/'] <+: path ∧ e <:+ path := by
  have hpattern : d ++ "/**/*".toList ++ e = (d ++ ['/']) ++ '*' :: '*' :: '/' :: '*' :: e := by
    simp
  have hend : IsPlain ['/'] := by decide
  have hfront : IsPlain (d ++ ['/']) := List.forall_mem_append.2 ⟨hd, hend⟩
  have hparse : parse (d ++ "/**/*".toList ++ e) =
      d.map .literal ++ .literal '/' :: .star :: .star :: .literal '/' :: .star ::
        e.map .literal := by
    rw [hpattern, parse_plain_append hfront, ← parse_plain he]
    simp [parse]
  have hname : parse ('*' :: e) = .star :: e.map .literal := by rw [parse, parse_plain he]
  have hmem : '/' ∈ d ++ "/**/*".toList ++ e := by simp
  rw [includes, matchesPath_of_slash hmem, Bool.or_eq_true, globMatches_iff, hparse,
    matches_recursive_iff, hpattern, cutDoubleStar?_append hfront]
  simp only [List.head?_cons, beq_self_eq_true, if_true, List.tail_cons, List.isEmpty_cons,
    Bool.false_or, Bool.and_eq_true, List.isPrefixOf_iff_prefix, globMatches_iff, hname,
    matches_ending_iff, suffix_baseName_iff hslash]
  constructor
  · rintro (⟨below, front, rfl⟩ | ⟨⟨rest, rfl⟩, hend⟩)
    · exact ⟨⟨below ++ '/' :: (front ++ e), by simp⟩,
        ⟨d ++ '/' :: (below ++ '/' :: front), by simp⟩⟩
    · rw [List.drop_left] at hend
      exact ⟨List.prefix_append _ _, hend.trans (List.suffix_append _ _)⟩
  · rintro ⟨⟨rest, rfl⟩, hend⟩
    refine .inr ⟨List.prefix_append _ _, ?_⟩
    rw [List.append_assoc, List.singleton_append, suffix_append_slash_iff hslash] at hend
    rwa [List.drop_left]

end Recursive

theorem below_directory_iff {d p : List Text} {e : Text} (hne : d ≠ [])
    (hd : ∀ n ∈ d, IsComponent n) (hp : ∀ n ∈ p, IsComponent n) (he : '/' ∉ e) :
    ofComponents d ++ ['/'] <+: ofComponents p ∧ e <:+ ofComponents p ↔
      ∃ below name, p = d ++ below ++ [name] ∧ e <:+ name := by
  have hends {below : List Text} {name : Text} : e <:+ ofComponents (d ++ below ++ [name]) ↔
      e <:+ name := by
    rw [ofComponents_append (List.append_ne_nil_of_left_ne_nil hne _) (List.cons_ne_nil _ _),
      ofComponents_singleton, suffix_append_slash_iff he]
  constructor
  · rintro ⟨⟨rest, heq⟩, hend⟩
    have hnil : p ≠ [] := by
      rintro rfl
      simp [ofComponents, Text.join] at heq
    obtain ⟨below, name, hrest⟩ :=
      (List.eq_nil_or_concat' (components rest)).resolve_left (components_ne_nil rest)
    have hparts : p = d ++ below ++ [name] := by
      rw [← components_ofComponents hnil fun n hn => (hp n hn).2, ← heq, List.append_assoc,
        List.singleton_append, components_append_slash, components_ofComponents hne fun n hn =>
        (hd n hn).2, hrest, List.append_assoc]
    refine ⟨below, name, hparts, ?_⟩
    rwa [hparts, hends] at hend
  · rintro ⟨below, name, rfl, hend⟩
    refine ⟨⟨ofComponents (below ++ [name]), ?_⟩, hends.2 hend⟩
    rw [List.append_assoc, List.singleton_append, List.append_assoc,
      ofComponents_append hne (List.append_ne_nil_of_right_ne_nil _ (List.cons_ne_nil _ _))]

theorem anyIncludes_singleton (pattern path : Text) :
    anyIncludes [pattern] path = includes pattern path := by
  simp [anyIncludes]

/-- A directory, a double star and an ending include the paths that start with the directory and a
slash and have the ending: those of a file with the ending directly in the directory or however deep
below it. -/
theorem anyIncludes_recursive {d p : List Text} {e : Text} (hne : d ≠ [])
    (hd : ∀ n ∈ d, IsComponent n ∧ IsPlain n) (he : IsPlain e ∧ '/' ∉ e)
    (hp : ∀ n ∈ p, IsComponent n) :
    (anyIncludes [ofComponents d ++ "/**/*".toList ++ e] (ofComponents p) = true ↔
      ofComponents d ++ ['/'] <+: ofComponents p ∧ e <:+ ofComponents p) ∧
    (anyIncludes [ofComponents d ++ "/**/*".toList ++ e] (ofComponents p) = true ↔
      ∃ below name, p = d ++ below ++ [name] ∧ e <:+ name) := by
  have hplain : IsPlain (ofComponents d) := isPlain_ofComponents fun n hn => (hd n hn).2
  have htext : anyIncludes [ofComponents d ++ "/**/*".toList ++ e] (ofComponents p) = true ↔
      ofComponents d ++ ['/'] <+: ofComponents p ∧ e <:+ ofComponents p := by
    rw [anyIncludes_singleton, includes_recursive_iff hplain he.1 he.2]
  exact ⟨htext, htext.trans (below_directory_iff hne (fun n hn => (hd n hn).1) hp he.2)⟩

/-- A file directly in the directory, where the glob alone fails, one deep below it, and one of a
directory whose name starts alike. -/
theorem anyIncludes_recursive_sources :
    ["src".toList] ≠ [] ∧ (∀ n ∈ ["src".toList], IsComponent n ∧ IsPlain n) ∧ IsPlain ".py".toList ∧
    '/' ∉ ".py".toList ∧
      globMatches "src/**/*.py".toList "src/a.py".toList = false ∧
      anyIncludes ["src/**/*.py".toList] "src/a.py".toList = true ∧
      anyIncludes ["src/**/*.py".toList] "src/x/y/a.py".toList = true ∧
      anyIncludes ["src/**/*.py".toList] "src2/a.py".toList = false := by
  have hne : ["src".toList] ≠ [] := by decide
  have hd : ∀ n ∈ ["src".toList], IsComponent n ∧ IsPlain n := by decide
  have he : IsPlain ".py".toList ∧ '/' ∉ ".py".toList := by decide
  have hdirect := anyIncludes_recursive (p := ["src".toList, "a.py".toList]) hne hd he (by decide)
  have hdeep := anyIncludes_recursive (p :=
    ["src".toList, "x".toList, "y".toList, "a.py".toList]) hne hd he (by decide)
  have hother := anyIncludes_recursive (p := ["src2".toList, "a.py".toList]) hne hd he (by decide)
  refine ⟨hne, hd, he.1,
    he.2, by decide +kernel, hdirect.1.2 (by decide), hdeep.1.2 (by decide), ?_⟩
  rw [← Bool.not_eq_true]
  exact fun h => absurd (hother.1.1 h) (by decide)

end Pattern

end CloneDetection
