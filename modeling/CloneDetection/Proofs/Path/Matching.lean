import CloneDetection.Path.Glob
import Mathlib.Data.List.Forall2
import Mathlib.Data.List.Infix

/-!
# What a glob matches

The matcher decides for every end of a text at once. Here a match is a division of the text among
the tokens of the glob, which is taken apart where the glob is: globs that follow one another match
texts that follow one another, a glob without special characters matches itself only. What follows a
slash is read on its own as long as it holds no bracket that could close one before it.
-/
namespace CloneDetection

namespace Text

theorem cut?_append {c : Char} {u : Text} (hu : c ∉ u) (t : Text) :
    cut? c (t ++ u) = (cut? c t).map fun w => (w.1, w.2 ++ u) := by
  induction t with
  | nil =>
    rw [List.nil_append, cut?, Option.map_none]
    cases hcut : cut? c u with
    | none => rfl
    | some w =>
      obtain ⟨heq, -⟩ := cut?_eq_some hcut
      rw [heq] at hu
      exact absurd (List.mem_append_right _ List.mem_cons_self) hu
  | cons d t ih =>
    rw [List.cons_append, cut?, cut?, ih]
    split
    · rfl
    · cases cut? c t <;> rfl

end Text

namespace Glob

variable {token : Token} {tokens more : List Token} {t u : Text}

/-- The text is divided among the tokens: a star has any part of it, every other token one
character. -/
inductive Matches : List Token → Text → Prop
  | nil : Matches [] []
  | star {tokens : List Token} {t : Text} (skipped : Text) (h : Matches tokens t) :
      Matches (.star :: tokens) (skipped ++ t)
  | one {token : Token} {tokens : List Token} {c : Char} {t : Text} (hc : token.admits c = true)
      (h : Matches tokens t) :
      Matches (token :: tokens) (c :: t)

theorem matches_nil : Matches [] t ↔ t = [] := by
  constructor
  · rintro ⟨⟩
    rfl
  · rintro rfl
    exact .nil

theorem matches_star :
    Matches (.star :: tokens) t ↔ ∃ skipped rest, t = skipped ++ rest ∧ Matches tokens rest := by
  constructor
  · intro h
    cases h with
    | star skipped h => exact ⟨skipped, _, rfl, h⟩
    | one hc => cases hc
  · rintro ⟨skipped, rest, rfl, h⟩
    exact .star skipped h

theorem matches_one (hstar : token ≠ .star) :
    Matches (token :: tokens) t ↔ ∃ c rest, t = c :: rest ∧ token.admits c = true ∧
    Matches tokens rest := by
  constructor
  · intro h
    cases h with
    | star => exact absurd rfl hstar
    | one hc h => exact ⟨_, _, rfl, hc, h⟩
  · rintro ⟨c, rest, rfl, hc, h⟩
    exact .one hc h

theorem matches_literal (c : Char) :
    Matches (.literal c :: tokens) t ↔ ∃ rest, t = c :: rest ∧ Matches tokens rest := by
  simp [matches_one, Token.admits]

section Row

/-- For every end of the text, whether the tokens match it. -/
def Decides (tokens : List Token) (t : Text) (verdicts : List Bool) : Prop :=
  List.Forall₂ (fun u ok => ok = true ↔ Matches tokens u) t.tails verdicts

variable {verdicts : List Bool}

theorem decides_nil (t : Text) : Decides [] t (row t []) := by
  unfold Decides
  induction t with
  | nil => exact .cons (by simp [matches_nil]) .nil
  | cons c t ih => exact .cons (by simp [matches_nil]) ih

theorem Decides.foldr_or (h : Decides tokens t verdicts) :
    verdicts.foldr (· || ·) false = true ↔ Matches (.star :: tokens) t := by
  induction t generalizing verdicts with
  | nil =>
    obtain ⟨ok, _, hok, ⟨⟩, rfl⟩ := List.forall₂_cons_left_iff.1 h
    simpa [matches_star] using hok
  | cons c t ih =>
    obtain ⟨ok, rest, hok, hrest, rfl⟩ := List.forall₂_cons_left_iff.1 h
    rw [List.foldr_cons, Bool.or_eq_true, hok, ih hrest, matches_star, matches_star]
    constructor
    · rintro (hhere | ⟨skipped, rest, rfl, hlater⟩)
      · exact ⟨[], c :: t, rfl, hhere⟩
      · exact ⟨c :: skipped, rest, rfl, hlater⟩
    · rintro ⟨skipped, rest, ht, hmatches⟩
      cases skipped with
      | nil => exact .inl (ht ▸ hmatches)
      | cons d skipped =>
        obtain ⟨-, rfl⟩ := List.cons.inj ht
        exact .inr ⟨skipped, rest, rfl, hmatches⟩

/-- A star matches an end if what follows it matches this end or a later one. -/
theorem Decides.star (h : Decides tokens t verdicts) :
    Decides (.star :: tokens) t (verdicts.scanr (· || ·) false).dropLast := by
  induction t generalizing verdicts with
  | nil =>
    have hall := h.foldr_or
    obtain ⟨ok, _, -, ⟨⟩, rfl⟩ := List.forall₂_cons_left_iff.1 h
    exact .cons hall .nil
  | cons c t ih =>
    have hall := h.foldr_or
    obtain ⟨ok, rest, -, hrest, rfl⟩ := List.forall₂_cons_left_iff.1 h
    rw [List.scanr_cons, List.dropLast_cons_of_ne_nil (by simp)]
    exact .cons hall (ih hrest)

theorem Decides.whole (h : Decides tokens t verdicts) :
    verdicts.head?.getD false = true ↔ Matches tokens t := by
  cases t <;> cases h <;> assumption

theorem Decides.one (hstar : token ≠ .star) (h : Decides tokens t verdicts) :
    Decides (token :: tokens) t (List.zipWith (fun c ok => token.admits c && ok) t verdicts.tail ++
      [false]) := by
  induction t generalizing verdicts with
  | nil => exact .cons (by simp [matches_one hstar]) .nil
  | cons c t ih =>
    obtain ⟨_, rest, -, hrest, rfl⟩ := List.forall₂_cons_left_iff.1 h
    have hlater := ih hrest
    have hnext := Decides.whole hrest
    cases rest with
    | nil => cases t <;> cases hrest
    | cons ok rest =>
      refine .cons ?_ hlater
      simpa [matches_one hstar] using fun _ => hnext

theorem decides_row (t : Text) (tokens : List Token) : Decides tokens t (row t tokens) := by
  induction tokens with
  | nil => exact decides_nil t
  | cons token rest ih =>
    cases token with
    | star => exact ih.star
    | any | literal | oneOf => exact ih.one nofun

end Row

theorem matches_append :
    Matches (tokens ++ more) t ↔ ∃ u v, t = u ++ v ∧ Matches tokens u ∧ Matches more v := by
  induction tokens generalizing t with
  | nil => simp [matches_nil]
  | cons token tokens ih =>
    by_cases hstar : token = .star
    · subst hstar
      simp only [List.cons_append, matches_star, ih]
      constructor
      · rintro ⟨skipped, _, rfl, u, v, rfl, hu, hv⟩
        exact ⟨skipped ++ u, v, by simp, ⟨skipped, u, rfl, hu⟩, hv⟩
      · rintro ⟨_, v, rfl, ⟨skipped, u, rfl, hu⟩, hv⟩
        exact ⟨skipped, u ++ v, by simp, u, v, rfl, hu, hv⟩
    · simp only [List.cons_append, matches_one hstar, ih]
      constructor
      · rintro ⟨c, _, rfl, hc, u, v, rfl, hu, hv⟩
        exact ⟨c :: u, v, rfl, ⟨c, u, rfl, hc, hu⟩, hv⟩
      · rintro ⟨_, v, rfl, ⟨c, u, rfl, hc, hu⟩, hv⟩
        exact ⟨c, u ++ v, rfl, hc, u, v, rfl, hu, hv⟩

theorem matches_literals (u t : Text) : Matches (u.map .literal) t ↔ t = u := by
  induction u generalizing t with
  | nil => exact matches_nil
  | cons c u ih => simp [matches_literal, ih]

theorem Matches.append_right (h : Matches (tokens ++ [.star]) t) (u : Text) :
    Matches (tokens ++ [.star]) (t ++ u) := by
  obtain ⟨front, rest, rfl, hfront, -⟩ := matches_append.1 h
  refine matches_append.2 ⟨front, rest ++ u, by simp, hfront, ?_⟩
  exact matches_star.2 ⟨rest ++ u, [], by simp, .nil⟩

def IsPlain (t : Text) : Prop :=
  ∀ c ∈ t, c ≠ '*' ∧ c ≠ '?' ∧ c ≠ '['

instance : DecidablePred IsPlain :=
  List.decidableBAll fun c => c ≠ '*' ∧ c ≠ '?' ∧ c ≠ '['

theorem parse_plain_append (ht : IsPlain t) (u : Text) :
    parse (t ++ u) = t.map .literal ++ parse u := by
  induction t with
  | nil => rfl
  | cons c t ih =>
    obtain ⟨⟨hstar, hany, hbracket⟩, ht⟩ := List.forall_mem_cons.1 ht
    rw [List.cons_append, parse, ih ht, List.map_cons, List.cons_append]
    · exact hstar
    · exact hany
    · exact hbracket

theorem parse_plain (ht : IsPlain t) : parse t = t.map .literal := by
  simpa [parse] using parse_plain_append ht []

/-- A slash is no part of how a set starts. -/
theorem lead_append_slash (t u : Text) :
    lead (t ++ '/' :: u) = ((lead t).1, (lead t).2 ++ '/' :: u) := by
  fun_cases lead t with
  | case1 rest => rfl
  | case2 rest hclose =>
    rw [List.cons_append, lead]
    intro more heq
    cases rest with
    | nil => cases heq
    | cons c rest => exact hclose rest (by rw [(List.cons.inj heq).1])
  | case3 rest => rfl
  | case4 _ _ hnegated hclose =>
    cases t with
    | nil => rfl
    | cons c t =>
      have hfirst {d : Char} {more : Text} (heq : c :: t ++ '/' :: u = d :: more) : c = d :=
        (List.cons.inj heq).1
      rw [lead]
      · exact fun more heq => hnegated t (by rw [hfirst heq])
      · exact fun more heq => hnegated t (by rw [hfirst heq])
      · exact fun more heq => hclose t (by rw [hfirst heq])

theorem bracket?_append_slash (hu : ']' ∉ u) (t : Text) :
    bracket? (t ++ '/' :: u) = (bracket? t).map fun w => (w.1, w.2 ++ '/' :: u) := by
  have hslash : ']' ∉ '/' :: u := by simp [hu]
  rw [bracket?, lead_append_slash, Text.cut?_append hslash, bracket?, Option.map_map,
    Option.map_map]
  rfl

/-- What follows a slash is read on its own unless a bracket in it closes one before the slash. -/
theorem parse_append_slash (hu : ']' ∉ u) (t : Text) :
    parse (t ++ '/' :: u) = parse t ++ .literal '/' :: parse u := by
  fun_induction parse t with
  | case1 => rw [List.nil_append, List.nil_append, parse] <;> decide
  | case2 rest ih => rw [List.cons_append, parse, ih, List.cons_append]
  | case3 rest ih => rw [List.cons_append, parse, ih, List.cons_append]
  | case4 rest body after hbracket ih =>
    rw [List.cons_append, parse, bracket?_append_slash hu, hbracket]
    simp [ih]
  | case5 rest hbracket ih =>
    rw [List.cons_append, parse, bracket?_append_slash hu, hbracket]
    simp [ih]
  | case6 c rest hstar hany hbracket ih =>
    rw [List.cons_append, parse, ih, List.cons_append] <;> assumption

end Glob

open Glob in
theorem globMatches_iff {pattern t : Text} :
    globMatches pattern t = true ↔ Matches (parse pattern) t :=
  (decides_row t (parse pattern)).whole

end CloneDetection
