import CloneDetection.Line.Category
import Mathlib.Data.List.Forall2
import Mathlib.Data.List.TakeWhile

/-!
# The grammar of comment and import lines

What a line of either category begins with is said as a division of the line into pieces. The
scanner takes runs as long as they go; as no piece can begin with a character of the run before it,
it finds a division wherever there is one.
-/
namespace CloneDetection

namespace LineCategory

variable {p : Char → Bool} {t word front run rest : Text} {letter c : Char}

/-- The characters of the front are the letters of the word, whatever their case. -/
def Spells (word front : Text) : Prop :=
  List.Forall₂ (fun letter c => sameLetter letter c = true) word front

/-- A comment marker in front, or a star with a blank or nothing after it. -/
def CommentStart (t : Text) : Prop :=
  (∃ marker ∈ ["//", "#", "/*", "*/", "--"], marker.toList <+: t) ∨
    ∃ rest, t = '*' :: rest ∧ (rest = [] ∨ ∃ c rest', rest = c :: rest' ∧ isBlank c)

def WordStart (word t : Text) : Prop :=
  ∃ front c rest, Spells word front ∧ isBlank c ∧ t = front ++ c :: rest

def DirectiveStart (t : Text) : Prop :=
  ∃ word ∈ ["import", "include", "using", "use"], WordStart word.toList t

/-- The word `from`, blanks, a piece without blanks, blanks again and the word `import`, with no
word character after it. -/
def FromImportStart (t : Text) : Prop :=
  ∃ front blanks source blanks' front' rest,
    Spells "from".toList front ∧ (blanks ≠ [] ∧ ∀ c ∈ blanks, isBlank c) ∧
    (source ≠ [] ∧ ∀ c ∈ source, isBlank c = false) ∧ (blanks' ≠ [] ∧ ∀ c ∈ blanks', isBlank c) ∧
    Spells "import".toList front' ∧ (∀ c, rest.head? = some c → isWord c = false) ∧
    t = front ++ (blanks ++ (source ++ (blanks' ++ (front' ++ rest))))

/-- The word `require` and an opening bracket, perhaps with blanks between them. -/
def RequireStart (t : Text) : Prop :=
  ∃ front blanks rest, Spells "require".toList front ∧ (∀ c ∈ blanks, isBlank c) ∧
    t = front ++ (blanks ++ '(' :: rest)

/-- One of the words `const`, `let` and `var`, a run of two or more characters of the left side of a
binding of which the first one is a blank, an equals sign, which ends this run as it is no such
character, and a call of `require`, perhaps with blanks before it. -/
def RequireBindingStart (t : Text) : Prop :=
  ∃ word ∈ ["const", "let", "var"], ∃ front run blanks call,
    Spells word.toList front ∧
    (2 ≤ run.length ∧ (∃ c, run.head? = some c ∧ isBlank c) ∧ ∀ c ∈ run, isBinderChar c) ∧
    (∀ c ∈ blanks, isBlank c) ∧ RequireStart call ∧ t = front ++ (run ++ '=' :: (blanks ++ call))

def ImportStart (t : Text) : Prop :=
  DirectiveStart t ∨ FromImportStart t ∨ RequireStart t ∨ RequireBindingStart t

section Letters

theorem eq_or_mem_of_sameLetter (h : sameLetter letter c) (hc : ¬c.isUpper) :
    c = letter ∨ c ∈ ['\u0130', '\u0131', '\u017F'] := by
  have hlower : c.toLower = c := dif_neg fun hupper => hc (decide_eq_true hupper)
  simp only [sameLetter, hlower, Bool.or_eq_true, Bool.and_eq_true, beq_iff_eq] at h
  rcases h with (h | ⟨-, h | h⟩) | ⟨-, h⟩
  · exact .inl h
  all_goals exact .inr (by simp [h])

theorem isBlank_of_sameLetter (h : sameLetter letter c) (hc : isBlank c) : isBlank letter := by
  have hupper : ¬c.isUpper := by
    intro hupper
    have hge : 65 ≤ c.toNat := UInt32.le_iff_toNat_le.1 (of_decide_eq_true hupper).1
    have hle : c.toNat ≤ 90 := UInt32.le_iff_toNat_le.1 (of_decide_eq_true hupper).2
    simp only [isBlank, CharClass.contains, CharClass.blanks, List.any_cons, List.any_nil,
      Bool.or_eq_true, Bool.and_eq_true, decide_eq_true_eq, Bool.false_eq_true, or_false] at hc
    omega
  rcases eq_or_mem_of_sameLetter h hupper with rfl | hmem
  · exact hc
  · have hnone : ['\u0130', '\u0131', '\u017F'].all (!isBlank ·) := by decide
    have hother := List.all_eq_true.1 hnone c hmem
    rw [hc] at hother
    cases hother

theorem isWord_of_sameLetter (h : sameLetter letter c) (hletter : isWord letter) : isWord c := by
  by_cases hc : c.isUpper
  · have halpha : c.isAlpha := Bool.or_eq_true_iff.2 (.inl hc)
    exact isWord_of_isAlphanum (Bool.or_eq_true_iff.2 (.inl halpha))
  · rcases eq_or_mem_of_sameLetter h hc with rfl | hmem
    · exact hletter
    · have hall : ['\u0130', '\u0131', '\u017F'].all isWord := by decide
      exact List.all_eq_true.1 hall c hmem

end Letters

section Words

theorem afterWord?_append (h : Spells word front) (rest : Text) :
    afterWord? word (front ++ rest) = some rest := by
  induction h with
  | nil => rfl
  | cons hletter _ ih => rw [List.cons_append, afterWord?, if_pos hletter, ih]

theorem exists_of_afterWord? (h : afterWord? word t = some rest) :
    ∃ front, Spells word front ∧ t = front ++ rest := by
  induction word generalizing t with
  | nil => exact ⟨[], .nil, Option.some.inj h⟩
  | cons letter word ih =>
    cases t with
    | nil => cases h
    | cons c t =>
      rw [afterWord?] at h
      split at h
      · next hletter =>
        obtain ⟨front, hfront, rfl⟩ := ih h
        exact ⟨c :: front, .cons hletter hfront, rfl⟩
      · cases h

/-- What spells a word of word characters has no others. -/
theorem Spells.isWord (h : Spells word front) (hword : ∀ letter ∈ word, isWord letter)
    (hc : c ∈ front) :
    isWord c := by
  induction h with
  | nil => cases hc
  | cons hletter _ ih =>
    obtain ⟨hfirst, hrest⟩ := List.forall_mem_cons.1 hword
    rcases List.mem_cons.1 hc with rfl | hc
    · exact isWord_of_sameLetter hletter hfirst
    · exact ih hrest hc

/-- No blank stands where a word begins that has none in front. -/
theorem Spells.isBlank_head (h : Spells (letter :: word) front) (hletter : isBlank letter = false)
    (hc : (front ++ rest).head? = some c) : isBlank c = false := by
  cases h with
  | @cons _ d _ front hd _ =>
    rw [← Option.some.inj hc]
    by_contra hblank
    rw [isBlank_of_sameLetter hd (by simpa using hblank)] at hletter
    cases hletter

end Words

section Runs

theorem dropWhile_append_eq (hrun : ∀ c ∈ run, p c)
    (hrest : ∀ c, rest.head? = some c → p c = false) :
    (run ++ rest).dropWhile p = rest := by
  rw [List.dropWhile_append_of_pos hrun]
  cases rest with
  | nil => rfl
  | cons c rest => rw [List.dropWhile_cons_of_neg (by simp [hrest c rfl])]

theorem exists_dropWhile (p : Char → Bool) (t : Text) :
    ∃ run, (∀ c ∈ run, p c) ∧ t = run ++ t.dropWhile p :=
  ⟨t.takeWhile p, fun _ hc => List.mem_takeWhile_imp hc, List.takeWhile_append_dropWhile.symm⟩

theorem afterRun?_append (hne : run ≠ []) (hrun : ∀ c ∈ run, p c)
    (hrest : ∀ c, rest.head? = some c → p c = false) :
    afterRun? p (run ++ rest) = some rest := by
  cases run with
  | nil => exact absurd rfl hne
  | cons c run =>
    rw [List.cons_append, afterRun?, if_pos (hrun c List.mem_cons_self),
      dropWhile_append_eq (fun d hd => hrun d (List.mem_cons_of_mem _ hd)) hrest]

theorem exists_of_afterRun? (h : afterRun? p t = some rest) :
    ∃ run, (run ≠ [] ∧ ∀ c ∈ run, p c) ∧ t = run ++ rest := by
  cases t with
  | nil => cases h
  | cons c t =>
    rw [afterRun?] at h
    split at h
    · next hc =>
      obtain ⟨run, hrun, ht⟩ := exists_dropWhile p t
      rw [Option.some.inj h] at ht
      refine ⟨c :: run, ⟨List.cons_ne_nil _ _, ?_⟩, congrArg (c :: ·) ht⟩
      intro d hd
      rcases List.mem_cons.1 hd with rfl | hd
      · exact hc
      · exact hrun d hd
    · cases h

theorem mem_of_head?_append (hne : run ≠ []) (hc : (run ++ rest).head? = some c) : c ∈ run := by
  cases run with
  | nil => exact absurd rfl hne
  | cons d run => exact Option.some.inj hc ▸ List.mem_cons_self

theorem startsWith_iff : startsWith p t ↔ ∃ c rest, t = c :: rest ∧ p c := by
  cases t <;> simp [startsWith]

end Runs

section Starts

theorem isComment_iff : isComment t ↔ CommentStart t := by
  unfold isComment CommentStart
  rw [Bool.or_eq_true]
  apply or_congr
  · simp only [List.any_eq_true, List.isPrefixOf_iff_prefix]
  · split
    · simp [startsWith_iff]
    · next hother =>
      simp only [Bool.false_eq_true, false_iff, not_exists, not_and]
      exact fun rest ht => absurd ht (hother rest)

theorem isDirective_iff : isDirective t ↔ DirectiveStart t := by
  simp only [isDirective, List.any_eq_true, Option.any_eq_true, startsWith_iff]
  apply exists_congr
  intro word
  refine and_congr_right fun _ => ?_
  constructor
  · rintro ⟨_, hafter, c, rest, rfl, hc⟩
    obtain ⟨front, hfront, ht⟩ := exists_of_afterWord? hafter
    exact ⟨front, c, rest, hfront, hc, ht⟩
  · rintro ⟨front, c, rest, hfront, hc, rfl⟩
    exact ⟨_, afterWord?_append hfront _, c, rest, rfl, hc⟩

theorem isRequire_iff : isRequire t ↔ RequireStart t := by
  unfold isRequire
  constructor
  · intro h
    cases hafter : afterWord? "require".toList t with
    | none =>
      rw [hafter] at h
      cases h
    | some after =>
      rw [hafter] at h
      simp only [startsWith_iff, beq_iff_eq] at h
      obtain ⟨_, rest, htrim, rfl⟩ := h
      obtain ⟨front, hfront, rfl⟩ := exists_of_afterWord? hafter
      obtain ⟨blanks, hblanks, hsplit⟩ := exists_dropWhile isBlank after
      rw [← Text.trimLeft, htrim] at hsplit
      exact ⟨front, blanks, rest, hfront, hblanks, by rw [hsplit]⟩
  · rintro ⟨front, blanks, rest, hfront, hblanks, rfl⟩
    have htrim : Text.trimLeft (blanks ++ '(' :: rest) = '(' :: rest :=
      dropWhile_append_eq hblanks fun c hc => by rw [← Option.some.inj hc]; decide
    rw [afterWord?_append hfront]
    exact startsWith_iff.2 ⟨'(', rest, htrim, rfl⟩

theorem isFromImport_iff : isFromImport t ↔ FromImportStart t := by
  simp only [isFromImport, Option.any_eq_true, Option.bind_eq_bind, Option.bind_eq_some_iff]
  constructor
  · rintro ⟨rest, ⟨t₁, hfrom, t₂, hblanks, t₃, hsource, t₄, hblanks', himport⟩, hnot⟩
    obtain ⟨front, hfront, rfl⟩ := exists_of_afterWord? hfrom
    obtain ⟨blanks, hb, rfl⟩ := exists_of_afterRun? hblanks
    obtain ⟨source, hs, rfl⟩ := exists_of_afterRun? hsource
    obtain ⟨blanks', hb', rfl⟩ := exists_of_afterRun? hblanks'
    obtain ⟨front', hfront', rfl⟩ := exists_of_afterWord? himport
    refine ⟨front, blanks, source, blanks', front', rest, hfront, hb, ⟨hs.1, ?_⟩, hb', hfront',
      ?_, rfl⟩
    · simpa using hs.2
    · intro c hc
      simpa [startsWith, hc] using hnot
  · rintro ⟨front, blanks, source, blanks', front', rest, hfront, hb, hs, hb', hfront', hrest, rfl⟩
    refine ⟨rest, ⟨_, afterWord?_append hfront _, _, afterRun?_append hb.1 hb.2 ?_, _,
      afterRun?_append hs.1 (by simpa using hs.2) ?_, _, afterRun?_append hb'.1 hb'.2 ?_,
      afterWord?_append hfront' rest⟩, ?_⟩
    · exact fun c hc => hs.2 c (mem_of_head?_append hs.1 hc)
    · intro c hc
      rw [hb'.2 c (mem_of_head?_append hb'.1 hc)]
      rfl
    · exact fun c hc => hfront'.isBlank_head (by decide) hc
    · cases hhead : rest.head? with
      | none => simp [startsWith, hhead]
      | some c => simp [startsWith, hhead, hrest c hhead]

theorem isBinderChar_of_isBlank (h : isBlank c) : isBinderChar c := by
  simp [isBinderChar, h]

theorem isRequireBinding_iff : isRequireBinding t ↔ RequireBindingStart t := by
  simp only [isRequireBinding, List.any_eq_true]
  apply exists_congr
  intro word
  refine and_congr_right fun _ => ?_
  constructor
  · intro h
    split at h
    · next c d after hafter =>
      simp only [Bool.and_eq_true] at h
      obtain ⟨⟨hc, hd⟩, h⟩ := h
      split at h
      · next after' hdrop =>
        obtain ⟨front, hfront, rfl⟩ := exists_of_afterWord? hafter
        obtain ⟨run, hrun, hsplit⟩ := exists_dropWhile isBinderChar after
        obtain ⟨blanks, hblanks, hsplit'⟩ := exists_dropWhile isBlank after'
        refine ⟨front, c :: d :: run, blanks, Text.trimLeft after', hfront, ⟨?_, ⟨c, rfl, hc⟩, ?_⟩,
          hblanks,
          isRequire_iff.1 h, ?_⟩
        · simp
        · simp only [List.forall_mem_cons]
          exact ⟨isBinderChar_of_isBlank hc, hd, hrun⟩
        · rw [Text.trimLeft, ← hsplit', List.cons_append, List.cons_append, ← hdrop, ← hsplit]
      · cases h
    · cases h
  · rintro ⟨front, run, blanks, call, hfront, ⟨hlength, ⟨c, hc, hblank⟩, hrun⟩, hblanks, hcall, rfl⟩
    match run, hlength, hc with
    | c :: d :: run, _, rfl =>
      simp only [List.forall_mem_cons] at hrun
      have hcall' : isRequire call := isRequire_iff.2 hcall
      have htrim : Text.trimLeft (blanks ++ call) = call := by
        obtain ⟨front', _, _, hfront', -, rfl⟩ := hcall
        exact dropWhile_append_eq hblanks fun e he => hfront'.isBlank_head (by decide) he
      have hdrop : (run ++ '=' :: (blanks ++ call)).dropWhile isBinderChar =
          '=' :: (blanks ++ call) :=
        dropWhile_append_eq hrun.2.2 fun e he => by rw [← Option.some.inj he]; decide
      rw [afterWord?_append hfront]
      simp only [List.cons_append, hdrop, htrim, hcall', Bool.and_true, Bool.and_eq_true]
      exact ⟨hblank, hrun.2.1⟩

theorem isImporting_iff : isImporting t ↔ ImportStart t := by
  simp only [isImporting, ImportStart, Bool.or_eq_true, isDirective_iff, isFromImport_iff,
    isRequire_iff, isRequireBinding_iff, or_assoc]

end Starts

end LineCategory

end CloneDetection
