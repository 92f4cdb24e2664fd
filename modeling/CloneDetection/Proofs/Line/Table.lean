import CloneDetection.Proofs.Line.Grammar
import CloneDetection.Proofs.Text.Regex

/-!
# The table of line patterns

Every row of the table is an expression and the category of the lines that it matches in front. The
rows of a category are joined to one expression with alternatives, and the first category of which
some alternative matches is the one of the line. That is the category that the scanner finds.
-/
namespace CloneDetection

namespace LineCategory

open Regex

def word (letters : Text) : Regex :=
  chars (letters.map sameLetter)

def mark (characters : Text) : Regex :=
  chars (characters.map (· == ·))

def directive (letters : Text) : Regex :=
  inOrder [word letters, one isBlank]

def star : Regex :=
  inOrder [mark "*".toList, alternatives [one isBlank, ending]]

def hashInclude : Regex :=
  inOrder [mark "#".toList, many isBlank, word "include".toList, boundary]

def fromImport : Regex :=
  inOrder [word "from".toList, atLeastOne isBlank, atLeastOne (!isBlank ·), atLeastOne isBlank,
    word "import".toList, boundary]

def requireCall : Regex :=
  inOrder [word "require".toList, many isBlank, mark "(".toList]

def requireBinding : Regex :=
  inOrder [alternatives (["const", "let", "var"].map fun letters => word letters.toList),
    atLeastOne isBlank,
    atLeastOne isBinderChar, mark "=".toList, many isBlank, requireCall]

/-- What is matched in front of a stripped line, and the category of the lines that it is found
in. -/
def linePatterns : List (Regex × LineCategory) :=
  [(mark "//".toList, .comment),
   (mark "#".toList, .comment),
   (mark "/*".toList, .comment),
   (mark "*/".toList, .comment),
   (star, .comment),
   (mark "--".toList, .comment),
   (directive "import".toList, .importing),
   (fromImport, .importing),
   (requireCall, .importing),
   (requireBinding, .importing),
   (directive "include".toList, .importing),
   (hashInclude, .importing),
   (directive "using".toList, .importing),
   (directive "use".toList, .importing)]

/-- The categories of a table in order of first appearance, each with its rows as alternatives. -/
def grouped (table : List (Regex × LineCategory)) : List (Regex × LineCategory) :=
  (table.map Prod.snd).eraseDups.map fun category =>
    (alternatives ((table.filter (·.2 == category)).map Prod.fst), category)

def firstMatch? (categories : List (Regex × LineCategory)) (t : Text) : Option LineCategory :=
  (categories.find? (·.1.startsIn none t)).map Prod.snd

variable {before : Option Char} {t letters characters front rest : Text}

@[simp] theorem mem_ways_word :
    (front, rest) ∈ (word letters).ways before t ↔ Spells letters front ∧ t = front ++ rest := by
  rw [word, mem_ways_chars, List.forall₂_map_left_iff]
  rfl

@[simp] theorem mem_ways_mark :
    (front, rest) ∈ (mark characters).ways before t ↔ front = characters ∧ t = front ++ rest := by
  rw [mark, mem_ways_chars, List.forall₂_map_left_iff]
  simp only [beq_iff_eq, List.forall₂_eq_eq_eq, eq_comm (a := front)]

theorem mem_ways_words {words : List String} (hne : words ≠ []) :
    (front, rest) ∈ (alternatives (words.map fun letters => word letters.toList)).ways before t ↔
      ∃ letters ∈ words, Spells letters.toList front ∧ t = front ++ rest := by
  rw [mem_ways_alternatives (by simpa using hne)]
  simp only [List.mem_map, exists_exists_and_eq_and, mem_ways_word]

section Rows

theorem startsIn_mark : (mark characters).startsIn before t ↔ characters <+: t := by
  simp [startsIn_iff, List.prefix_iff_exists_eq_append]

theorem startsIn_one {p : Char → Bool} :
    (one p).startsIn before t ↔ ∃ c rest, t = c :: rest ∧ p c := by
  cases t <;> simp [startsIn_iff]

theorem startsIn_ending : ending.startsIn before t ↔ t = [] ∨ t = ['\n'] := by
  simp [startsIn_iff]

/-- The line feed that may come before the end is a blank too. -/
theorem startsIn_star : star.startsIn before t ↔
    ∃ rest, t = '*' :: rest ∧ (rest = [] ∨ ∃ c rest', rest = c :: rest' ∧ isBlank c) := by
  simp only [star, startsIn_inOrder_cons, startsIn_inOrder_singleton,
    startsIn_alternatives (List.cons_ne_nil _ _), List.mem_cons, List.not_mem_nil, or_false,
    exists_eq_or_imp, exists_eq_left, mem_ways_mark, startsIn_one, startsIn_ending]
  constructor
  · rintro ⟨_, rest, ⟨rfl, rfl⟩, hblank | rfl | rfl⟩
    · exact ⟨rest, rfl, .inr hblank⟩
    · exact ⟨[], rfl, .inl rfl⟩
    · exact ⟨['\n'], rfl, .inr ⟨'\n', [], rfl, by decide⟩⟩
  · rintro ⟨rest, rfl, rfl | hblank⟩
    · exact ⟨['*'], [], ⟨rfl, rfl⟩, .inr (.inl rfl)⟩
    · exact ⟨['*'], rest, ⟨rfl, rfl⟩, .inl hblank⟩

theorem startsIn_directive : (directive letters).startsIn before t ↔ WordStart letters t := by
  simp only [directive, WordStart, startsIn_inOrder_cons, startsIn_inOrder_singleton, mem_ways_word,
    startsIn_one]
  constructor
  · rintro ⟨front, _, ⟨hfront, rfl⟩, c, rest, rfl, hc⟩
    exact ⟨front, c, rest, hfront, hc, rfl⟩
  · rintro ⟨front, c, rest, hfront, hc, rfl⟩
    exact ⟨front, _, ⟨hfront, rfl⟩, c, rest, rfl, hc⟩

theorem startsIn_requireCall : requireCall.startsIn before t ↔ RequireStart t := by
  simp only [requireCall, RequireStart, startsIn_inOrder_cons, startsIn_inOrder_singleton,
    mem_ways_word, mem_ways_many, startsIn_mark]
  constructor
  · rintro ⟨front, _, ⟨hfront, rfl⟩, blanks, _, ⟨rfl, hblanks⟩, rest, rfl⟩
    exact ⟨front, blanks, rest, hfront, hblanks, rfl⟩
  · rintro ⟨front, blanks, rest, hfront, hblanks, rfl⟩
    exact ⟨front, _, ⟨hfront, rfl⟩, blanks, _, ⟨rfl, hblanks⟩, rest, rfl⟩

/-- The blanks after the first word are characters of the left side too; where there are two such
characters, the first of them can be taken for the blanks. -/
theorem startsIn_requireBinding : requireBinding.startsIn before t ↔ RequireBindingStart t := by
  simp only [requireBinding, startsIn_inOrder_cons, startsIn_inOrder_singleton,
    mem_ways_words (List.cons_ne_nil _ _), mem_ways_atLeastOne, mem_ways_many, mem_ways_mark,
    startsIn_requireCall, RequireBindingStart]
  constructor
  · rintro ⟨front, _, ⟨letters, hletters, hfront, rfl⟩, blank, _, ⟨⟨hne, hblank⟩, rfl⟩, run, _,
      ⟨⟨hne', hrun⟩, rfl⟩,
      _, _, ⟨rfl, rfl⟩, blanks, call, ⟨rfl, hblanks⟩, hcall⟩
    refine ⟨letters, hletters, front, blank ++ run, blanks, call, hfront, ⟨?_, ?_, ?_⟩, hblanks,
      hcall, by simp⟩
    · have hlength := List.length_pos_of_ne_nil hne
      have hlength' := List.length_pos_of_ne_nil hne'
      rw [List.length_append]
      omega
    · obtain ⟨c, blank, rfl⟩ := List.exists_cons_of_ne_nil hne
      exact ⟨c, rfl, hblank c List.mem_cons_self⟩
    · intro c hc
      rcases List.mem_append.1 hc with hc | hc
      · exact isBinderChar_of_isBlank (hblank c hc)
      · exact hrun c hc
  · rintro ⟨letters, hletters, front, run, blanks, call, hfront, ⟨hlength, ⟨c, hc, hblank⟩, hrun⟩,
      hblanks, hcall, rfl⟩
    obtain ⟨e, others, rfl⟩ :=
      List.exists_cons_of_length_pos (Nat.lt_of_lt_of_le Nat.zero_lt_two hlength)
    obtain rfl := Option.some.inj hc
    have hne : others ≠ [] := List.ne_nil_of_length_pos (Nat.le_of_succ_le_succ hlength)
    have hfirst : ∀ c ∈ [e], isBlank c := fun c hc => List.mem_singleton.1 hc ▸ hblank
    have hothers : ∀ c ∈ others, isBinderChar c := fun c hc => hrun c (List.mem_cons_of_mem _ hc)
    exact ⟨front, _, ⟨letters, hletters, hfront, rfl⟩, [e], _,
      ⟨⟨List.cons_ne_nil _ _, hfirst⟩, rfl⟩,
      others, _, ⟨⟨hne, hothers⟩, rfl⟩, ['='], _, ⟨rfl, rfl⟩, blanks, call, ⟨rfl, hblanks⟩, hcall⟩

/-- After a word that is matched stands a boundary where no word character comes next. -/
theorem startsIn_boundary_after (hspells : Spells letters front) (hne : letters ≠ [])
    (hletters : ∀ letter ∈ letters, isWord letter) :
    boundary.startsIn (front.getLast?.or before) t ↔ ∀ c, t.head? = some c → isWord c = false := by
  have hlast : (front.getLast?.or before).any isWord = true := by
    have hfront : front ≠ [] := by
      rintro rfl
      exact hne (List.forall₂_nil_right_iff.1 hspells)
    rw [List.getLast?_eq_some_getLast hfront]
    exact hspells.isWord hletters (List.getLast_mem hfront)
  simp only [startsIn_iff, mem_ways_boundary, hlast]
  cases t.head? <;> simp

theorem startsIn_fromImport : fromImport.startsIn before t ↔ FromImportStart t := by
  simp only [fromImport, startsIn_inOrder_cons, startsIn_inOrder_singleton, mem_ways_word,
    mem_ways_atLeastOne, FromImportStart, Bool.not_eq_true']
  have hletters : ∀ letter ∈ "import".toList, isWord letter := List.all_eq_true.1 (by decide)
  constructor
  · rintro ⟨front, _, ⟨hfront, rfl⟩, blanks, _, ⟨hb, rfl⟩, source, _, ⟨hs, rfl⟩, blanks', _,
      ⟨hb', rfl⟩,
      front', rest, ⟨hfront', rfl⟩, hedge⟩
    have hrest := (startsIn_boundary_after hfront' (by decide) hletters).1 hedge
    exact ⟨front, blanks, source, blanks', front', rest, hfront, hb, hs, hb', hfront', hrest, rfl⟩
  · rintro ⟨front, blanks, source, blanks', front', rest, hfront, hb, hs, hb', hfront', hrest, rfl⟩
    have hedge (before : Option Char) : boundary.startsIn (front'.getLast?.or before) rest :=
      (startsIn_boundary_after hfront' (by decide) hletters).2 hrest
    exact ⟨front, _, ⟨hfront, rfl⟩, blanks, _, ⟨hb, rfl⟩, source, _, ⟨hs, rfl⟩, blanks', _,
      ⟨hb', rfl⟩,
      front', rest, ⟨hfront', rfl⟩, hedge _⟩

/-- The one row that another category hides: whatever it matches begins with a comment marker. -/
theorem commentStart_of_hashInclude (h : hashInclude.startsIn before t) : CommentStart t := by
  simp only [hashInclude, startsIn_inOrder_cons, mem_ways_mark] at h
  obtain ⟨_, middle, ⟨rfl, rfl⟩, -⟩ := h
  exact .inl ⟨"#", by decide, middle, rfl⟩

end Rows

section Categories

def rowsOf (category : LineCategory) : List Regex :=
  (linePatterns.filter (·.2 == category)).map Prod.fst

theorem grouped_linePatterns : grouped linePatterns =
    [(alternatives (rowsOf .comment), .comment), (alternatives (rowsOf .importing), .importing)] :=
  rfl

theorem startsIn_comments : (alternatives (rowsOf .comment)).startsIn none t ↔ CommentStart t := by
  have hrows : rowsOf .comment =
      [mark "//".toList, mark "#".toList, mark "/*".toList, mark "*/".toList, star,
        mark "--".toList] := rfl
  rw [hrows, startsIn_alternatives (List.cons_ne_nil _ _), CommentStart]
  simp only [List.mem_cons, List.not_mem_nil, or_false, exists_eq_or_imp, exists_eq_left,
    startsIn_mark, startsIn_star]
  simp only [or_assoc, or_comm, or_left_comm]

/-- The row of import lines that begins with a comment marker is never reached. -/
theorem startsIn_imports (hcomment : ¬CommentStart t) :
    (alternatives (rowsOf .importing)).startsIn none t ↔ ImportStart t := by
  have hrows :
      rowsOf .importing = [directive "import".toList, fromImport, requireCall, requireBinding,
      directive "include".toList, hashInclude, directive "using".toList, directive "use".toList] :=
        rfl
  have hhash : ¬hashInclude.startsIn none t := fun h => hcomment (commentStart_of_hashInclude h)
  rw [hrows, startsIn_alternatives (List.cons_ne_nil _ _)]
  simp only [List.mem_cons, List.not_mem_nil, or_false, exists_eq_or_imp, exists_eq_left,
    startsIn_directive, startsIn_fromImport, startsIn_requireCall, startsIn_requireBinding, hhash,
    Bool.false_eq_true, false_or, ImportStart, DirectiveStart]
  simp only [or_assoc, or_comm, or_left_comm]

theorem firstMatch?_eq_classify? (t : Text) :
    firstMatch? (grouped linePatterns) t = classify? t := by
  rw [grouped_linePatterns, firstMatch?, classify?]
  by_cases hcomment : CommentStart t
  · simp [startsIn_comments.2 hcomment, isComment_iff.2 hcomment]
  · have hcomment' : (alternatives (rowsOf .comment)).startsIn none t = false := by
      simpa using mt startsIn_comments.1 hcomment
    by_cases himport : ImportStart t
    · simp [hcomment', (startsIn_imports hcomment).2 himport, mt isComment_iff.1 hcomment,
        isImporting_iff.2 himport]
    · have himport' : (alternatives (rowsOf .importing)).startsIn none t = false := by
        simpa using mt (startsIn_imports hcomment).1 himport
      simp [hcomment', himport', mt isComment_iff.1 hcomment, mt isImporting_iff.1 himport]

end Categories

/-- A line is a comment just if it begins like one, and an import line just if it does not but
begins like an import; any other line has no category. That is the category of the first expression
in the table, its rows joined to alternatives, that matches in front of the line when choices are
tried in turn. -/
theorem classify?_iff (t : Text) :
    (classify? t = some .comment ↔ CommentStart t) ∧
    (classify? t = some .importing ↔ ¬CommentStart t ∧ ImportStart t) ∧
    (classify? t = none ↔ ¬CommentStart t ∧ ¬ImportStart t) ∧
    classify? t = firstMatch? (grouped linePatterns) t := by
  refine ⟨?_, ?_, ?_, (firstMatch?_eq_classify? t).symm⟩
  all_goals
    simp only [classify?, ← isComment_iff, ← isImporting_iff]
    cases isComment t <;> cases isImporting t <;> simp

end LineCategory

end CloneDetection
