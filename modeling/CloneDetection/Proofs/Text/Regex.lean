import CloneDetection.Text.Word
import Mathlib.Data.List.Forall2

/-!
# Regular expressions with choices

What an expression finds from a place of a text on is the list of its ways, the preferred one first:
a repetition takes as many characters as it can before it takes fewer, and of two alternatives the
left one is tried first. So the first way is what a matcher that goes back on its choices finds.
`mem_ways_seq` and the lemmas beside it say what the ways are, without their order.
-/
namespace CloneDetection

/-- Expressions in which only single characters are repeated. -/
inductive Regex where
  | empty
  /-- A character of a class. -/
  | one (p : Char → Bool)
  /-- Any number of characters of a class. -/
  | many (p : Char → Bool)
  | seq (r s : Regex)
  | either (r s : Regex)
  /-- Between a word character and another character or an end of the text. -/
  | boundary
  /-- At the end of the text, or in front of a line feed that ends it. -/
  | ending

namespace Regex

/-- The characters of a class in front of a text and what follows them, the longest front first. -/
def fronts (p : Char → Bool) : Text → List (Text × Text)
  | [] => [([], [])]
  | c :: t => (if p c then (fronts p t).map fun w => (c :: w.1, w.2) else []) ++ [([], c :: t)]

/-- What is found in front of a text and what follows it, the preferred way first; `before` is the
character that precedes the text. -/
def ways : Regex → Option Char → Text → List (Text × Text)
  | empty, _, t => [([], t)]
  | one p, _, t =>
    match t with
    | [] => []
    | c :: rest => if p c then [([c], rest)] else []
  | many p, _, t => fronts p t
  | seq r s, before, t =>
    (r.ways before t).flatMap fun w => (s.ways (w.1.getLast?.or before) w.2).map fun v =>
    (w.1 ++ v.1, v.2)
  | either r s, before, t => r.ways before t ++ s.ways before t
  | boundary, before, t => if before.any isWord = t.head?.any isWord then [] else [([], t)]
  | ending, _, t => if t = [] ∨ t = ['\n'] then [([], t)] else []

def first? (r : Regex) (before : Option Char) (t : Text) : Option Text :=
  (r.ways before t).head?.map Prod.fst

/-- The text with every match replaced, from left to right; the first `matched` characters are still
those of the last match, which has been replaced already. Where only nothing is found, nothing is
replaced. -/
def substitute (r : Regex) (f : Text → Text) (before : Option Char) (matched : Nat) : Text → Text
  | [] => []
  | c :: t =>
    match matched with
    | n + 1 => r.substitute f (some c) n t
    | 0 =>
      match r.first? before (c :: t) with
      | some (d :: found) => f (d :: found) ++ r.substitute f (some c) found.length t
      | _ => c :: r.substitute f (some c) 0 t

def startsIn (r : Regex) (before : Option Char) (t : Text) : Bool :=
  (r.first? before t).isSome

def inOrder : List Regex → Regex
  | [] => empty
  | r :: rs => seq r (inOrder rs)

/-- The expressions as alternatives, the first one tried first. -/
def alternatives : List Regex → Regex
  | [] => empty
  | [r] => r
  | r :: s :: rs => either r (alternatives (s :: rs))

def chars : List (Char → Bool) → Regex
  | [] => empty
  | p :: classes => seq (one p) (chars classes)

def atLeastOne (p : Char → Bool) : Regex :=
  seq (one p) (many p)

variable {r s : Regex} {p : Char → Bool} {before : Option Char} {t front rest : Text}

theorem mem_fronts : (front, rest) ∈ fronts p t ↔ t = front ++ rest ∧ ∀ c ∈ front, p c := by
  induction t generalizing front with
  | nil =>
    cases front with
    | nil => simp [fronts]
    | cons c front => simp [fronts]
  | cons c t ih =>
    cases front with
    | nil =>
      have hmem : ([], rest) ∈ fronts p (c :: t) ↔ rest = c :: t := by
        by_cases hc : p c <;> simp [fronts, hc]
      rw [hmem, List.nil_append, eq_comm]
      exact (and_iff_left (List.forall_mem_nil _)).symm
    | cons d front =>
      by_cases hc : p c
      · simp only [fronts, hc, if_true, List.mem_append, List.mem_map, Prod.exists, Prod.mk.injEq,
          List.cons.injEq, List.mem_singleton, List.cons_ne_nil, false_and, or_false,
          List.cons_append, List.forall_mem_cons]
        constructor
        · rintro ⟨front', rest', hmem, ⟨rfl, rfl⟩, rfl⟩
          obtain ⟨ht, hfront⟩ := ih.1 hmem
          exact ⟨⟨rfl, ht⟩, hc, hfront⟩
        · rintro ⟨⟨rfl, ht⟩, -, hfront⟩
          exact ⟨front, rest, ih.2 ⟨ht, hfront⟩, ⟨rfl, rfl⟩, rfl⟩
      · simp only [fronts, hc, Bool.false_eq_true, if_false, List.nil_append, List.mem_singleton,
          Prod.mk.injEq, List.cons_ne_nil, false_and, List.cons_append, List.cons.injEq,
          List.forall_mem_cons, false_iff]
        rintro ⟨⟨rfl, -⟩, hd, -⟩
        exact hc hd

/-- The longest front is preferred. -/
theorem exists_fronts_eq_cons (hfront : ∀ c ∈ front, p c)
    (hrest : ∀ c, rest.head? = some c → p c = false) :
    ∃ more, fronts p (front ++ rest) = (front, rest) :: more := by
  induction front with
  | nil =>
    cases rest with
    | nil => exact ⟨[], rfl⟩
    | cons c rest => exact ⟨[], by simp [fronts, hrest c rfl]⟩
  | cons c front ih =>
    obtain ⟨more, hmore⟩ := ih fun d hd => hfront d (List.mem_cons_of_mem _ hd)
    rw [List.cons_append, fronts, if_pos (hfront c List.mem_cons_self), hmore]
    exact ⟨_, rfl⟩

theorem substitute_matched (f : Text → Text) (before : Option Char) (front rest : Text) :
    r.substitute f before front.length (front ++ rest) =
      r.substitute f (front.getLast?.or before) 0 rest := by
  induction front generalizing before with
  | nil => rfl
  | cons c front ih =>
    rw [List.cons_append, List.length_cons, substitute, ih, List.getLast?_cons]
    cases front.getLast? <;> rfl

theorem substitute_of_first?_eq_none {f : Text → Text} {c : Char}
    (h : r.first? before (c :: t) = none) :
    r.substitute f before 0 (c :: t) = c :: r.substitute f (some c) 0 t := by
  rw [substitute, h]

theorem substitute_of_first?_eq_some {f : Text → Text} {c : Char}
    (h : r.first? before (c :: front ++ rest) = some (c :: front)) :
    r.substitute f before 0 (c :: front ++ rest) =
      f (c :: front) ++ r.substitute f (front.getLast?.or (some c)) 0 rest := by
  rw [List.cons_append] at h ⊢
  rw [substitute, h]
  dsimp only
  rw [substitute_matched]

@[simp] theorem mem_ways_empty : (front, rest) ∈ empty.ways before t ↔ front = [] ∧ rest = t := by
  simp [ways]

@[simp] theorem mem_ways_one :
    (front, rest) ∈ (one p).ways before t ↔ ∃ c, front = [c] ∧ t = c :: rest ∧ p c := by
  cases t with
  | nil => simp [ways]
  | cons c t =>
    simp only [ways, List.cons.injEq]
    split
    · next hc =>
      rw [List.mem_singleton, Prod.mk.injEq]
      constructor
      · rintro ⟨rfl, rfl⟩
        exact ⟨c, rfl, ⟨rfl, rfl⟩, hc⟩
      · rintro ⟨_, rfl, ⟨rfl, rfl⟩, -⟩
        exact ⟨rfl, rfl⟩
    · next hc =>
      refine iff_of_false List.not_mem_nil ?_
      rintro ⟨_, -, ⟨rfl, -⟩, hd⟩
      exact hc hd

@[simp] theorem mem_ways_many :
    (front, rest) ∈ (many p).ways before t ↔ t = front ++ rest ∧ ∀ c ∈ front, p c :=
  mem_fronts

@[simp] theorem mem_ways_seq : (front, rest) ∈ (seq r s).ways before t ↔
    ∃ front₁ middle, (front₁, middle) ∈ r.ways before t ∧
      ∃ front₂, (front₂, rest) ∈ s.ways (front₁.getLast?.or before) middle ∧
        front = front₁ ++ front₂ := by
  simp only [ways, List.mem_flatMap, List.mem_map, Prod.exists, Prod.mk.injEq]
  constructor
  · rintro ⟨front₁, middle, hr, front₂, rest', hs, rfl, rfl⟩
    exact ⟨front₁, middle, hr, front₂, hs, rfl⟩
  · rintro ⟨front₁, middle, hr, front₂, hs, rfl⟩
    exact ⟨front₁, middle, hr, front₂, rest, hs, rfl, rfl⟩

@[simp] theorem mem_ways_either {w : Text × Text} :
    w ∈ (either r s).ways before t ↔ w ∈ r.ways before t ∨ w ∈ s.ways before t := by
  simp [ways]

@[simp] theorem mem_ways_boundary : (front, rest) ∈ boundary.ways before t ↔
    (front = [] ∧ rest = t) ∧ before.any isWord ≠ t.head?.any isWord := by
  by_cases h : before.any isWord = t.head?.any isWord <;> simp [ways, h]

@[simp] theorem mem_ways_ending :
    (front, rest) ∈ ending.ways before t ↔ (front = [] ∧ rest = t) ∧ (t = [] ∨ t = ['\n']) := by
  by_cases h : t = [] ∨ t = ['\n'] <;> simp [ways, h]

theorem startsIn_iff : r.startsIn before t ↔ ∃ front rest, (front, rest) ∈ r.ways before t := by
  rw [startsIn, first?, Option.isSome_map]
  cases r.ways before t with
  | nil => simp
  | cons w more => exact iff_of_true rfl ⟨w.1, w.2, List.mem_cons_self⟩

/-- Of the ways of the first expression those count from which the second one goes on. -/
theorem startsIn_seq : (seq r s).startsIn before t ↔
    ∃ front middle, (front, middle) ∈ r.ways before t ∧
      s.startsIn (front.getLast?.or before) middle := by
  simp only [startsIn_iff, mem_ways_seq]
  constructor
  · rintro ⟨_, rest, front, middle, hr, front', hs, -⟩
    exact ⟨front, middle, hr, front', rest, hs⟩
  · rintro ⟨front, middle, hr, front', rest, hs⟩
    exact ⟨front ++ front', rest, front, middle, hr, front', hs, rfl⟩

theorem startsIn_empty : empty.startsIn before t :=
  startsIn_iff.2 ⟨[], t, mem_ways_empty.2 ⟨rfl, rfl⟩⟩

theorem startsIn_inOrder_cons {rs : List Regex} : (inOrder (r :: s :: rs)).startsIn before t ↔
    ∃ front middle, (front, middle) ∈ r.ways before t ∧
      (inOrder (s :: rs)).startsIn (front.getLast?.or before) middle :=
  startsIn_seq

/-- Nothing has to follow the last expression. -/
theorem startsIn_inOrder_singleton : (inOrder [r]).startsIn before t ↔ r.startsIn before t := by
  simp only [inOrder, startsIn_seq, startsIn_empty, and_true]
  exact startsIn_iff.symm

theorem mem_ways_alternatives {rs : List Regex} {w : Text × Text} (hne : rs ≠ []) :
    w ∈ (alternatives rs).ways before t ↔ ∃ r ∈ rs, w ∈ r.ways before t := by
  induction rs with
  | nil => exact absurd rfl hne
  | cons r rs ih =>
    cases rs with
    | nil => simp [alternatives]
    | cons s rs =>
      rw [alternatives, mem_ways_either, ih (List.cons_ne_nil _ _)]
      simp only [List.exists_mem_cons_iff]

theorem startsIn_alternatives {rs : List Regex} (hne : rs ≠ []) :
    (alternatives rs).startsIn before t ↔ ∃ r ∈ rs, r.startsIn before t := by
  simp only [startsIn_iff, mem_ways_alternatives hne]
  constructor
  · rintro ⟨front, rest, r, hr, hways⟩
    exact ⟨r, hr, front, rest, hways⟩
  · rintro ⟨r, hr, front, rest, hways⟩
    exact ⟨front, rest, r, hr, hways⟩

@[simp] theorem mem_ways_chars {classes : List (Char → Bool)} :
    (front, rest) ∈ (chars classes).ways before t ↔
    List.Forall₂ (fun p c => p c = true) classes front ∧ t = front ++ rest := by
  induction classes generalizing before t front with
  | nil =>
    rw [chars, mem_ways_empty, List.forall₂_nil_left_iff]
    exact and_congr_right fun hfront => by rw [hfront, List.nil_append, eq_comm]
  | cons p classes ih =>
    simp only [chars, mem_ways_seq, mem_ways_one, ih, List.forall₂_cons_left_iff]
    constructor
    · rintro ⟨_, _, ⟨c, rfl, rfl, hc⟩, front₂, ⟨hall, rfl⟩, rfl⟩
      exact ⟨⟨c, front₂, hc, hall, rfl⟩, rfl⟩
    · rintro ⟨⟨c, front₂, hc, hall, rfl⟩, rfl⟩
      exact ⟨[c], front₂ ++ rest, ⟨c, rfl, rfl, hc⟩, front₂, ⟨hall, rfl⟩, rfl⟩

@[simp] theorem mem_ways_atLeastOne : (front, rest) ∈ (atLeastOne p).ways before t ↔
    (front ≠ [] ∧ ∀ c ∈ front, p c) ∧ t = front ++ rest := by
  simp only [atLeastOne, mem_ways_seq, mem_ways_one, mem_ways_many]
  constructor
  · rintro ⟨_, _, ⟨c, rfl, rfl, hc⟩, front₂, ⟨rfl, hall⟩, rfl⟩
    exact ⟨⟨List.cons_ne_nil _ _, List.forall_mem_cons.2 ⟨hc, hall⟩⟩, rfl⟩
  · rintro ⟨⟨hne, hall⟩, rfl⟩
    cases front with
    | nil => exact absurd rfl hne
    | cons c front =>
      obtain ⟨hc, hall⟩ := List.forall_mem_cons.1 hall
      exact ⟨[c], front ++ rest, ⟨c, rfl, rfl, hc⟩, front, ⟨rfl, hall⟩, rfl⟩

end Regex

end CloneDetection
