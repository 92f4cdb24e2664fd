import CloneDetection.Sorting.Search

/-!
# Runs

A run that stands in order at the front of a list is taken over, one that stands in strictly reverse
order is turned round. A run that is too short grows by the items behind it, each placed behind all
that it does not go before; the place is found by halving. `front_perm` and `leading_perm` say that
the run and the rest hold the items of the list.
-/
namespace CloneDetection

namespace Sorting

variable {α : Type}

/-- Moves items over to those taken, last first, as long as each one goes on from the last. -/
def take (goesOn : α → α → Bool) (last : α) (taken : List α) : List α → List α × List α
  | [] => (last :: taken, [])
  | x :: rest =>
    if goesOn last x then take goesOn x (last :: taken) rest else (last :: taken, x :: rest)

theorem take_perm (goesOn : α → α → Bool) (last : α) (taken rest : List α) :
    ((take goesOn last taken rest).1 ++ (take goesOn last taken rest).2).Perm
      (last :: taken ++ rest) := by
  induction rest generalizing last taken with
  | nil => simp [take]
  | cons x rest ih =>
    unfold take
    split
    · exact (ih x (last :: taken)).trans List.perm_middle.symm
    · exact .refl _

theorem take_length (goesOn : α → α → Bool) (last : α) (taken rest : List α) :
    (take goesOn last taken rest).2.length ≤ rest.length := by
  induction rest generalizing last taken with
  | nil => exact Nat.le_refl _
  | cons x rest ih =>
    unfold take
    split
    · exact Nat.le_succ_of_le (ih ..)
    · exact Nat.le_refl _

def front (before : α → α → Bool) : List α → List α × List α
  | a :: b :: rest =>
    if before b a then take (fun last x => before x last) b [a] rest
    else ((take (fun last x => !before x last) b [a] rest).1.reverse,
      (take (fun last x => !before x last) b [a] rest).2)
  | items => (items, [])

theorem front_perm (before : α → α → Bool) (items : List α) :
    ((front before items).1 ++ (front before items).2).Perm items := by
  unfold front
  split
  · next a b rest =>
    have swapped : (b :: [a] ++ rest).Perm (a :: b :: rest) := .swap a b rest
    split
    · exact (take_perm ..).trans swapped
    · exact ((List.reverse_perm _).append_right _).trans ((take_perm ..).trans swapped)
  · simp

theorem front_length (before : α → α → Bool) (x : α) (items : List α) :
    (front before (x :: items)).2.length ≤ items.length := by
  unfold front
  split
  · next a b rest h =>
    cases h
    split <;> exact Nat.le_succ_of_le (take_length ..)
  · exact Nat.zero_le _

def insert (before : α → α → Bool) (items : Array α) (x : α) : Array α :=
  items.insertIdx (bisect .front (fun i => !items[i]?.any (before x)) 0 items.size) x
    (bisect_le .front _ (Nat.zero_le _))

theorem insert_perm (before : α → α → Bool) (items : Array α) (x : α) :
    (insert before items x).toList.Perm (x :: items.toList) := by
  rw [insert, Array.toList_insertIdx]
  exact List.perm_insertIdx x _ (bisect_le .front _ (Nat.zero_le _))

theorem foldl_insert_perm (before : α → α → Bool) (rest : List α) (items : Array α) :
    (rest.foldl (insert before) items).toList.Perm (items.toList ++ rest) := by
  induction rest generalizing items with
  | nil => simp
  | cons x rest ih =>
    exact (ih _).trans
      (((insert_perm before items x).append_right rest).trans List.perm_middle.symm)

/-- The first run, made up to a least length if there are items for it, and the rest. -/
def leading (before : α → α → Bool) (least : Nat) (items : List α) : List α × List α :=
  let (run, rest) := front before items
  ((rest.take (least - run.length)).foldl (insert before) run.toArray |>.toList,
    rest.drop (least - run.length))

theorem leading_perm (before : α → α → Bool) (least : Nat) (items : List α) :
    ((leading before least items).1 ++ (leading before least items).2).Perm items := by
  simp only [leading]
  refine ((foldl_insert_perm ..).append_right _).trans ?_
  rw [List.append_assoc, List.take_append_drop]
  exact front_perm before items

theorem leading_length (before : α → α → Bool) (least : Nat) (x : α) (items : List α) :
    (leading before least (x :: items)).2.length ≤ items.length := by
  simp only [leading, List.length_drop]
  exact Nat.le_trans (Nat.sub_le ..) (front_length before x items)

end Sorting

end CloneDetection
