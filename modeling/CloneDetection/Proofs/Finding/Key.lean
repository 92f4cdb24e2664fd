import CloneDetection.Proofs.Finding.Order
import CloneDetection.Proofs.Text.Digits
import Mathlib.Data.List.Nodup

/-!
# Keys of findings

Behind their confidence findings are ordered by a key. If the keys of some findings differ, these
findings have one order, whatever order they come in. The kind and the title in a key tell of which
form and how long the group is.
-/
namespace CloneDetection

namespace Text

theorem natural_injective : Function.Injective natural := by
  intro m n h
  have hread := congrArg (fun digits => Nat.ofDigitChars 10 digits 0) h
  simpa [natural] using hread

theorem integer_injective : Function.Injective integer := by
  have hminus (n : Nat) (t : Text) : natural n ≠ '-' :: t := by
    intro h
    have hdigit : '-'.isDigit = true := isDigit_of_mem_natural (h ▸ List.mem_cons_self)
    exact absurd hdigit (by decide)
  intro m n h
  cases m with
  | ofNat m =>
    cases n with
    | ofNat n => exact congrArg Int.ofNat (natural_injective h)
    | negSucc n => exact absurd h (hminus m _)
  | negSucc m =>
    cases n with
    | ofNat n => exact absurd h.symm (hminus n _)
    | negSucc n => exact congrArg Int.negSucc (Nat.succ.inj (natural_injective (List.cons.inj h).2))

theorem not_mem_integer {c : Char} (hdigit : c.isDigit = false) (hminus : c ≠ '-') (n : Int) :
    c ∉ integer n := by
  have hnatural (n : Nat) : c ∉ natural n := fun h => by simp [isDigit_of_mem_natural h] at hdigit
  cases n with
  | ofNat n => exact hnatural n
  | negSucc n => exact List.not_mem_cons_of_ne_of_not_mem hminus (hnatural _)

theorem space_not_mem_integer (n : Int) : ' ' ∉ integer n :=
  not_mem_integer rfl (by decide) n

theorem integer_space_inj {m n : Int} {s t : Text}
    (h : integer m ++ ' ' :: s = integer n ++ ' ' :: t) : m = n := by
  have htake (n : Int) (t : Text) : (integer n ++ ' ' :: t).takeWhile (· != ' ') = integer n := by
    rw [List.takeWhile_append_of_pos]
    · simp
    · intro c hc
      simpa using ne_of_mem_of_not_mem hc (space_not_mem_integer n)
  apply integer_injective
  rw [← htake m s, h, htake]

end Text

namespace Finding

/-- What findings of one confidence are ordered by. -/
def key (f : Finding) : Text × Int × Text × Text :=
  (f.path, f.line, f.kind, f.title)

theorem kindOf_injective : Function.Injective kindOf := by
  have hall : ∀ a b, kindOf a = kindOf b → a = b := by decide
  exact fun a b => hall a b

theorem lineCount_eq_of_titleOf_eq {g h : CloneGroup} (hnear : g.near = h.near)
    (htitle : titleOf g = titleOf h) :
    g.lineCount = h.lineCount := by
  rw [titleOf, titleOf, hnear] at htitle
  cases hform : h.near with
  | true =>
    simp only [hform, if_true, List.append_assoc] at htitle
    exact Text.integer_space_inj (List.append_cancel_left htitle)
  | false =>
    simp only [hform, Bool.false_eq_true, if_false, List.append_assoc] at htitle
    exact Text.integer_space_inj (List.append_cancel_left htitle)

theorem key_of_ofGroup {g : CloneGroup} {f : Finding} (h : ofGroup g = .ok f) :
    ∃ first rest, g.locations = first :: rest ∧
      f.key = (first.path, first.startLine, kindOf g.near, titleOf g) := by
  unfold ofGroup at h
  split at h
  · cases h
  · cases h
  · next first _ hfirst _ =>
    cases h
    obtain ⟨rest, hlocations⟩ := List.head?_eq_some_iff.1 hfirst
    exact ⟨first, rest, hlocations, rfl⟩

theorem of_key_eq {g h : CloneGroup} {f f' : Finding} (hg : ofGroup g = .ok f)
    (hh : ofGroup h = .ok f') (hkey : f.key = f'.key) :
    g.near = h.near ∧ g.lineCount = h.lineCount ∧ ∃ p ∈ g.starts, p ∈ h.starts := by
  obtain ⟨first, rest, hlocations, hf⟩ := key_of_ofGroup hg
  obtain ⟨first', rest', hlocations', hf'⟩ := key_of_ofGroup hh
  rw [hf, hf'] at hkey
  simp only [Prod.mk.injEq] at hkey
  obtain ⟨hpath, hline, hkind, htitle⟩ := hkey
  have hnear : g.near = h.near := kindOf_injective hkind
  have hstart : first.start = first'.start := by rw [Location.start, Location.start, hpath, hline]
  refine ⟨hnear, lineCount_eq_of_titleOf_eq hnear htitle, first.start, ?_, ?_⟩
  · rw [CloneGroup.starts, hlocations]
    exact List.mem_cons_self
  · rw [CloneGroup.starts, hlocations', hstart]
    exact List.mem_cons_self

theorem key_eq_of_rank_eq {f g : Finding} (h : rank f g = .eq) : f.key = g.key := by
  simp only [rank, compareLex, compareOn, Ordering.then_eq_eq, Std.compare_eq_iff_eq] at h
  obtain ⟨-, hpath, hline, hkind, htitle⟩ := h
  rw [key, key, hpath, hline, hkind, htitle]

section Sorted

variable {findings : List Finding} (h : ∀ f ∈ findings, f.confidence ≠ .nan)
include h

theorem pairwise_rank_sort : (sort findings).Pairwise fun f g => (rank f g).isLE := by
  rw [sort_eq_mergeSort h]
  exact pairwise_mergeSort_isLE rank findings

theorem sort_eq_of_perm (hkeys : (findings.map key).Nodup) {other : List Finding}
    (hperm : other.Perm findings) :
    sort other = sort findings := by
  have hother : ∀ f ∈ other, f.confidence ≠ .nan := fun f hf => h f (hperm.mem_iff.1 hf)
  have hsorted : (sort other).Perm (sort findings) :=
    (sort_perm other).trans (hperm.trans (sort_perm findings).symm)
  apply hsorted.eq_of_pairwise _ (pairwise_rank_sort hother) (pairwise_rank_sort h)
  intro f g hf hg hfg hgf
  rw [(sort_perm _).mem_iff] at hf hg
  have heq : rank f g = .eq := by
    have hswap : rank g f = (rank f g).swap := Std.OrientedCmp.eq_swap
    rw [hswap] at hgf
    cases hrank : rank f g with
    | eq => rfl
    | lt => simp [hrank] at hgf
    | gt => simp [hrank] at hfg
  exact List.inj_on_of_nodup_map hkeys (hperm.mem_iff.1 hf) hg (key_eq_of_rank_eq heq)

theorem sort_cap_sort (limit : Int) :
    sort (cap limit (sort findings)) = cap limit (sort findings) := by
  have hfront : cap limit (sort findings) <+: sort findings := cap_prefix limit _
  have hnumbers : ∀ f ∈ cap limit (sort findings), f.confidence ≠ .nan :=
    fun f hf => h f ((sort_perm findings).mem_iff.1 (hfront.mem hf))
  rw [sort_eq_mergeSort hnumbers]
  exact List.mergeSort_of_pairwise ((pairwise_rank_sort h).sublist hfront.sublist)

end Sorted

end Finding

end CloneDetection
