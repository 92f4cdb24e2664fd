import CloneDetection.Proofs.Clone.Search
import Mathlib.Data.Finset.Dedup

/-!
# Groups with a common start

Of two regions with a place in common, the longer one has the step that the shorter one was grown
from. All its places share that step's digest, so they are among the places of the shorter one.
Regions of one span would contain each other, so they are the same.
-/
namespace CloneDetection

open Place Std

namespace Index

variable {index : Index} {r s : Region}

/-- A region that reaches as far as another one with a place in common has no other places than
it. -/
theorem IsClone.start_subset (hr : index.IsClone r) (hs : index.IsMaximal s)
    (hspan : r.span ≤ s.span) {o : Occurrence} (hor : o ∈ r.start) (hos : o ∈ s.start) :
    s.start ⊆ r.start := by
  obtain ⟨k, hk, d, hseed⟩ := hr.seed
  obtain ⟨d', hshared⟩ := hs.shares k (Nat.le_trans hk hspan)
  have hseeded : index.digestOf? (o.move k) = some d := (hseed _).1 (List.mem_map_of_mem hor)
  have hsame : d' = d := Option.some.inj ((hshared _ (List.mem_map_of_mem hos)).symm.trans hseeded)
  intro p hp
  have hpd : index.digestOf? (p.move k) = some d := hsame ▸ hshared _ (List.mem_map_of_mem hp)
  exact (List.mem_map_of_injective (move_injective k)).1 ((hseed _).2 hpd)

theorem IsClone.eq_of_start_subset (hr : index.IsClone r) (hs : index.IsClone s)
    (hsr : s.start ⊆ r.start) (hrs : r.start ⊆ s.start) : r = s :=
  hr.maximal.eq_of_start_eq hs.maximal
    (hr.ascending.eq_of_mem_iff hs.ascending fun _ => ⟨fun ho => hrs ho, fun ho => hsr ho⟩)

theorem IsMaximal.mem_start_of_mem_starts (hr : index.IsMaximal r) (h : index.StartsAscend)
    {near : Bool} {o : Occurrence} (ho : index.Has o)
    (hmem : index.startOf o ∈ (index.groupOf near r).starts) : o ∈ r.start := by
  rw [starts_groupOf] at hmem
  obtain ⟨p, hp, heq⟩ := List.mem_map.1 hmem
  rwa [← h.eq_of_startOf_eq (hr.has_start hp) ho heq]

theorem exists_common_start (h : index.StartsAscend) (hr : index.IsMaximal r)
    (hs : index.IsMaximal s) {near : Bool} {p : Place Int} (hpr : p ∈ (index.groupOf near r).starts)
    (hps : p ∈ (index.groupOf near s).starts) :
    ∃ o ∈ r.start, o ∈ s.start := by
  rw [starts_groupOf] at hpr
  obtain ⟨o, ho, rfl⟩ := List.mem_map.1 hpr
  exact ⟨o, ho, hs.mem_start_of_mem_starts h (hr.has_start ho) hps⟩

theorem IsClone.starts_ssubset (hr : index.IsClone r) (hs : index.IsClone s)
    (h : index.StartsAscend) (hspan : r.span < s.span) (near : Bool) {o : Occurrence}
    (hor : o ∈ r.start) (hos : o ∈ s.start) :
    (index.groupOf near s).starts.toFinset ⊂ (index.groupOf near r).starts.toFinset := by
  have hsr : s.start ⊆ r.start := hr.start_subset hs.maximal (Nat.le_of_lt hspan) hor hos
  rw [Finset.ssubset_iff_subset_ne]
  constructor
  · intro p hp
    rw [List.mem_toFinset, starts_groupOf] at hp ⊢
    exact List.map_subset _ hsr hp
  · intro heq
    have hrs : r.start ⊆ s.start := by
      intro q hq
      have hstart : index.startOf q ∈ (index.groupOf near s).starts := by
        rw [← List.mem_toFinset, heq, List.mem_toFinset, starts_groupOf]
        exact List.mem_map_of_mem hq
      exact hs.maximal.mem_start_of_mem_starts h (hr.maximal.has_start hq) hstart
    rw [hr.eq_of_start_subset hs hsr hrs] at hspan
    exact Nat.lt_irrefl _ hspan

theorem Coherent.nodup_groups (h : Coherent index) (hs : index.StartsAscend) (near : Bool) :
    (index.groups near).Nodup :=
  (CloneGroup.ranked_perm _).nodup_iff.2 (h.nodup_map_groupOf hs near)

/-- A search that nobody cancels finds no group twice, and two of its groups with a common start are
properly nested: one of them is longer, and it has some but not all of the starts of the other
one. -/
theorem findGroups_nested {size : Int} {index : Index}
    (h : Filled (fun _ windows => Window.OfIncreasing windows) size index) (near : Bool)
    (reader : FileReader) (rec : Record) :
    ∃ groups, (index.findGroups near).Gives reader rec groups
        { rec with checks := rec.checks + index.buckets.size } ∧
      groups.Nodup ∧ ∀ f ∈ groups, ∀ g ∈ groups, f ≠ g → ∀ p ∈ f.starts, p ∈ g.starts →
        f.lineCount ≠ g.lineCount ∧
        (f.lineCount < g.lineCount → g.starts.toFinset ⊂ f.starts.toFinset) := by
  have hc : Coherent index := h.coherent
  have hs : index.StartsAscend := h.startsAscend fun _ _ hw => hw.pairwise_startLine
  refine ⟨index.groups near, hc.findGroups_gives hs near reader rec, hc.nodup_groups hs near, ?_⟩
  intro f hf g hg hne p hpf hpg
  obtain ⟨q, hq, rfl⟩ := mem_groups.1 hf
  obtain ⟨r, hr, rfl⟩ := mem_groups.1 hg
  rw [hc.mem_regions] at hq hr
  obtain ⟨o, hoq, hor⟩ := exists_common_start hs hq.maximal hr.maximal hpf hpg
  rw [lineCount_groupOf, lineCount_groupOf]
  constructor
  · intro hcount
    have hspan : q.span = r.span := by omega
    have hrq : r.start ⊆ q.start := hq.start_subset hr.maximal (Nat.le_of_eq hspan) hoq hor
    have hqr : q.start ⊆ r.start := hr.start_subset hq.maximal (Nat.le_of_eq hspan.symm) hor hoq
    exact hne (congrArg (index.groupOf near) (hq.eq_of_start_subset hr hrq hqr))
  · intro hlt
    exact hq.starts_ssubset hr hs (by omega) near hoq hor

def scaleLines : List NormalLine :=
  [⟨['p'], 1⟩, ⟨['q'], 2⟩, ⟨['r'], 3⟩]

/-- Two files of three lines, and a third file that ends one line earlier. -/
def scales : Index :=
  (((Index.empty 2).offer ['a'] (Window.ofLines 2 scaleLines)).offer ['b']
    (Window.ofLines 2 scaleLines)).offer ['c']
    (Window.ofLines 2 (scaleLines.take 2))

theorem ofLines_scaleLines : Window.ofLines 2 scaleLines =
    [⟨digest [['p'], ['q']], 1, 2⟩, ⟨digest [['q'], ['r']], 2, 3⟩] := by
  simp [Window.ofLines, scaleLines]

theorem ofLines_take_scaleLines :
    Window.ofLines 2 (scaleLines.take 2) = [⟨digest [['p'], ['q']], 1, 2⟩] := by
  simp [Window.ofLines, scaleLines]

theorem filled_scales : Filled (fun _ windows => Window.OfIncreasing windows) 2 scales := by
  have hlong : Window.OfIncreasing (Window.ofLines 2 scaleLines) :=
    ⟨2, scaleLines, by simp [Increasing, scaleLines], rfl⟩
  have hshort : Window.OfIncreasing (Window.ofLines 2 (scaleLines.take 2)) :=
    ⟨2, scaleLines.take 2, by simp [Increasing, scaleLines], rfl⟩
  exact (((Filled.empty 2).offer hlong).offer hlong).offer hshort

theorem digest_scaleLines : digest [['p'], ['q']] ≠ digest [['q'], ['r']] := by
  decide +kernel

theorem digestOf?_scales (o : Occurrence) : scales.digestOf? o =
    if o.path = ['c'] then [digest [['p'], ['q']]][o.offset]?
    else if o.path = ['b'] ∨ o.path = ['a'] then
      [digest [['p'], ['q']], digest [['q'], ['r']]][o.offset]?
    else none := by
  have ha : (Index.empty 2).files.contains ['a'] = false := contains_empty _ _
  have hb : ((Index.empty 2).offer ['a'] (Window.ofLines 2 scaleLines)).files.contains ['b'] =
      false :=
    contains_offer_of_ne (by decide) (contains_empty _ _) _
  have hc : (((Index.empty 2).offer ['a'] (Window.ofLines 2 scaleLines)).offer ['b']
      (Window.ofLines 2 scaleLines)).files.contains ['c'] = false :=
    contains_offer_of_ne (by decide) (contains_offer_of_ne (by decide) (contains_empty _ _) _) _
  have hempty : (Index.empty 2).digestOf? o = none := by rw [digestOf?, windowAt?_empty]; rfl
  rw [scales, digestOf?_offer hc, digestOf?_offer hb, digestOf?_offer ha, hempty,
    ofLines_take_scaleLines, ofLines_scaleLines]
  simp only [← List.getElem?_map, List.map_cons, List.map_nil]
  grind

theorem mem_first_scales {o : Occurrence} :
    o ∈ [⟨['a'], 0⟩, ⟨['b'], 0⟩, ⟨['c'], 0⟩] ↔ scales.digestOf? o =
      some (digest [['p'], ['q']]) := by
  obtain ⟨path, i⟩ := o
  have hne := digest_scaleLines.symm
  rw [digestOf?_scales]
  simp only [List.mem_cons, List.not_mem_nil, Place.mk.injEq, or_false]
  rcases i with _ | _ | i <;> grind

theorem mem_second_scales {o : Occurrence} :
    o ∈ [⟨['a'], 1⟩, ⟨['b'], 1⟩] ↔ scales.digestOf? o = some (digest [['q'], ['r']]) := by
  obtain ⟨path, i⟩ := o
  have hne := digest_scaleLines
  rw [digestOf?_scales]
  simp only [List.mem_cons, List.not_mem_nil, Place.mk.injEq, or_false]
  rcases i with _ | _ | i <;> grind

theorem isClone_scales_short : scales.IsClone ⟨[⟨['a'], 0⟩, ⟨['b'], 0⟩, ⟨['c'], 0⟩], 0⟩ where
  maximal :=
    { ne_nil := List.cons_ne_nil _ _
      shares := by
        intro k hk
        obtain rfl : k = 0 := Nat.le_zero.1 hk
        exact ⟨_, fun _ => mem_first_scales.1⟩
      right := by
        -- the third file has no second window
        rintro ⟨d, hd⟩
        have hend := hd ⟨['c'], 1⟩ (by decide)
        simp [digestOf?_scales] at hend
      left := by
        intro l hl
        cases l <;> simp [move] at hl }
  ascending := by
    unfold Ascending
    decide
  several := by decide
  seed := ⟨0, Nat.le_refl 0, _, fun _ => mem_first_scales⟩

theorem isClone_scales_long : scales.IsClone ⟨[⟨['a'], 0⟩, ⟨['b'], 0⟩], 1⟩ where
  maximal :=
    { ne_nil := List.cons_ne_nil _ _
      shares := by
        intro k hk
        have hsub : [⟨['a'], 0⟩, ⟨['b'], 0⟩] ⊆
            [⟨['a'], 0⟩, ⟨['b'], 0⟩, (⟨['c'], 0⟩ : Occurrence)] := by simp
        rcases Nat.le_one_iff_eq_zero_or_eq_one.1 hk with rfl | rfl
        · exact ⟨_, fun _ ho => mem_first_scales.1 (hsub ho)⟩
        · exact ⟨_, fun _ => mem_second_scales.1⟩
      right := by
        -- no file has a third window
        rintro ⟨d, hd⟩
        have hend := hd ⟨['b'], 2⟩ (by decide)
        simp [digestOf?_scales] at hend
      left := by
        intro l hl
        cases l <;> simp [move] at hl }
  ascending := by
    unfold Ascending
    decide
  several := by decide
  seed := ⟨1, Nat.le_refl 1, _, fun _ => mem_second_scales⟩

theorem findGroups_nested_scales :
    Filled (fun _ windows => Window.OfIncreasing windows) 2 scales ∧
      ∃ f ∈ scales.groups false, ∃ g ∈ scales.groups false, f ≠ g ∧ (∃ p ∈ f.starts, p ∈ g.starts) ∧
        f.lineCount ≠ g.lineCount ∧ f.lineCount < g.lineCount ∧
        g.starts.toFinset ⊂ f.starts.toFinset := by
  obtain ⟨groups, hgives, -, hnested⟩ := findGroups_nested filled_scales false (fun _ _ => none) {}
  have hc : Coherent scales := filled_scales.coherent
  have hs : scales.StartsAscend := filled_scales.startsAscend fun _ _ h => h.pairwise_startLine
  have hgroups : groups = scales.groups false := hgives.unique (hc.findGroups_gives hs false _ _)
  subst hgroups
  have hf : scales.groupOf false ⟨[⟨['a'], 0⟩, ⟨['b'], 0⟩, ⟨['c'], 0⟩], 0⟩ ∈ scales.groups false :=
    mem_groups.2 ⟨_, hc.mem_regions.2 isClone_scales_short, rfl⟩
  have hg : scales.groupOf false ⟨[⟨['a'], 0⟩, ⟨['b'], 0⟩], 1⟩ ∈ scales.groups false :=
    mem_groups.2 ⟨_, hc.mem_regions.2 isClone_scales_long, rfl⟩
  have hlt : (scales.groupOf false ⟨[⟨['a'], 0⟩, ⟨['b'], 0⟩, ⟨['c'], 0⟩], 0⟩).lineCount <
      (scales.groupOf false ⟨[⟨['a'], 0⟩, ⟨['b'], 0⟩], 1⟩).lineCount := by
    rw [lineCount_groupOf, lineCount_groupOf]
    dsimp only
    omega
  have hne := fun heq => Int.ne_of_lt hlt (congrArg CloneGroup.lineCount heq)
  have hstart : scales.startOf ⟨['a'], 0⟩ ∈
      (scales.groupOf false ⟨[⟨['a'], 0⟩, ⟨['b'], 0⟩, ⟨['c'], 0⟩], 0⟩).starts := by
    rw [starts_groupOf]
    exact List.mem_map_of_mem List.mem_cons_self
  have hstart' : scales.startOf ⟨['a'], 0⟩ ∈
      (scales.groupOf false ⟨[⟨['a'], 0⟩, ⟨['b'], 0⟩], 1⟩).starts := by
    rw [starts_groupOf]
    exact List.mem_map_of_mem List.mem_cons_self
  obtain ⟨hcount, hsubset⟩ := hnested _ hf _ hg hne _ hstart hstart'
  exact ⟨filled_scales, _, hf, _, hg, hne, ⟨_, hstart, hstart'⟩, hcount, hlt, hsubset hlt⟩

end Index

end CloneDetection
