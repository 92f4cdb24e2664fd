import CloneDetection.Proofs.Path.Components
import CloneDetection.Proofs.Tree.Leading
import Mathlib.Data.List.Dedup
import Mathlib.Data.List.Perm.Subperm
import Mathlib.Data.List.ProdSigma

/-!
# The room for links is never used up

A link is followed only if it is not being followed already, so the links that are followed within
one another are different ones. Each of them is a link of the tree at a path that is short enough to
be asked for. Such a path is known by the place of the link and by how often it goes up from the
working directory, so there are no more of them than there is room for.
-/
namespace CloneDetection

namespace Node

mutual

theorem exists_linkPaths (node : Node) :
    ∃ paths : List (List Text), paths.length = node.links ∧
      ∀ names target, node.get? names = some (.link target) → names ∈ paths := by
  match node with
  | .file _ =>
    refine ⟨[], by simp [links], fun names target h => ?_⟩
    cases names <;> simp [get?, child?] at h
  | .link _ =>
    refine ⟨[[]], by simp [links], fun names target h => ?_⟩
    cases names with
    | nil => exact List.mem_singleton_self _
    | cons => simp [get?, child?] at h
  | .directory entries =>
    obtain ⟨paths, hlength, hpaths⟩ := exists_linkPaths_entries entries
    refine ⟨paths, by rw [hlength, links], fun names target h => ?_⟩
    cases names with
    | nil => simp [get?] at h
    | cons name rest =>
      obtain ⟨below, hchild, hbelow⟩ := Option.bind_eq_some_iff.1 h
      exact hpaths name rest below target hchild hbelow

theorem exists_linkPaths_entries (entries : List (Text × Node)) :
    ∃ paths : List (List Text), paths.length = linksOfEntries entries ∧
      ∀ name rest below target, entries.lookup name = some below →
        below.get? rest = some (.link target) → name :: rest ∈ paths := by
  match entries with
  | [] => exact ⟨[], rfl, fun _ _ _ _ h => nomatch h⟩
  | (key, node) :: others =>
    obtain ⟨inside, hinside, hmem⟩ := exists_linkPaths node
    obtain ⟨paths, hlength, hpaths⟩ := exists_linkPaths_entries others
    refine ⟨inside.map (key :: ·) ++ paths, ?_, fun name rest below target hlookup hbelow => ?_⟩
    · rw [List.length_append, List.length_map, hinside, hlength, linksOfEntries, linksOfEntry]
    · by_cases hkey : name = key
      · subst hkey
        rw [List.lookup_cons_self, Option.some.injEq] at hlookup
        subst hlookup
        exact List.mem_append_left _ (List.mem_map_of_mem (hmem rest target hbelow))
      · rw [List.lookup_cons, beq_false_of_ne hkey] at hlookup
        exact List.mem_append_right _ (hpaths name rest below target hlookup hbelow)

end

end Node

namespace Tree

/-- Whether no more than `limit` links of a path are followed within one another: more room for them
makes no difference. -/
def ResolvesWithin (tree : Tree) (limit : Nat) (path : Text) : Prop :=
  ∀ more,
    tree.resolve (limit + more) [] (Spelling.startOf ⟨false, []⟩ path) (Path.components path) =
    tree.resolve limit [] (Spelling.startOf ⟨false, []⟩ path) (Path.components path)

/-- The path has these names, the last first, and before them `..` only, which lead up from the
working directory. -/
structure Spelling.Climbs (s : Spelling) (names : List Text) (ups : Nat) : Prop where
  kept_eq : s.kept = names ++ List.replicate ups ['.', '.']
  ordinary : ['.', '.'] ∉ names
  grounded : s.absolute = true → ups = 0

variable {tree : Tree} {s t : Spelling} {names names' : List Text} {ups : Nat}

theorem Spelling.Climbs.count_eq (h : s.Climbs names ups) : s.kept.count ['.', '.'] = ups := by
  rw [h.kept_eq, List.count_append, List.count_eq_zero.2 h.ordinary, List.count_replicate_self,
    Nat.zero_add]

theorem Spelling.Climbs.add (h : s.Climbs names ups) (name : Text) :
    ∃ names' ups', (s.add name).Climbs names' ups' := by
  obtain ⟨absolute, kept⟩ := s
  obtain ⟨rfl, hordinary, hgrounded⟩ := h
  unfold Spelling.add Path.addComponent
  dsimp only at hgrounded ⊢
  split
  · exact ⟨names, ups, rfl, hordinary, hgrounded⟩
  · split
    · next hup =>
      subst hup
      cases names with
      | cons last rest =>
        rw [List.mem_cons, not_or] at hordinary
        simp only [List.cons_append, if_neg (Ne.symm hordinary.1)]
        exact ⟨rest, ups, rfl, hordinary.2, hgrounded⟩
      | nil =>
        cases absolute with
        | true =>
          obtain rfl := hgrounded rfl
          exact ⟨[], 0, rfl, List.not_mem_nil, fun _ => rfl⟩
        | false =>
          refine ⟨[], ups + 1, ?_, List.not_mem_nil, fun h => nomatch h⟩
          cases ups <;> simp [List.replicate_succ]
    · next hup =>
      refine ⟨name :: names, ups, rfl, ?_, hgrounded⟩
      rw [List.mem_cons, not_or]
      exact ⟨Ne.symm hup, hordinary⟩

theorem Spelling.Climbs.startOf (h : s.Climbs names ups) (path : Text) :
    ∃ names' ups', (s.startOf path).Climbs names' ups' := by
  unfold Spelling.startOf
  split
  · exact ⟨[], 0, rfl, List.not_mem_nil, fun _ => rfl⟩
  · exact ⟨names, ups, h⟩

theorem Spelling.Climbs.place_eq (tree : Tree) (h : s.Climbs names ups) :
    tree.place s =
      tree.place ⟨s.absolute, List.replicate ups ['.', '.']⟩ ++ names.reverse := by
  unfold place
  rw [h.kept_eq, List.foldr_append]
  have hordinary := h.ordinary
  clear h
  induction names with
  | nil => rw [List.foldr_nil, List.reverse_nil, List.append_nil]
  | cons name names ih =>
    rw [List.mem_cons, not_or] at hordinary
    rw [List.foldr_cons, ih hordinary.2, if_neg (Ne.symm hordinary.1), List.reverse_cons,
      List.append_assoc]

/-- Every `..` in a path takes two of its characters. -/
theorem two_mul_count_le (names : List Text) :
    2 * names.count ['.', '.'] ≤ (Path.ofComponents names).length := by
  induction names with
  | nil => exact Nat.zero_le _
  | cons name rest ih =>
    have hname : 2 * [name].count ['.', '.'] ≤ name.length := by
      by_cases hup : name = ['.', '.']
      · simp [hup]
      · simp [hup]
    have hcount : (name :: rest).count ['.', '.'] =
        [name].count ['.', '.'] + rest.count ['.', '.'] := by
      rw [← List.count_append, List.singleton_append]
    by_cases hrest : rest = []
    · rw [hrest, Path.ofComponents_singleton]
      exact hname
    · rw [hcount, Path.ofComponents_cons name hrest, List.length_append, List.length_cons]
      omega

theorem length_le_encode (t : Text) : t.length ≤ (Utf8.encode t).length := by
  induction t with
  | nil => exact Nat.zero_le _
  | cons c t ih =>
    have hpos := c.utf8Size_pos
    rw [← List.singleton_append, Utf8.encode_append, List.length_append, List.length_append]
    simp only [Utf8.encode, List.flatMap_singleton, String.length_utf8EncodeChar,
      List.length_singleton]
    exact Nat.add_le_add hpos ih

theorem two_mul_count_kept_le (hshort : isTooLong maxPathBytes s.text = false) :
    2 * s.kept.count ['.', '.'] ≤ maxPathBytes := by
  have hbytes : (Utf8.encode s.text).length ≤ maxPathBytes := by
    simpa [isTooLong] using hshort
  have hbody : (Path.ofComponents s.kept.reverse).length ≤ s.text.length := by
    unfold Spelling.text
    split
    · exact Nat.le_succ _
    · exact Nat.le_refl _
  calc 2 * s.kept.count ['.', '.']
      = 2 * s.kept.reverse.count ['.', '.'] := by rw [List.count_reverse]
    _ ≤ (Path.ofComponents s.kept.reverse).length := two_mul_count_le _
    _ ≤ s.text.length := hbody
    _ ≤ maxPathBytes := Nat.le_trans (length_le_encode _) hbytes

/-- How often a path goes up from the working directory, counted from one; none for a path from the
top. -/
def Spelling.climb (s : Spelling) : Nat :=
  if s.absolute then 0 else s.kept.count ['.', '.'] + 1

theorem Spelling.climb_lt (hshort : isTooLong maxPathBytes s.text = false) :
    s.climb < maxPathBytes := by
  have hcount := two_mul_count_kept_le hshort
  unfold Spelling.climb maxPathBytes at *
  split <;> omega

/-- A path is known by how often it goes up and where it leads. -/
theorem Spelling.Climbs.eq_of_climb_eq (hs : s.Climbs names ups) (ht : t.Climbs names' ups')
    (hclimb : s.climb = t.climb) (hplace : tree.place s = tree.place t) : s = t := by
  have hstart : s.absolute = t.absolute ∧ ups = ups' := by
    unfold Spelling.climb at hclimb
    rw [hs.count_eq, ht.count_eq] at hclimb
    cases hsabsolute : s.absolute <;> cases htabsolute : t.absolute <;>
      simp only [hsabsolute, htabsolute, if_true, Bool.false_eq_true, if_false] at hclimb
    · exact ⟨rfl, Nat.succ_inj.1 hclimb⟩
    · exact absurd hclimb (Nat.succ_ne_zero ups)
    · exact absurd hclimb.symm (Nat.succ_ne_zero ups')
    · exact ⟨rfl, (hs.grounded hsabsolute).trans (ht.grounded htabsolute).symm⟩
  obtain ⟨habsolute, rfl⟩ := hstart
  rw [hs.place_eq, ht.place_eq, habsolute, List.append_cancel_left_eq, List.reverse_inj] at hplace
  have hkept : s.kept = t.kept := by rw [hs.kept_eq, ht.kept_eq, hplace]
  cases s
  cases t
  simp_all

/-- A path without links at which there is a link that can be asked for. -/
structure Follows (tree : Tree) (s : Spelling) : Prop where
  climbs : ∃ names ups, s.Climbs names ups
  link : ∃ target, tree.linkAt? s = some target

/-- There are no more links to follow than there is room for. -/
theorem length_le_of_follows {l : List Spelling} (hnodup : l.Nodup)
    (hfollows : ∀ s ∈ l, tree.Follows s) : l.length ≤ tree.top.links * maxPathBytes := by
  obtain ⟨paths, hlength, hpaths⟩ := tree.top.exists_linkPaths
  have hcodes : (l.map fun s => (tree.place s, s.climb)).Nodup := by
    apply hnodup.map_on
    intro s hs t ht heq
    obtain ⟨_, _, hsclimbs⟩ := (hfollows s hs).climbs
    obtain ⟨_, _, htclimbs⟩ := (hfollows t ht).climbs
    exact hsclimbs.eq_of_climb_eq htclimbs (Prod.mk.inj heq).2 (Prod.mk.inj heq).1
  have hsubset :
      (l.map fun s => (tree.place s, s.climb)) ⊆ paths ×ˢ List.range maxPathBytes := by
    intro code hcode
    obtain ⟨s, hs, rfl⟩ := List.mem_map.1 hcode
    obtain ⟨target, hlink⟩ := (hfollows s hs).link
    obtain ⟨hshort, hget⟩ := linkAt?_eq_some_iff.1 hlink
    rw [List.mem_product]
    exact ⟨hpaths _ target hget, List.mem_range.2 (Spelling.climb_lt hshort)⟩
  calc l.length = (l.map fun s => (tree.place s, s.climb)).length := (List.length_map _).symm
    _ ≤ (paths ×ˢ List.range maxPathBytes).length := (hcodes.subperm hsubset).length_le
    _ = tree.top.links * maxPathBytes := by
      rw [List.length_product, List.length_range, hlength]

section Resolve

variable {fuel left : Nat} {active : List Spelling} {here : Spelling} {rest : List Text}
  {name target : Text}

/-- The links that are being followed are different ones, and there is room for all others. -/
structure HasRoom (tree : Tree) (fuel : Nat) (active : List Spelling) (here : Spelling) :
    Prop where
  climbs : ∃ names ups, here.Climbs names ups
  nodup : active.Nodup
  follows : ∀ s ∈ active, tree.Follows s
  room : tree.top.links * maxPathBytes ≤ fuel + active.length

theorem HasRoom.add (h : tree.HasRoom fuel active here) (name : Text) :
    tree.HasRoom fuel active (here.add name) := by
  obtain ⟨_, _, hclimbs⟩ := h.climbs
  exact { h with climbs := hclimbs.add name }

theorem HasRoom.enter (h : tree.HasRoom (left + 1) active here)
    (hlink : tree.linkAt? (here.add name) = some target) (hnew : here.add name ∉ active) :
    tree.HasRoom left (here.add name :: active) (here.startOf target) where
  climbs := by
    obtain ⟨_, _, hclimbs⟩ := h.climbs
    exact hclimbs.startOf target
  nodup := List.nodup_cons.2 ⟨hnew, h.nodup⟩
  follows := List.forall_mem_cons.2 ⟨⟨(h.add name).climbs, target, hlink⟩, h.follows⟩
  room := by
    have hroom := h.room
    rw [List.length_cons]
    omega

/-- Where no room is left, every link is being followed already. -/
theorem HasRoom.mem_of_zero (h : tree.HasRoom 0 active here)
    (hlink : tree.linkAt? (here.add name) = some target) : here.add name ∈ active := by
  by_contra hnew
  have hlength := length_le_of_follows (List.nodup_cons.2 ⟨hnew, h.nodup⟩)
    (List.forall_mem_cons.2 ⟨⟨(h.add name).climbs, target, hlink⟩, h.follows⟩)
  have hroom := h.room
  rw [List.length_cons] at hlength
  omega

theorem climbs_of_resolve (hhere : ∃ names ups, here.Climbs names ups) :
    ∀ there, tree.resolve fuel active here rest = .ok there →
      ∃ names ups, there.Climbs names ups := by
  fun_induction tree.resolve fuel active here rest with
  | case1 =>
    rintro _ ⟨⟩
    exact hhere
  | case2 fuel active here name rest _ ih => exact ih hhere
  | case3 fuel active here rest _ ih =>
    obtain ⟨_, _, hclimbs⟩ := hhere
    exact ih (hclimbs.add _)
  | case4 fuel active here name rest _ _ next _ ih =>
    obtain ⟨_, _, hclimbs⟩ := hhere
    exact ih (hclimbs.add _)
  | case5 | case6 | case8 => exact fun _ h => nomatch h
  | case7 active here name rest _ _ next target _ left _ found hfound ihtarget ihrest =>
    obtain ⟨_, _, hclimbs⟩ := hhere
    exact ihrest (ihtarget (hclimbs.startOf target) found hfound)

theorem resolve_of_mem (hstay : ¬ (name = [] ∨ name = ['.'])) (hup : ¬ name = ['.', '.'])
    (hlink : tree.linkAt? (here.add name) = some target) (hactive : here.add name ∈ active)
    (fuel : Nat) :
    tree.resolve fuel active here (name :: rest) =
      .error (Path.join (here.add name).text (Path.ofComponents rest)) := by
  rw [resolve, if_neg hstay, if_neg hup]
  dsimp only
  rw [hlink]
  cases fuel with
  | zero => rfl
  | succ left =>
    dsimp only
    rw [if_pos (by simpa using hactive)]

/-- More room than for all links makes no difference. -/
theorem resolve_add (h : tree.HasRoom fuel active here) (more : Nat) :
    tree.resolve (fuel + more) active here rest = tree.resolve fuel active here rest := by
  fun_induction tree.resolve fuel active here rest with
  | case1 => rw [resolve]
  | case2 fuel active here name rest hstay ih =>
    rw [resolve, if_pos hstay]
    exact ih h
  | case3 fuel active here rest hstay ih =>
    rw [resolve, if_neg hstay, if_pos rfl]
    exact ih (h.add _)
  | case4 fuel active here name rest hstay hup next hlink ih =>
    rw [resolve, if_neg hstay, if_neg hup]
    dsimp only
    rw [hlink]
    exact ih (h.add _)
  | case5 active here name rest hstay hup next target hlink =>
    exact resolve_of_mem hstay hup hlink (h.mem_of_zero hlink) _
  | case6 active here name rest hstay hup next target hlink left hactive =>
    exact resolve_of_mem hstay hup hlink (by simpa using hactive) _
  | case7 active here name rest hstay hup next target hlink left hnew found hfound ihtarget
      ihrest =>
    have hroom := h.enter hlink (by simpa using hnew)
    rw [Nat.succ_add, resolve_of_not_mem hstay hup hlink (by simpa using hnew), ihtarget hroom,
      hfound]
    dsimp only
    rw [Nat.add_right_comm]
    exact ihrest { h with climbs := climbs_of_resolve hroom.climbs found hfound }
  | case8 active here name rest hstay hup next target hlink left hnew found hfound ihtarget =>
    have hroom := h.enter hlink (by simpa using hnew)
    rw [Nat.succ_add, resolve_of_not_mem hstay hup hlink (by simpa using hnew), ihtarget hroom,
      hfound]

/-- No path has more links within one another than there is room for. -/
theorem resolvesWithin_maxActive (tree : Tree) (path : Text) :
    tree.ResolvesWithin tree.maxActive path := by
  intro more
  have hclimbs : Spelling.Climbs ⟨false, []⟩ [] 0 := ⟨rfl, List.not_mem_nil, fun _ => rfl⟩
  refine resolve_add ⟨hclimbs.startOf path, List.nodup_nil, List.forall_mem_nil _, ?_⟩ more
  rw [List.length_nil, Nat.add_zero, maxActive, Nat.succ_mul]
  exact Nat.le_add_right _ _

end Resolve

end Tree

end CloneDetection
