import CloneDetection.Proofs.Lookup
import CloneDetection.Tree.Visit

/-!
# The files of a tree have paths of their own

In a well-formed tree the names of a directory are distinct and have no slash in them; whatever is
put into it under such names leaves it well-formed. The visits come to each of its files once then,
and no two of the files have one path.
-/
namespace CloneDetection

theorem map_filterMap_sublist {α β γ : Type} {f : α → Option β} {g : β → γ} {h : α → γ}
    (hf : ∀ a b, f a = some b → g b = h a) (l : List α) :
    ((l.filterMap f).map g).Sublist (l.map h) := by
  induction l with
  | nil => exact .slnil
  | cons a l ih =>
    cases hfa : f a with
    | none =>
      rw [List.filterMap_cons_none hfa]
      exact ih.cons _
    | some b =>
      rw [List.filterMap_cons_some hfa, List.map_cons, List.map_cons, hf a b hfa]
      exact ih.cons_cons _

theorem Path.components_ofComponents {names : List Text} (hne : names ≠ [])
    (h : ∀ n ∈ names, '/' ∉ n) :
    components (ofComponents names) = names :=
  List.splitOn_intercalate '/' h hne

namespace Node

/-- The names of every directory are distinct, and there is no slash in them. -/
inductive WellFormed : Node → Prop
  | file (content : Bytes) : WellFormed (.file content)
  | link (target : Text) : WellFormed (.link target)
  | directory {entries : List (Text × Node)} (nodup : (entries.map Prod.fst).Nodup)
      (plain : ∀ e ∈ entries, '/' ∉ e.1) (all : ∀ e ∈ entries, WellFormed e.2) :
      WellFormed (.directory entries)

theorem exists_of_child? {node node' : Node} {name : Text} (h : node.child? name = some node') :
    ∃ entries, node = .directory entries ∧ (name, node') ∈ entries := by
  cases node with
  | file | link => cases h
  | directory entries =>
    obtain ⟨l, r, rfl, -⟩ := List.lookup_eq_some_iff.1 (h : entries.lookup name = some node')
    exact ⟨_, rfl, by simp⟩

theorem WellFormed.child {node node' : Node} {name : Text} (h : node.WellFormed)
    (hchild : node.child? name = some node') : node'.WellFormed := by
  obtain ⟨entries, rfl, hmem⟩ := exists_of_child? hchild
  cases h with
  | directory nodup plain all => exact all _ hmem

theorem WellFormed.get {node node' : Node} {names : List Text} (h : node.WellFormed)
    (hget : node.get? names = some node') : node'.WellFormed := by
  induction names generalizing node with
  | nil =>
    cases hget
    exact h
  | cons name rest ih =>
    rw [get?, Option.bind_eq_some_iff] at hget
    obtain ⟨next, hnext, hrest⟩ := hget
    exact ih (h.child hnext) hrest

end Node

/-- The names that lead to the files of a visit. -/
def Visit.fileNames (v : Visit) : List (List Text) :=
  v.files.map fun e => v.names ++ [e.name]

namespace Tree

variable {tree : Tree} {keep : List Text → Bool} {root : Text} {names : List Text}

def fileNames (visits : List Visit) : List (List Text) :=
  visits.flatMap Visit.fileNames

theorem visitsOfEntries_eq_map (entries : List (Text × Node)) :
    visitsOfEntries tree keep root names entries =
      entries.map (visitsOfEntry tree keep root names) := by
  induction entries with
  | nil => rfl
  | cons entry rest ih => rw [visitsOfEntries, ih, List.map_cons]

theorem ordered_perm {α : Type} (entries : List (Text × α)) : (ordered entries).Perm entries :=
  List.mergeSort_perm _ _

theorem name_of_entry? {e : Text × Node} {found : Entry}
    (h : tree.entry? root names e = some found) :
    found.name = e.1 := by
  unfold entry? at h
  split at h
  · cases h
  · cases h
    rfl
  · dsimp only at h
    split at h
    · cases h
    · cases h
      rfl

@[simp] theorem fst_visitsOfEntry (e : Text × Node) :
    (visitsOfEntry tree keep root names e).1 = e.1 := by
  cases e
  rfl

/-- The visits below an entry: none, or those of its node. -/
theorem mem_visitsOfEntry {e : Text × Node} {v : Visit}
    (h : v ∈ (visitsOfEntry tree keep root names e).2) :
    v ∈ visitsOf tree keep root (names ++ [e.1]) e.2 := by
  rw [visitsOfEntry] at h
  dsimp only at h
  split at h
  · exact h
  · cases h

theorem nodup_names_files (tree : Tree) (root : Text) (names : List Text)
    {entries : List (Text × Node)} (h : (entries.map Prod.fst).Nodup) :
    (((ordered entries).filterMap (tree.entry? root names)).map Entry.name).Nodup := by
  have hordered : ((ordered entries).map Prod.fst).Nodup :=
    ((ordered_perm entries).map _).nodup_iff.2 h
  exact hordered.sublist (map_filterMap_sublist (fun _ _ => name_of_entry?) _)

theorem fileNames_visitsOf (entries : List (Text × Node)) :
    fileNames (visitsOf tree keep root names (.directory entries)) =
      (((ordered entries).filterMap (tree.entry? root names)).map fun e => names ++ [e.name]) ++
        (ordered (entries.map (visitsOfEntry tree keep root names))).flatMap fun e =>
          fileNames e.2 := by
  rw [visitsOf, visitsOfEntries_eq_map, fileNames, List.flatMap_cons, List.flatMap_assoc]
  rfl

theorem exists_of_mem_fileNames {node : Node} (h : node.WellFormed) {path : List Text}
    (hpath : path ∈ fileNames (visitsOf tree keep root names node)) :
    ∃ rest, path = names ++ rest ∧ rest ≠ [] ∧ ∀ n ∈ rest, '/' ∉ n := by
  induction h generalizing names with
  | file content => simp [visitsOf, fileNames] at hpath
  | link target => simp [visitsOf, fileNames] at hpath
  | @directory entries nodup plain all ih =>
    rw [fileNames_visitsOf, List.mem_append] at hpath
    rcases hpath with hfile | hbelow
    · simp only [List.mem_map, List.mem_filterMap] at hfile
      obtain ⟨found, ⟨e, he, hfound⟩, rfl⟩ := hfile
      refine ⟨[found.name], rfl, List.cons_ne_nil _ _, ?_⟩
      rw [List.forall_mem_singleton, name_of_entry? hfound]
      exact plain e ((ordered_perm entries).mem_iff.1 he)
    · simp only [List.mem_flatMap, (ordered_perm _).mem_iff, List.mem_map] at hbelow
      obtain ⟨_, ⟨e, he, rfl⟩, hbelow⟩ := hbelow
      obtain ⟨v, hv, hpath⟩ := List.mem_flatMap.1 hbelow
      obtain ⟨rest, rfl, hne, hrest⟩ :=
        ih e he (List.mem_flatMap.2 ⟨v, mem_visitsOfEntry hv, hpath⟩)
      refine ⟨e.1 :: rest, by simp, List.cons_ne_nil _ _, ?_⟩
      rw [List.forall_mem_cons]
      exact ⟨plain e he, hrest⟩

/-- The names that lead to a file below an entry of a directory go on after the entry. -/
theorem exists_of_mem_below {entries : List (Text × Node)} (all : ∀ e ∈ entries, e.2.WellFormed)
    {e : Text × List Visit} (he : e ∈ ordered (entries.map (visitsOfEntry tree keep root names)))
    {path : List Text} (hpath : path ∈ fileNames e.2) :
    ∃ rest, path = names ++ e.1 :: rest ∧ rest ≠ [] := by
  rw [(ordered_perm _).mem_iff, List.mem_map] at he
  obtain ⟨e, he, rfl⟩ := he
  obtain ⟨v, hv, hpath⟩ := List.mem_flatMap.1 hpath
  obtain ⟨rest, rfl, hne, -⟩ :=
    exists_of_mem_fileNames (all e he) (List.mem_flatMap.2 ⟨v, mem_visitsOfEntry hv, hpath⟩)
  exact ⟨rest, by simp, hne⟩

theorem nodup_below {entries : List (Text × Node)} (nodup : (entries.map Prod.fst).Nodup)
    (all : ∀ e ∈ entries, e.2.WellFormed)
    (h : ∀ e ∈ entries, (fileNames (visitsOfEntry tree keep root names e).2).Nodup) :
    ((ordered (entries.map (visitsOfEntry tree keep root names))).flatMap
      fun e => fileNames e.2).Nodup := by
  rw [List.Nodup, List.pairwise_flatMap]
  constructor
  · intro e he
    rw [(ordered_perm _).mem_iff, List.mem_map] at he
    obtain ⟨e, he, rfl⟩ := he
    exact h e he
  · have hnames :
        ((ordered (entries.map (visitsOfEntry tree keep root names))).map Prod.fst).Nodup := by
      rw [((ordered_perm _).map _).nodup_iff, List.map_map]
      simpa [Function.comp_def] using nodup
    apply (List.pairwise_map.1 hnames).imp_of_mem
    rintro e f he hf hne path hpe _ hpf rfl
    obtain ⟨_, heq, -⟩ := exists_of_mem_below all he hpe
    obtain ⟨_, hfeq, -⟩ := exists_of_mem_below all hf hpf
    rw [hfeq, List.append_cancel_left_eq, List.cons.injEq] at heq
    exact hne heq.1.symm

/-- No two files below a node are reached by the same names. -/
theorem nodup_fileNames {node : Node} (h : node.WellFormed) :
    (fileNames (visitsOf tree keep root names node)).Nodup := by
  induction h generalizing names with
  | file content => simp [visitsOf, fileNames]
  | link target => simp [visitsOf, fileNames]
  | @directory entries nodup plain all ih =>
    rw [fileNames_visitsOf, List.nodup_append]
    refine ⟨?_, nodup_below nodup all ?_, ?_⟩
    · have hlonger : Function.Injective fun name : Text => names ++ [name] := by
        intro m n hmn
        simpa using hmn
      have hfiles := (nodup_names_files tree root names nodup).map hlonger
      rwa [List.map_map] at hfiles
    · intro e he
      rw [visitsOfEntry]
      dsimp only
      split
      · exact ih e he
      · exact .nil
    · -- a file of the directory has one name more than it, whatever is below it has several
      rintro path hfile _ hrest rfl
      obtain ⟨found, -, rfl⟩ := List.mem_map.1 hfile
      obtain ⟨e, he, hpath⟩ := List.mem_flatMap.1 hrest
      obtain ⟨rest, heq, hne⟩ := exists_of_mem_below all he hpath
      rw [List.append_cancel_left_eq, List.cons.injEq] at heq
      exact hne heq.2.symm

/-- No two files below the root of the visits have the same path. -/
theorem nodup_paths_walk (h : tree.top.WellFormed) (keep : List Text → Bool) (root : Text) :
    ((fileNames (tree.walk keep root)).map Path.ofComponents).Nodup := by
  unfold walk
  split
  · split
    · next node hnode =>
      have hnodeFormed : node.WellFormed := h.get hnode
      apply (nodup_fileNames hnodeFormed).map_on
      intro a ha b hb hab
      obtain ⟨a, rfl, hane, haplain⟩ := exists_of_mem_fileNames hnodeFormed ha
      obtain ⟨b, rfl, hbne, hbplain⟩ := exists_of_mem_fileNames hnodeFormed hb
      rw [← Path.components_ofComponents hane haplain, hab,
        Path.components_ofComponents hbne hbplain]
    · exact .nil
  · exact .nil

end Tree

end CloneDetection
