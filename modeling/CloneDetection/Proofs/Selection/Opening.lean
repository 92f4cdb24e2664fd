import CloneDetection.Proofs.Selection.Qualifying
import CloneDetection.Proofs.Tree.Leading
import CloneDetection.Proofs.Tree.RealPath

/-!
# Where files below a root are opened

A file that is no link is opened where it stands. Where a link is opened is told by its real path,
so a link leads out of the root if its real path does, provided that on the way to the root and
through the link every link has a path that is short enough to be asked for.
-/
namespace CloneDetection

open CloneDetection.Tree

section Opened

variable {tree : Tree} {root : Text} {here there : List Text}

/-- The root leads to its place without the slash at its end, too. -/
theorem exists_leads_stem {stem : List Text} {links : Nat}
    (h : Leads tree.top (tree.startOf root) (Path.components root) here links)
    (hstem : Path.components root = stem ∨ Path.components root = stem ++ [[]]) :
    ∃ links, Leads tree.top (tree.startOf root) stem here links := by
  rcases hstem with hsame | hslash
  · rw [hsame] at h
    exact ⟨links, h⟩
  · rw [hslash] at h
    obtain ⟨mid, before, after, hbefore, hafter, -⟩ := h.exists_of_append
    have hstay : Leads tree.top mid [[]] mid 0 := .go rfl (.done mid)
    rw [(hafter.unique hstay).1]
    exact ⟨before, hbefore⟩

/-- What opening a file below the root comes to is what its names lead to from the place of the
root. -/
theorem exists_leads_of_follow {names : List Text} (hroot : tree.follow root = .ok here)
    (hne : names ≠ []) (hplain : ∀ n ∈ names, '/' ∉ n)
    (hopen : tree.follow (Path.append root (Path.ofComponents names)) = .ok there) :
    ∃ links, Leads tree.top here names there links := by
  obtain ⟨hrootNe, _, -, hleadsRoot⟩ := leads_of_follow hroot
  obtain ⟨-, _, -, hleads⟩ := leads_of_follow hopen
  obtain ⟨stem, hcomponents, hstem⟩ :=
    Path.exists_components_append hrootNe (Path.ofComponents names)
  obtain ⟨_, hleadsStem⟩ := exists_leads_stem hleadsRoot hstem
  rw [hcomponents, Path.components_ofComponents hne hplain, startOf,
    Path.isAbsolute_append hrootNe] at hleads
  obtain ⟨mid, _, after, hbefore, hafter, -⟩ := hleads.exists_of_append
  rw [(hbefore.unique hleadsStem).1] at hafter
  exact ⟨after, hafter⟩

theorem real_of_link {names : List Text} {name target : Text} {e : Entry}
    (h : tree.entry? root names (name, .link target) = some e)
    (hshort : isTooLong maxPathBytes (pathBelow root (names ++ [name])) = false) :
    e.real? = some (tree.realPath (pathBelow root (names ++ [name]))) := by
  unfold entry? at h
  dsimp only at h
  split at h
  · cases h
  · cases h
    exact if_neg (by simp [hshort])

/-- A file that can be opened stands below the place of the root, if no link to it leads out of the
root. -/
theorem exists_rest_of_follow (htree : tree.top.WellFormed) (hnames : tree.top.Named) {f : Listed}
    (hroot : tree.follow root = .ok here) {node : Node} (hnode : tree.top.get? here = some node)
    (hfile : tree.HasFile root [] node f.names f.entry)
    (hinside : ∀ real ∈ f.entry.real?, Path.within real (tree.realPath root) = true)
    (hopen : tree.follow (f.source root).path = .ok there) {content : Bytes}
    (hcontent : tree.top.get? there = some (.file content))
    (hspelled : ∀ target, tree.top.get? (here ++ f.components) = some (.link target) →
      tree.IsSpelledOut root ∧ tree.IsSpelledOut (f.source root).path) :
    ∃ rest, rest ≠ [] ∧ there = here ++ rest := by
  obtain ⟨entries, entryNode, hdirectory, hentryNode, hentry⟩ :=
    exists_place_of_hasFile htree hnode hfile
  have hproper := hnames.get hentryNode
  have hcomponent (n : Text) (hn : n ∈ f.names ++ [f.entry.name]) : IsName n := by
    apply hproper
    rw [List.append_assoc]
    exact List.mem_append_right _ hn
  cases entryNode with
  | directory below => cases hentry
  | file content' =>
    obtain ⟨_, hleads⟩ : ∃ links, Leads tree.top here (f.names ++ [f.entry.name]) there links :=
      exists_leads_of_follow hroot (by simp) (fun n hn => (hcomponent n hn).plain) hopen
    rw [List.append_assoc] at hentryNode
    have hwalk :
        Leads tree.top here (f.names ++ [f.entry.name]) (here ++ (f.names ++ [f.entry.name])) 0 :=
      leads_of_get? hentryNode hcomponent nofun
    exact ⟨f.names ++ [f.entry.name], by simp, (hleads.unique hwalk).1⟩
  | link target =>
    have hreal := real_of_link hentry (isTooLong_of_follow hopen)
    have hwithin := hinside _ hreal
    have hlink : tree.top.get? (here ++ f.components) = some (.link target) := by
      rw [Listed.components, ← List.append_assoc]
      exact hentryNode
    obtain ⟨hrootSpelled, hfileSpelled⟩ := hspelled target hlink
    have hplace : tree.realPath (pathBelow root (f.names ++ [f.entry.name])) = absolute there :=
      realPath_of_follow hopen hfileSpelled
    rw [hplace, realPath_of_follow hroot hrootSpelled] at hwithin
    have hprefix := namesOf_prefix_of_within hwithin
    rw [namesOf_absolute (hnames.get hcontent), namesOf_absolute (hnames.get hnode)] at hprefix
    obtain ⟨rest, rfl⟩ := hprefix
    refine ⟨rest, ?_, rfl⟩
    -- the place of the root is a directory, that of the file is none
    rintro rfl
    rw [List.append_nil, hnode] at hcontent
    cases hcontent
    obtain ⟨_, hget, -⟩ := hfile
    obtain ⟨_, hplace⟩ := Node.exists_directory_of_get? hget
    cases hplace

/-- A file is opened below the place of the root if and only if no link to it leads out. -/
theorem inside_iff (htree : tree.top.WellFormed) (hnames : tree.top.Named) {f : Listed}
    (hroot : tree.follow root = .ok here) (hbelow : tree.HasFileBelow root f)
    (hopen : tree.follow (f.source root).path = .ok there) {content : Bytes}
    (hcontent : tree.top.get? there = some (.file content)) (hrootSpelled : tree.IsSpelledOut root)
    (hspelled : tree.IsSpelledOut (f.source root).path) :
    (∀ real ∈ f.entry.real?, Path.within real (tree.realPath root) = true) ↔ here <+: there := by
  obtain ⟨_, node, hroot', hnode, hfile⟩ := hbelow
  rw [hroot] at hroot'
  cases hroot'
  constructor
  · intro hinside
    obtain ⟨rest, -, rfl⟩ := exists_rest_of_follow htree hnames hroot hnode hfile hinside hopen
      hcontent fun _ _ => ⟨hrootSpelled, hspelled⟩
    exact List.prefix_append here rest
  · intro hprefix real hreal
    obtain ⟨_, entryNode, -, -, hentry⟩ := exists_place_of_hasFile htree hnode hfile
    cases entryNode with
    | directory below => cases hentry
    | file content' =>
      unfold entry? at hentry
      rw [Option.some.injEq] at hentry
      rw [← hentry] at hreal
      cases hreal
    | link target =>
      rw [real_of_link hentry (isTooLong_of_follow hopen)] at hreal
      cases hreal
      have hplace : tree.realPath (pathBelow root (f.names ++ [f.entry.name])) = absolute there :=
        realPath_of_follow hopen hspelled
      rw [hplace, realPath_of_follow hroot hrootSpelled]
      apply Path.IsNormal.within_of_prefix (isNormal_absolute (hnames.get hcontent))
        (isNormal_absolute (hnames.get hnode))
      rwa [namesOf_absolute (hnames.get hcontent), namesOf_absolute (hnames.get hnode)]

end Opened

theorem exists_file_of_read? {tree : Tree} {path : Text} {limit? : Option Nat} {bytes : Bytes}
    (h : tree.read? path limit? = some bytes) :
    ∃ there content, tree.follow path = .ok there ∧ tree.top.get? there = some (.file content) := by
  unfold read? content at h
  cases hfollow : tree.follow path with
  | error obstacle =>
    rw [hfollow] at h
    cases h
  | ok there =>
    rw [hfollow] at h
    cases hnode : tree.top.get? there with
    | none =>
      simp [hnode, bind, Except.bind, Except.toOption, throw, throwThe, MonadExceptOf.throw] at h
    | some node =>
      cases node with
      | file content => exact ⟨there, content, rfl, hnode⟩
      | link | directory => simp [hnode, bind, Except.bind, Except.toOption, throw, throwThe,
          MonadExceptOf.throw] at h

end CloneDetection
