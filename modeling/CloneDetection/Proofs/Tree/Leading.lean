import CloneDetection.Proofs.Path.Within
import CloneDetection.Proofs.Tree.Listing

/-!
# Where names lead

Names lead from a directory to one place at the most, whatever links are on the way: a link leads to
where its target leads, with all links on the way there. What follows links with a budget only comes
where the names lead. What resolves a path spells that place out, as long as no link on the way has
a path that is too long to be asked for. It never comes to a link that it is just following, since
the way behind a link has fewer links than the way through it.
-/
namespace CloneDetection

namespace Node

/-- The entries of every directory have proper names. -/
inductive Named : Node → Prop
  | file (content : Bytes) : Named (.file content)
  | link (target : Text) : Named (.link target)
  | directory {entries : List (Text × Node)} (names : ∀ e ∈ entries, Tree.IsName e.1)
      (all : ∀ e ∈ entries, Named e.2) :
      Named (.directory entries)

theorem Named.get {node node' : Node} {names : List Text} (h : node.Named)
    (hget : node.get? names = some node') :
    ∀ n ∈ names, Tree.IsName n := by
  induction names generalizing node with
  | nil => simp
  | cons name rest ih =>
    rw [get?, Option.bind_eq_some_iff] at hget
    obtain ⟨next, hnext, hrest⟩ := hget
    obtain ⟨entries, rfl, hmem⟩ := exists_of_child? hnext
    cases h with
    | directory names all => exact List.forall_mem_cons.2 ⟨names _ hmem, ih (all _ hmem) hrest⟩

end Node

namespace Tree

variable {top : Node}

/-- What a name does on the way. -/
inductive Turn where
  | goes (next : List Text)
  /-- It names a link. -/
  | follows (target : Text)

/-- What a name does in the directory `here`. -/
def turn (top : Node) (here : List Text) (name : Text) : Turn :=
  if name = [] ∨ name = ['.'] then .goes here
  else if name = ['.', '.'] then .goes here.dropLast
  else
    match top.get? (here ++ [name]) with
    | some (.link target) => .follows target
    | _ => .goes (here ++ [name])

section Turn

variable {here next : List Text} {name target : Text}

theorem turn_of_link (hstay : ¬ (name = [] ∨ name = ['.'])) (hup : ¬ name = ['.', '.'])
    (h : top.get? (here ++ [name]) = some (.link target)) :
    turn top here name = .follows target := by
  simp [turn, hstay, hup, h]

theorem turn_of_plain (hstay : ¬ (name = [] ∨ name = ['.'])) (hup : ¬ name = ['.', '.'])
    (h : ∀ target, top.get? (here ++ [name]) ≠ some (.link target)) :
    turn top here name = .goes (here ++ [name]) := by
  rw [turn, if_neg hstay, if_neg hup]
  split
  · next target htarget => exact absurd htarget (h target)
  · rfl

theorem turn_eq_follows_iff : turn top here name = .follows target ↔
    ¬ (name = [] ∨ name = ['.']) ∧ ¬ name = ['.', '.'] ∧
      top.get? (here ++ [name]) = some (.link target) := by
  constructor
  · intro h
    unfold turn at h
    split at h
    · cases h
    · next hstay =>
      split at h
      · cases h
      · next hup =>
        split at h
        · next hlink =>
          cases h
          exact ⟨hstay, hup, hlink⟩
        · cases h
  · rintro ⟨hstay, hup, hlink⟩
    exact turn_of_link hstay hup hlink

end Turn

/-- Where the target of a link in `here` starts. -/
def startOfTarget (here : List Text) (target : Text) : List Text :=
  if Path.isAbsolute target then [] else here

/-- The names `rest` lead from `here` to `there`, with so many links on the way. -/
inductive Leads (top : Node) : List Text → List Text → List Text → Nat → Prop
  | done (here : List Text) : Leads top here [] here 0
  | go {here next there rest : List Text} {name : Text} {links : Nat} (h : turn top here name =
      .goes next)
      (hrest : Leads top next rest there links) : Leads top here (name :: rest) there links
  | follow {here mid there rest : List Text} {name target : Text} {inside after : Nat}
      (h : turn top here name = .follows target)
      (htarget : Leads top (startOfTarget here target) (Path.components target) mid inside)
      (hrest : Leads top mid rest there after) :
        Leads top here (name :: rest) there (inside + after + 1)

namespace Leads

variable {here mid there there' p q rest : List Text} {links links' : Nat}

/-- Names lead to one place only, on one way. -/
theorem unique (h : Leads top here rest there links) (h' : Leads top here rest there' links') :
    there = there' ∧ links = links' := by
  induction h generalizing there' links' with
  | done here =>
    cases h'
    exact ⟨rfl, rfl⟩
  | go hturn _ ih =>
    cases h' with
    | go hturn' hrest' =>
      rw [hturn] at hturn'
      cases hturn'
      exact ih hrest'
    | follow hturn' =>
      rw [hturn] at hturn'
      cases hturn'
  | follow hturn _ _ ihtarget ihrest =>
    cases h' with
    | go hturn' =>
      rw [hturn] at hturn'
      cases hturn'
    | follow hturn' htarget' hrest' =>
      rw [hturn] at hturn'
      cases hturn'
      obtain ⟨rfl, rfl⟩ := ihtarget htarget'
      obtain ⟨rfl, rfl⟩ := ihrest hrest'
      exact ⟨rfl, rfl⟩

/-- The way of names that follow one another goes by a place in between. -/
theorem exists_of_append (h : Leads top here (p ++ q) there links) :
    ∃ mid before after, Leads top here p mid before ∧ Leads top mid q there after ∧
      links = before + after := by
  induction p generalizing here links with
  | nil => exact ⟨here, 0, links, .done here, h, (Nat.zero_add links).symm⟩
  | cons name p ih =>
    cases h with
    | go hturn hrest =>
      obtain ⟨mid, before, after, hp, hq, hcount⟩ := ih hrest
      exact ⟨mid, before, after, .go hturn hp, hq, hcount⟩
    | follow hturn htarget hrest =>
      obtain ⟨mid, before, after, hp, hq, hcount⟩ := ih hrest
      exact ⟨mid, _, after, .follow hturn htarget hp, hq, by omega⟩

end Leads

section Follow

/-- What links are followed to, names lead to. -/
theorem leads_of_followNames {budget : Nat} {here rest there : List Text}
    (h : followNames top budget here rest = .ok there) :
    ∃ links ≤ budget, Leads top here rest there links := by
  fun_induction followNames top budget here rest with
  | case1 budget here =>
    cases h
    exact ⟨0, Nat.zero_le _, .done _⟩
  | case2 | case5 | case6 | case7 => cases h
  | case3 budget here name rest _ hstay ih =>
    obtain ⟨links, hle, hrest⟩ := ih h
    exact ⟨links, hle, .go (if_pos hstay) hrest⟩
  | case4 budget here rest _ _ ih =>
    obtain ⟨links, hle, hrest⟩ := ih h
    exact ⟨links, hle, .go rfl hrest⟩
  | case8 here name rest _ hstay hup target hlink left _ ih =>
    obtain ⟨links, hle, hall⟩ := ih h
    obtain ⟨mid, inside, after, htarget, hrest, hcount⟩ := hall.exists_of_append
    exact ⟨inside + after + 1, by omega, .follow (turn_of_link hstay hup hlink) htarget hrest⟩
  | case9 budget here name rest _ hstay hup node hplain hnode ih =>
    obtain ⟨links, hle, hrest⟩ := ih h
    have hnolink (target : Text) : top.get? (here ++ [name]) ≠ some (.link target) := by
      rw [hnode]
      rintro ⟨⟩
      exact hplain target rfl
    exact ⟨links, hle, .go (turn_of_plain hstay hup hnolink) hrest⟩

end Follow

section Place

variable {tree : Tree} {here : Spelling} {next : List Text} {name target : Text}

theorem place_add_up (tree : Tree) (here : Spelling) :
    tree.place (here.add ['.', '.']) = (tree.place here).dropLast := by
  obtain ⟨absolute, kept⟩ := here
  cases kept with
  | nil => cases absolute <;> rfl
  | cons last kept =>
    by_cases hup : last = ['.', '.']
    · subst hup
      rfl
    · simp [Spelling.add, Path.addComponent, place, hup]

theorem place_add (hstay : ¬ (name = [] ∨ name = ['.'])) (hup : ¬ name = ['.', '.']) :
    tree.place (here.add name) = tree.place here ++ [name] := by
  simp [Spelling.add, Path.addComponent, place, hstay, hup]

theorem add_of_stay (hstay : name = [] ∨ name = ['.']) : here.add name = here := by
  simp [Spelling.add, Path.addComponent, hstay]

theorem place_add_of_goes (h : turn tree.top (tree.place here) name = .goes next) :
    tree.place (here.add name) = next := by
  unfold turn at h
  split at h
  · next hstay =>
    cases h
    rw [add_of_stay hstay]
  · next hstay =>
    split at h
    · next hup =>
      cases h
      rw [hup, place_add_up]
    · next hup =>
      split at h
      · cases h
      · cases h
        exact place_add hstay hup

theorem place_startOf (tree : Tree) (here : Spelling) (target : Text) :
    tree.place (here.startOf target) = startOfTarget (tree.place here) target := by
  unfold Spelling.startOf startOfTarget
  split
  · rfl
  · rfl

/-- A link is found as long as its path is short. -/
theorem linkAt?_add (h : turn tree.top (tree.place here) name = .follows target)
    (hshort : isTooLong maxPathBytes (here.add name).text = false) :
    tree.linkAt? (here.add name) = some target := by
  obtain ⟨hstay, hup, hlink⟩ := turn_eq_follows_iff.1 h
  rw [linkAt?, if_neg (by simp [hshort]), place_add hstay hup, hlink]

theorem linkAt?_eq_some_iff {s : Spelling} :
    tree.linkAt? s = some target ↔
      isTooLong maxPathBytes s.text = false ∧
        tree.top.get? (tree.place s) = some (.link target) := by
  unfold linkAt?
  split
  · next hlong => simp [hlong]
  · next hshort =>
    rw [Bool.not_eq_true] at hshort
    split
    · next found hfound => simp [hshort, hfound]
    · next hplain =>
      refine iff_of_false nofun ?_
      rintro ⟨-, hlink⟩
      exact hplain _ hlink

end Place

/-- The names `rest` lead from the path `here` to the path `there`, with so many links on the way,
each of which has a path that is short enough to be asked for. -/
inductive Spells (tree : Tree) : Spelling → List Text → Spelling → Nat → Prop
  | done (here : Spelling) : Spells tree here [] here 0
  | go {here there : Spelling} {next rest : List Text} {name : Text} {links : Nat}
      (h : turn tree.top (tree.place here) name = .goes next)
      (hrest : Spells tree (here.add name) rest there links) :
        Spells tree here (name :: rest) there links
  | follow {here mid there : Spelling} {rest : List Text} {name target : Text} {inside after : Nat}
      (h : turn tree.top (tree.place here) name = .follows target)
      (hshort : isTooLong maxPathBytes (here.add name).text = false)
      (htarget : Spells tree (here.startOf target) (Path.components target) mid inside)
      (hrest : Spells tree mid rest there after) :
        Spells tree here (name :: rest) there (inside + after + 1)

/-- No link on the way of a path has a path that is too long to be asked for. -/
def IsSpelledOut (tree : Tree) (path : Text) : Prop :=
  ∃ there links, Spells tree (Spelling.startOf ⟨false, []⟩ path) (Path.components path) there links

section Real

variable {tree : Tree} {fuel left links : Nat} {active : List Spelling} {here mid there : Spelling}
  {next rest : List Text} {name target : Text}

theorem Spells.leads (h : Spells tree here rest there links) :
    Leads tree.top (tree.place here) rest (tree.place there) links := by
  induction h with
  | done here => exact .done _
  | go hturn _ ih =>
    rw [place_add_of_goes hturn] at ih
    exact .go hturn ih
  | follow hturn _ _ _ ihtarget ihrest =>
    rw [place_startOf] at ihtarget
    exact .follow hturn ihtarget ihrest

theorem resolve_of_goes (h : turn tree.top (tree.place here) name = .goes next) :
    tree.resolve fuel active here (name :: rest) =
      tree.resolve fuel active (here.add name) rest := by
  rw [resolve]
  unfold turn at h
  split at h
  · next hstay => rw [if_pos hstay, add_of_stay hstay]
  · next hstay =>
    rw [if_neg hstay]
    split at h
    · next hup => rw [if_pos hup]
    · next hup =>
      rw [if_neg hup]
      split at h
      · cases h
      · next hplain =>
        dsimp only
        split
        · rfl
        · next hlink =>
          rw [linkAt?_eq_some_iff, place_add hstay hup] at hlink
          exact absurd hlink.2 (hplain _)

theorem resolve_of_not_mem (hstay : ¬ (name = [] ∨ name = ['.'])) (hup : ¬ name = ['.', '.'])
    (hlink : tree.linkAt? (here.add name) = some target) (hnew : here.add name ∉ active)
    (left : Nat) :
    tree.resolve (left + 1) active here (name :: rest) =
      match tree.resolve left (here.add name :: active) (here.startOf target)
        (Path.components target) with
      | .ok found => tree.resolve (left + 1) active found rest
      | .error found => .error (Path.join found (Path.ofComponents rest)) := by
  rw [resolve, if_neg hstay, if_neg hup]
  dsimp only
  rw [hlink]
  dsimp only
  exact if_neg (by simpa using hnew)

theorem resolve_of_follows (h : turn tree.top (tree.place here) name = .follows target)
    (hshort : isTooLong maxPathBytes (here.add name).text = false) (hnew : here.add name ∉ active)
    (htarget : tree.resolve left (here.add name :: active) (here.startOf target)
      (Path.components target) = .ok mid) :
    tree.resolve (left + 1) active here (name :: rest) =
      tree.resolve (left + 1) active mid rest := by
  obtain ⟨hstay, hup, -⟩ := turn_eq_follows_iff.1 h
  rw [resolve_of_not_mem hstay hup (linkAt?_add h hshort) hnew, htarget]

/-- The link at these names leads somewhere, with so many links on the way from its target. -/
def Resolves (top : Node) (path : List Text) (links : Nat) : Prop :=
  ∃ here name target there, path = here ++ [name] ∧ turn top here name = .follows target ∧
    Leads top (startOfTarget here target) (Path.components target) there links

theorem Resolves.unique {top : Node} {path : List Text} {links links' : Nat}
    (h : Resolves top path links) (h' : Resolves top path links') : links = links' := by
  obtain ⟨here, name, target, there, rfl, hturn, hleads⟩ := h
  obtain ⟨here', name', target', there', heq, hturn', hleads'⟩ := h'
  obtain ⟨rfl, hname⟩ := List.append_inj' heq rfl
  cases hname
  rw [hturn] at hturn'
  cases hturn'
  exact (hleads.unique hleads').2

/-- What resolves names spells out the place where they lead, as long as the links that are being
followed have no less links behind them and there is fuel for all links on the way. -/
theorem resolve_of_spells (h : Spells tree here rest there links)
    (hactive : ∀ s ∈ active, ∃ behind, Resolves tree.top (tree.place s) behind ∧ links ≤ behind)
    (hfuel : links ≤ fuel) : tree.resolve fuel active here rest = .ok there := by
  induction h generalizing fuel active with
  | done here => rw [resolve]
  | go hturn _ ih =>
    rw [resolve_of_goes hturn]
    exact ih hactive hfuel
  | @follow here mid there rest name target inside after hturn hshort htarget hrest ihtarget
      ihrest =>
    obtain ⟨hstay, hup, -⟩ := turn_eq_follows_iff.1 hturn
    have hresolves : Resolves tree.top (tree.place (here.add name)) inside := by
      refine ⟨tree.place here, name, target, tree.place mid, place_add hstay hup, hturn, ?_⟩
      rw [← place_startOf]
      exact htarget.leads
    have hnew : here.add name ∉ active := by
      intro hmem
      obtain ⟨behind, hbehind, hle⟩ := hactive _ hmem
      rw [← hresolves.unique hbehind] at hle
      omega
    obtain ⟨left, rfl⟩ : ∃ left, fuel = left + 1 := ⟨fuel - 1, by omega⟩
    have hinside :
        tree.resolve left (here.add name :: active) (here.startOf target) (Path.components target) =
        .ok mid := by
      apply ihtarget
      · intro s hs
        rcases List.mem_cons.1 hs with rfl | hs
        · exact ⟨inside, hresolves, Nat.le_refl _⟩
        · obtain ⟨behind, hbehind, hle⟩ := hactive s hs
          exact ⟨behind, hbehind, by omega⟩
      · omega
    rw [resolve_of_follows hturn hshort hnew hinside]
    refine ihrest (fun s hs => ?_) (by omega)
    obtain ⟨behind, hbehind, hle⟩ := hactive s hs
    exact ⟨behind, hbehind, by omega⟩

end Real

section Path

variable {tree : Tree} {path : Text} {here there names : List Text}

theorem leads_of_follow (h : tree.follow path = .ok there) :
    path ≠ [] ∧ ∃ links ≤ maxLinks,
      Leads tree.top (tree.startOf path) (Path.components path) there links := by
  unfold follow at h
  split at h
  · cases h
  · next hpath =>
    split at h
    · cases h
    · exact ⟨by simpa using hpath, leads_of_followNames h⟩

theorem isTooLong_of_follow (h : tree.follow path = .ok there) :
    isTooLong maxPathBytes path = false := by
  unfold follow at h
  split at h
  · cases h
  · split at h
    · cases h
    · next hshort => simpa using hshort

theorem place_start (tree : Tree) (path : Text) :
    tree.place (Spelling.startOf ⟨false, []⟩ path) = tree.startOf path := by
  rw [place_startOf]
  rfl

/-- The real path of what can be opened is that of the place where it is, unless a link on the way
has a path that is too long to be asked for. -/
theorem realPath_of_follow (h : tree.follow path = .ok there) (hshort : tree.IsSpelledOut path) :
    tree.realPath path = absolute there := by
  obtain ⟨-, links, hlinks, hleads⟩ := leads_of_follow h
  obtain ⟨s, links', hspells⟩ := hshort
  have hleads' := hspells.leads
  rw [place_start] at hleads'
  obtain ⟨rfl, rfl⟩ := hleads.unique hleads'
  have hfuel : maxLinks ≤ tree.maxActive := by
    unfold maxActive maxLinks maxPathBytes
    omega
  rw [realPath, resolve_of_spells hspells (by simp) (Nat.le_trans hlinks hfuel)]

theorem leads_of_get? {node : Node} (hget : top.get? (here ++ names) = some node)
    (hnames : ∀ n ∈ names, IsName n) (hplain : ∀ target, node ≠ .link target) :
    Leads top here names (here ++ names) 0 := by
  induction names generalizing here with
  | nil =>
    rw [List.append_nil]
    exact .done here
  | cons name rest ih =>
    have happend : here ++ name :: rest = (here ++ [name]) ++ rest := by simp
    obtain ⟨hname, hrest⟩ := List.forall_mem_cons.1 hnames
    have hordinary := hname.ordinary
    simp only [isSpecial, decide_eq_false_iff_not, not_or] at hordinary
    rw [happend] at hget ⊢
    refine .go (turn_of_plain (by simp [hordinary]) hordinary.2.2 ?_) (ih hget hrest)
    intro target hlink
    rw [Node.get?_append, hlink, Option.bind_some] at hget
    cases rest with
    | nil =>
      cases hget
      exact hplain target rfl
    | cons => cases hget

end Path

end Tree

end CloneDetection
