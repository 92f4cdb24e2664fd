import CloneDetection.Clone.Finder
import CloneDetection.Proofs.Clone.Filling
import Mathlib.Logic.Function.Basic

/-!
# Sessions with indexes

In a session indexes are made, filled, merged and searched in any order, and any call may be refused
or cancelled. What a call leaves is said by the files that the index has afterwards: its own, then
those that were taken in, which end before the first path that is already indexed. The buckets of
every index that a session leads to list exactly the windows of its files.
-/
namespace CloneDetection

namespace Index

/-- `next` is the index with these files, all of them new to it, after its own ones. -/
structure Extends (index : Index) (files : List (Text × Array Window)) (next : Index) : Prop where
  windowSize_eq : next.windowSize = index.windowSize
  toList_eq : next.files.toList = index.files.toList ++ files
  fresh : ∀ f ∈ files, index.files.contains f.1 = false

section Extending

variable {index next last : Index} {path : Text} {windows : List Window}

theorem extends_nil (index : Index) : index.Extends [] index :=
  ⟨rfl, (List.append_nil _).symm, by simp⟩

theorem extends_adding (h : index.files.contains path = false) (windows : List Window) :
    index.Extends [(path, windows.toArray)] (index.adding path windows) where
  windowSize_eq := rfl
  toList_eq := Ordered.toList_upsert_of_not_mem h _
  fresh := by simpa using h

theorem contains_adding {other : Text} :
    (index.adding path windows).files.contains other = true ↔ other = path ∨
    index.files.contains other = true := by
  rw [Ordered.contains_eq_isSome, adding, Ordered.insert, Ordered.get?_upsert]
  by_cases h : path = other
  · simp [h]
  · rw [if_neg h, ← Ordered.contains_eq_isSome]
    simp [Ne.symm h]

theorem Extends.cons {files : List (Text × Array Window)} (h : index.files.contains path = false)
    (hrest : (index.adding path windows).Extends files next) :
    index.Extends ((path, windows.toArray) :: files) next where
  windowSize_eq := hrest.windowSize_eq
  toList_eq := by
    rw [hrest.toList_eq, (extends_adding h windows).toList_eq, List.append_assoc,
      List.singleton_append]
  fresh := by
    rw [List.forall_mem_cons]
    refine ⟨h, fun f hf => ?_⟩
    rw [Bool.eq_false_iff]
    intro hcontains
    have hafter := hrest.fresh f hf
    rw [contains_adding.2 (.inr hcontains)] at hafter
    cases hafter

theorem add?_eq_none (h : index.files.contains path = true) (windows : List Window) :
    index.add? path windows = none := by
  rw [add?, if_pos h]

theorem exists_add? (h : index.files.contains path = false) (windows : List Window) :
    ∃ next, index.add? path windows = some next ∧
      index.Extends (if windows = [] then [] else [(path, windows.toArray)]) next := by
  refine ⟨index.offer path windows, add?_eq_offer h windows, ?_⟩
  by_cases hwindows : windows = []
  · rw [if_pos hwindows, offer_eq_self (.inr hwindows)]
    exact extends_nil index
  · rw [if_neg hwindows, offer_eq_adding h hwindows]
    exact extends_adding h windows

/-- Files are taken in up to the first path that was indexed before. -/
theorem addAll_extends {files : List (Text × Array Window)} (hwindows : ∀ f ∈ files, f.2 ≠ #[])
    (hnodup : (files.map Prod.fst).Nodup) (index : Index) :
    ∃ next taken left, files = taken ++ left ∧ index.Extends taken next ∧
      (left = [] ∧ index.addAll files = (next, none) ∨
        ∃ path windows rest, left = (path, windows) :: rest ∧ index.files.contains path = true ∧
          index.addAll files = (next, some path)) := by
  induction files generalizing index with
  | nil => exact ⟨index, [], [], rfl, extends_nil index, .inl ⟨rfl, rfl⟩⟩
  | cons file files ih =>
    obtain ⟨path, windows⟩ := file
    obtain ⟨hfile, hfiles⟩ := List.forall_mem_cons.1 hwindows
    obtain ⟨hpath, hnodup⟩ := List.nodup_cons.1 hnodup
    cases hcontains : index.files.contains path with
    | true =>
      refine ⟨index, [], (path, windows) :: files, rfl, extends_nil index, .inr ?_⟩
      refine ⟨path, windows, files, rfl, hcontains, ?_⟩
      rw [addAll, add?_eq_none hcontains]
    | false =>
      have hadd : index.add? path windows.toList = some (index.adding path windows.toList) := by
        rw [add?_eq_offer hcontains, offer_eq_adding hcontains (by simpa using hfile)]
      obtain ⟨next, taken, left, rfl, hextends, hleft⟩ :=
        ih hfiles hnodup (index.adding path windows.toList)
      refine ⟨next, (path, windows) :: taken, left, rfl, hextends.cons hcontains, ?_⟩
      rw [addAll, hadd]
      apply hleft.imp id
      rintro ⟨refused, found, rest, rfl, hrefused, hall⟩
      refine ⟨refused, found, rest, rfl, ?_, hall⟩
      -- the paths of the files differ, so what is refused was not taken in just now
      refine (contains_adding.1 hrefused).resolve_left ?_
      rintro rfl
      exact hpath (List.mem_map.2 ⟨(refused, found), by simp, rfl⟩)

theorem merge_self (index : Index) : (index.merge index).1 = index := by
  rw [merge]
  cases hfiles : index.files.toList with
  | nil => rfl
  | cons file files =>
    obtain ⟨path, windows⟩ := file
    have hget : index.files.get? path = some windows := by
      rw [Ordered.get?_eq_some_iff, hfiles]
      exact List.mem_cons_self
    have hcontains : index.files.contains path = true := by
      rw [Ordered.contains_eq_isSome, hget, Option.isSome_some]
    rw [addAll, add?_eq_none hcontains]

theorem Coherent.offer (h : Coherent index) (path : Text) (windows : List Window) :
    Coherent (index.offer path windows) :=
  offer_keeps h h.adding

theorem Coherent.merge (h : Coherent index) (other : Index) : Coherent (index.merge other).1 := by
  have hoffer (index : Index) (path : Text) (windows : List Window) (hindex : Coherent index)
      (_ : True) :
      Coherent (index.offer path windows) := hindex.offer path windows
  exact addAll_keeps hoffer (fun _ _ => trivial) h

end Extending

end Index

abbrev Session := Text → Option Index

namespace Session

inductive Call where
  | create (name : Text) (size : Int)
  | add (name path : Text) (windows : List Window)
  | merge (name other : Text)
  | findGroups (name : Text) (near : Bool) (signal : Nat → Option Cancellation)

def Call.name : Call → Text
  | create name _ | add name _ _ | merge name _ | findGroups name _ _ => name

inductive Answer where
  /-- The index has so many files now. -/
  | holds (files : Nat)
  /-- There is a file of this path already. -/
  | refused (path : Text)
  | found (result : Except Halt (List CloneGroup))
  /-- There is no index of this name. -/
  | unknown

def put (s : Session) (name : Text) (index : Index) : Session :=
  Function.update s name (some index)

/-- What a session comes to by a call, and what is answered. -/
def step (s : Session) : Call → Session × Answer
  | .create name size => (s.put name (.empty size), .holds 0)
  | .add name path windows =>
    match s name with
    | none => (s, .unknown)
    | some index =>
      match index.add? path windows with
      | some next => (s.put name next, .holds next.fileCount)
      | none => (s, .refused path)
  | .merge name other =>
    match s name, s other with
    | some index, some second =>
      match index.merge second with
      | (next, none) => (s.put name next, .holds next.fileCount)
      | (next, some path) => (s.put name next, .refused path)
    | _, _ => (s, .unknown)
  | .findGroups name near signal =>
    match s name with
    | none => (s, .unknown)
    | some index =>
      (s, .found (((index.findGroups near).run (Host.recorded signal fun _ _ => none)).run {}).1)

def after (calls : List Call) : Session :=
  calls.foldl (fun s call => (s.step call).1) fun _ => none

/-- All indexes of the session are coherent. -/
def Coherent (s : Session) : Prop :=
  ∀ name index, s name = some index → index.Coherent

section Steps

variable {s : Session}

theorem put_of_ne {name other : Text} (h : other ≠ name) (index : Index) :
    s.put name index other = s other :=
  Function.update_of_ne h ..

theorem Coherent.put (h : s.Coherent) {name : Text} {index : Index} (hindex : index.Coherent) :
    (s.put name index).Coherent := by
  intro other found hfound
  by_cases hname : other = name
  · subst hname
    rw [Session.put, Function.update_self] at hfound
    cases hfound
    exact hindex
  · rw [put_of_ne hname] at hfound
    exact h other found hfound

theorem merge_eq {name other : Text} {index second : Index} (hindex : s name = some index)
    (hsecond : s other = some second) : s.step (.merge name other) =
      (s.put name (index.merge second).1, match (index.merge second).2 with
        | none => .holds (index.merge second).1.fileCount
        | some path => .refused path) := by
  rw [step, hindex, hsecond]
  dsimp only
  split
  · next h => rw [h]
  · next h => rw [h]

theorem Coherent.step (h : s.Coherent) (call : Call) : (s.step call).1.Coherent := by
  cases call with
  | create name size => exact h.put (.empty size)
  | add name path windows =>
    rw [Session.step]
    cases hindex : s name with
    | none => exact h
    | some index =>
      dsimp only
      cases hadd : index.add? path windows with
      | none => exact h
      | some next =>
        have hnext := (h name index hindex).offer path windows
        rw [Index.offer, hadd, Option.getD_some] at hnext
        exact h.put hnext
  | merge name other =>
    cases hindex : s name with
    | none =>
      rw [Session.step, hindex]
      exact h
    | some index =>
      cases hsecond : s other with
      | none =>
        rw [Session.step, hindex, hsecond]
        exact h
      | some second =>
        rw [merge_eq hindex hsecond]
        exact h.put ((h name index hindex).merge second)
  | findGroups name near signal =>
    rw [Session.step]
    cases s name with
    | none => exact h
    | some index => exact h

theorem coherent_after (calls : List Call) : (after calls).Coherent := by
  have hall (s : Session) (hs : s.Coherent) :
      (calls.foldl (fun s call => (s.step call).1) s).Coherent := by
    induction calls generalizing s with
    | nil => exact hs
    | cons call calls ih => exact ih _ (hs.step call)
  exact hall _ fun _ _ hnone => nomatch hnone

theorem step_of_ne (call : Call) {other : Text} (h : other ≠ call.name) :
    (s.step call).1 other = s other := by
  cases call with
  | create name size => exact put_of_ne h _
  | add name path windows =>
    rw [step]
    cases s name with
    | none => rfl
    | some index =>
      dsimp only
      cases index.add? path windows with
      | none => rfl
      | some next => exact put_of_ne h _
  | merge name second =>
    cases hindex : s name with
    | none => rw [step, hindex]
    | some index =>
      cases hsecond : s second with
      | none => rw [step, hindex, hsecond]
      | some second =>
        rw [merge_eq hindex hsecond]
        exact put_of_ne h _
  | findGroups name near signal =>
    rw [step]
    cases s name with
    | none => rfl
    | some index => rfl

theorem findGroups_unchanged (s : Session) (name : Text) (near : Bool)
    (signal : Nat → Option Cancellation) :
    (s.step (.findGroups name near signal)).1 = s := by
  rw [step]
  cases s name with
  | none => rfl
  | some index => rfl

theorem merged_unchanged (s : Session) (name other : Text) :
    (s.step (.merge name other)).1 other = s other := by
  by_cases h : other = name
  · subst h
    cases hindex : s other with
    | none =>
      rw [step, hindex]
      exact hindex
    | some index =>
      rw [merge_eq hindex hindex, Index.merge_self]
      exact Function.update_self ..
  · exact step_of_ne _ h

theorem add_refused {name path : Text} {index : Index} (hindex : s name = some index)
    (hpath : index.files.contains path = true) (windows : List Window) :
    s.step (.add name path windows) = (s, .refused path) := by
  rw [step, hindex]
  dsimp only
  rw [Index.add?_eq_none hpath]

theorem add_accepted {name path : Text} {index : Index} (hindex : s name = some index)
    (hpath : index.files.contains path = false) (windows : List Window) :
    ∃ next, index.Extends (if windows = [] then [] else [(path, windows.toArray)]) next ∧
      s.step (.add name path windows) = (s.put name next, .holds next.fileCount) := by
  obtain ⟨next, hadd, hextends⟩ := Index.exists_add? hpath windows
  refine ⟨next, hextends, ?_⟩
  rw [step, hindex]
  dsimp only
  rw [hadd]

theorem merge_extends {name other : Text} {index second : Index} (hindex : s name = some index)
    (hother : s other = some second) (hsecond : second.Coherent) :
    ∃ next taken left, second.files.toList = taken ++ left ∧ index.Extends taken next ∧
      (left = [] ∧ s.step (.merge name other) = (s.put name next, .holds next.fileCount) ∨
        ∃ path windows rest, left = (path, windows) :: rest ∧ index.files.contains path = true ∧
          s.step (.merge name other) = (s.put name next, .refused path)) := by
  have hwindows : ∀ f ∈ second.files.toList, f.2 ≠ #[] := by
    rintro ⟨path, windows⟩ hf rfl
    exact hsecond.windows_ne_empty path (Ordered.get?_eq_some_iff.2 hf)
  have hnodup : (second.files.toList.map Prod.fst).Nodup := by
    rw [Ordered.map_fst_toList]
    exact Ordered.nodup_keys _
  obtain ⟨next, taken, left, hsplit, hextends, hleft⟩ := Index.addAll_extends hwindows hnodup index
  refine ⟨next, taken, left, hsplit, hextends, ?_⟩
  rw [merge_eq hindex hother, Index.merge]
  apply hleft.imp
  · rintro ⟨hnil, hall⟩
    exact ⟨hnil, by rw [hall]⟩
  · rintro ⟨path, windows, rest, hcons, hrefused, hall⟩
    exact ⟨path, windows, rest, hcons, hrefused, by rw [hall]⟩

/-- Whatever calls came before, accepted or refused, every index is coherent, a refused file changes
nothing, a merge takes over the files before the first path that is indexed already, and neither the
index that is merged from nor one that is searched nor any other that is not called is changed. -/
theorem after_coherent (calls : List Call) :
    let s := after calls
    (∀ name index, s name = some index → index.Coherent) ∧
    (∀ name path windows index, s name = some index →
      (index.files.contains path = true → s.step (.add name path windows) = (s, .refused path)) ∧
      (index.files.contains path = false →
        ∃ next, index.Extends (if windows = [] then [] else [(path, windows.toArray)]) next ∧
          s.step (.add name path windows) = (s.put name next, .holds next.fileCount))) ∧
    (∀ name other index second, s name = some index → s other = some second →
      ∃ next taken left, second.files.toList = taken ++ left ∧ index.Extends taken next ∧
        (left = [] ∧ s.step (.merge name other) = (s.put name next, .holds next.fileCount) ∨
          ∃ path windows rest, left = (path, windows) :: rest ∧ index.files.contains path = true ∧
            s.step (.merge name other) = (s.put name next, .refused path))) ∧
    (∀ name other, (s.step (.merge name other)).1 other = s other) ∧
    (∀ name near signal, (s.step (.findGroups name near signal)).1 = s) ∧
    ∀ call other, other ≠ call.name → (s.step call).1 other = s other := by
  intro s
  have hs : s.Coherent := coherent_after calls
  refine ⟨hs, ?_, ?_, s.merged_unchanged, s.findGroups_unchanged, fun call _ => step_of_ne call⟩
  · intro name path windows index hindex
    exact ⟨fun hpath => add_refused hindex hpath windows,
      fun hpath => add_accepted hindex hpath windows⟩
  · intro name other index second hindex hother
    exact merge_extends hindex hother (hs other second hother)

/-- Two indexes with one path in common, which stands between two others in the second one. -/
def overlapping : List Call :=
  [.create ['a'] 6, .add ['a'] ['p'] [⟨7, 1, 6⟩], .create ['b'] 6, .add ['b'] ['q'] [⟨8, 1, 6⟩],
    .add ['b'] ['p'] [⟨7, 1, 6⟩], .add ['b'] ['r'] [⟨9, 1, 6⟩]]

theorem after_coherent_overlapping :
    ∃ index second next,
      after overlapping ['a'] = some index ∧ after overlapping ['b'] = some second ∧
      (after overlapping).step (.merge ['a'] ['b']) =
        ((after overlapping).put ['a'] next, .refused ['p']) ∧
      index.Extends [(['q'], #[⟨8, 1, 6⟩])] next ∧ index.Coherent ∧ second.Coherent := by
  obtain ⟨hcoherent, -, hmerge, -⟩ := after_coherent overlapping
  have hfirst : ∃ index, after overlapping ['a'] = some index ∧ index.files.keys = [['p']] :=
    ⟨_, rfl, rfl⟩
  have hsecond : ∃ second, after overlapping ['b'] = some second ∧ second.files.toList =
      [(['q'], #[⟨8, 1, 6⟩]), (['p'], #[⟨7, 1, 6⟩]), (['r'], #[⟨9, 1, 6⟩])] :=
    ⟨_, rfl, rfl⟩
  obtain ⟨index, hindex, hkeys⟩ := hfirst
  obtain ⟨second, hother, hfiles⟩ := hsecond
  obtain ⟨next, taken, left, hsplit, hextends, hleft⟩ := hmerge _ _ index second hindex hother
  have hcontains {path : Text} : index.files.contains path = true ↔ path = ['p'] := by
    rw [← Ordered.mem_keys_iff, hkeys, List.mem_singleton]
  have hfresh {file : Text × Array Window} (h : file ∈ taken) : file.1 ≠ ['p'] := by
    intro hpath
    have hnew := hextends.fresh file h
    rw [hcontains.2 hpath] at hnew
    cases hnew
  refine ⟨index, second, next, hindex, hother, ?_⟩
  -- what is taken over ends before the second file of three
  rw [hfiles] at hsplit
  match taken, hsplit with
  | [], hsplit =>
    obtain ⟨rfl, -⟩ | ⟨path, windows, rest, rfl, hrefused, -⟩ := hleft
    · cases hsplit
    · cases hsplit
      cases hcontains.1 hrefused
  | [_], hsplit =>
    obtain ⟨rfl, -⟩ | ⟨path, windows, rest, rfl, -, hstep⟩ := hleft
    · cases hsplit
    · cases hsplit
      exact ⟨hstep, hextends, hcoherent _ index hindex, hcoherent _ second hother⟩
  | first :: common :: more, hsplit =>
    have hcommon : (['p'], #[⟨7, 1, 6⟩]) = common := (List.cons.inj (List.cons.inj hsplit).2).1
    exact absurd (congrArg Prod.fst hcommon.symm)
      (hfresh (List.mem_cons_of_mem _ List.mem_cons_self))

end Steps

end Session

end CloneDetection
