import CloneDetection.Proofs.Path.Containment
import CloneDetection.Proofs.Text.Splitting

/-!
# Real paths are in normal form

Whatever a path is and whatever links it leads over, its real path is one slash and ordinary names,
unless one of the links leads back to itself. Names come from cutting texts at slashes, so there is
no slash in any of them, and putting a path together drops those that stand for other directories.
Real paths are what is compared when a link is asked for where it leads.
-/
namespace CloneDetection

namespace Tree

/-- Every component is a name, or one more `..` on the way up from the working directory. -/
def Spelling.IsProper (s : Spelling) : Prop :=
  ∀ n ∈ s.kept, n = ['.', '.'] ∨ IsName n

theorem Spelling.IsProper.add {s : Spelling} (h : s.IsProper) {name : Text} (hname : '/' ∉ name) :
    (s.add name).IsProper := by
  unfold IsProper Spelling.add Path.addComponent at *
  split
  · exact h
  · next hstay =>
    split
    · next hup =>
      split
      · cases s.absolute <;> simp [hup]
      · next last rest hkept =>
        split
        · exact List.forall_mem_cons.2 ⟨.inl hup, h⟩
        · rw [hkept, List.forall_mem_cons] at h
          exact h.2
    · next hup =>
      have hordinary : isSpecial name = false := by
        simpa only [isSpecial, decide_eq_false_iff_not, or_assoc] using not_or.2 ⟨hstay, hup⟩
      exact List.forall_mem_cons.2 ⟨.inr ⟨hordinary, hname⟩, h⟩

theorem Spelling.IsProper.startOf {s : Spelling} (h : s.IsProper) (path : Text) :
    (s.startOf path).IsProper := by
  unfold Spelling.startOf
  split
  · exact List.forall_mem_nil _
  · exact h

theorem isProper_of_resolve {tree : Tree} {fuel : Nat} {active : List Spelling} {here : Spelling}
    {rest : List Text} (hhere : here.IsProper) (hrest : ∀ n ∈ rest, '/' ∉ n) :
    ∀ there, tree.resolve fuel active here rest = .ok there → there.IsProper := by
  fun_induction tree.resolve fuel active here rest with
  | case1 =>
    rintro _ ⟨⟩
    exact hhere
  | case2 fuel active here name rest _ ih => exact ih hhere (List.forall_mem_cons.1 hrest).2
  | case3 fuel active here rest _ ih =>
    obtain ⟨hname, hrest⟩ := List.forall_mem_cons.1 hrest
    exact ih (hhere.add hname) hrest
  | case4 fuel active here name rest _ _ next _ ih =>
    obtain ⟨hname, hrest⟩ := List.forall_mem_cons.1 hrest
    exact ih (hhere.add hname) hrest
  | case5 | case6 | case8 => exact fun _ h => nomatch h
  | case7 active here name rest _ _ next target _ left _ found hfound ihtarget ihrest =>
    have hfoundProper : found.IsProper :=
      ihtarget (hhere.startOf target) (fun _ => not_mem_of_mem_splitOn) found hfound
    exact ihrest hfoundProper (List.forall_mem_cons.1 hrest).2

theorem isName_of_mem_place {tree : Tree} (hworking : ∀ n ∈ tree.working, IsName n) {s : Spelling}
    (h : s.IsProper) : ∀ n ∈ tree.place s, IsName n := by
  obtain ⟨absolute, kept⟩ := s
  unfold place
  dsimp only
  induction kept with
  | nil =>
    cases absolute with
    | true => exact List.forall_mem_nil _
    | false => exact hworking
  | cons name kept ih =>
    obtain ⟨hname, hkept⟩ := List.forall_mem_cons.1 (show ∀ n ∈ name :: kept, _ from h)
    rw [List.foldr_cons]
    split
    · exact fun n hn => ih hkept n (List.dropLast_subset _ hn)
    · next hup =>
      rw [List.forall_mem_append, List.forall_mem_singleton]
      exact ⟨ih hkept, hname.resolve_left hup⟩

theorem isNormal_absolute {names : List Text} (h : ∀ n ∈ names, IsName n) :
    Path.IsNormal (absolute names) := by
  refine ⟨rfl, ?_⟩
  rw [absolute, List.tail_cons]
  by_cases hnil : names = []
  · rw [hnil]
    exact .inl rfl
  · rw [Path.components_ofComponents hnil fun n hn => (h n hn).plain]
    exact .inr fun n hn => (h n hn).ordinary

/-- In a tree whose working directory has a proper path, every path that can be resolved has a real
path in normal form. -/
theorem isNormal_realPath {tree : Tree} (hworking : ∀ n ∈ tree.working, IsName n) {path : Text}
    {s : Spelling}
    (h : tree.resolve tree.maxActive [] (Spelling.startOf ⟨false, []⟩ path) (Path.components path) =
      .ok s) :
    Path.IsNormal (tree.realPath path) := by
  have hstart : (Spelling.startOf ⟨false, []⟩ path).IsProper := by
    apply Spelling.IsProper.startOf
    exact List.forall_mem_nil _
  rw [realPath, h]
  exact isNormal_absolute
    (isName_of_mem_place hworking
      (isProper_of_resolve hstart (fun _ => not_mem_of_mem_splitOn) s h))

end Tree

end CloneDetection
