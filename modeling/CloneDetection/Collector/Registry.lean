import CloneDetection.Collector.Duplication

/-!
# Collectors by name

A collector looks through a tree and reports findings and a tally. A registry holds collectors under
names that differ; `get?_register_self` and `get?_register_of_ne` say what one more collector
changes.
-/
namespace CloneDetection

structure Collector where
  name : Text
  collect : Tree → Text → Options → Scan (List Finding × Tally)

def Duplication.collector : Collector where
  name := Finding.duplication
  collect tree root options :=
    (fun (findings, metrics) => (findings, .counts metrics)) <$> collect tree root options

structure Registry where
  /-- The collectors in order of registration. -/
  collectors : List Collector
  nodup : (collectors.map Collector.name).Nodup

namespace Registry

/-- What is there from the start. -/
def standard : Registry :=
  ⟨[Duplication.collector], by simp⟩

def get? (r : Registry) (name : Text) : Option Collector :=
  r.collectors.find? (·.name == name)

def names (r : Registry) : List Text :=
  sorted (r.collectors.map Collector.name)

/-- The registry with one more collector; `none` if its name is taken. -/
def register? (r : Registry) (c : Collector) : Option Registry :=
  if h : c.name ∈ r.collectors.map Collector.name then none
  else some ⟨r.collectors ++ [c], by
    rw [List.map_append, List.nodup_append]
    refine ⟨r.nodup, by simp, ?_⟩
    simp only [List.map_cons, List.map_nil, List.mem_singleton]
    rintro a ha b rfl rfl
    exact h ha⟩

theorem get?_eq_none_iff {r : Registry} {name : Text} :
    r.get? name = none ↔ name ∉ r.collectors.map Collector.name := by
  simp [get?]

theorem register?_eq_none_iff {r : Registry} {c : Collector} :
    r.register? c = none ↔ (r.get? c.name).isSome := by
  rw [← Option.ne_none_iff_isSome, ne_eq, get?_eq_none_iff, Decidable.not_not]
  unfold register?
  split <;> simp_all

theorem get?_register_self {r s : Registry} {c : Collector} (h : r.register? c = some s) :
    s.get? c.name = some c := by
  unfold register? at h
  split at h
  · simp at h
  · next hc =>
    simp only [Option.some.injEq] at h
    subst h
    have : r.collectors.find? (fun x => x.name == c.name) = none := get?_eq_none_iff.2 hc
    simp [get?, this]

theorem get?_register_of_ne {r s : Registry} {c : Collector} (h : r.register? c = some s)
    {name : Text} (hne : c.name ≠ name) : s.get? name = r.get? name := by
  unfold register? at h
  split at h
  · simp at h
  · simp only [Option.some.injEq] at h
    subst h
    simp [get?, hne]

def takenMessage (name : Text) : Text :=
  "collector already registered: ".toList ++ name

def unknownMessage (name : Text) (known : List Text) : Text :=
  "unknown collector '".toList ++ name ++ "' (known: ".toList ++ Text.join ", ".toList known ++
    [')']

end Registry

end CloneDetection
