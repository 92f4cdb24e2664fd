import CloneDetection.Text.Basic

/-!
# Entries by name

A list of entries is read as a table: what stands under a name is the first entry with it.
`setEntry` gives a name another value in its place, and a new name goes to the end, so that none
comes to stand twice.
-/
namespace CloneDetection

variable {α : Type}

/-- The entries with another value under a name, in its place or else at the end. -/
def setEntry (entries : List (Text × α)) (name : Text) (value : α) : List (Text × α) :=
  if (entries.lookup name).isSome then entries.map fun e => if e.1 = name then (name, value) else e
  else entries ++ [(name, value)]

def update (entries others : List (Text × α)) : List (Text × α) :=
  others.foldl (fun entries e => setEntry entries e.1 e.2) entries

end CloneDetection
