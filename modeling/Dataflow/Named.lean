/-!
# Named things

Lists of things with names, in the order in which the names came. What has a name is found with
`List.lookup`.
-/

namespace Dataflow

/-- Things by name. -/
abbrev Named (α : Type) := List (String × α)

namespace Named

variable {α : Type}

/-- Give a name to a thing, in place of the one that has it. -/
def put (name : String) (a : α) : Named α → Named α
  | [] => [(name, a)]
  | (other, old) :: rest =>
    if other = name then (name, a) :: rest else (other, old) :: put name a rest

/-- Afterwards the name leads to the thing, and every other name where it led before. -/
theorem lookup_put (name other : String) (a : α) (things : Named α) :
    (put name a things).lookup other = if other = name then some a else things.lookup other := by
  induction things with
  | nil => simp only [put, List.lookup_cons, List.lookup_nil]; grind
  | cons thing rest ih =>
    obtain ⟨key, old⟩ := thing
    simp only [put]
    split <;> simp only [List.lookup_cons, ih] <;> grind

end Named
end Dataflow
