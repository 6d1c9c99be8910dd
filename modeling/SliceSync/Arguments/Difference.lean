import SliceSync.Arguments
/-!
# What changed between two argument lists

The arguments that came and those that went, each named once, in the order of the list they stand in.
Membership is exact: `mem_added_iff`, `mem_removed_iff`.
-/

namespace SliceSync

/-- The arguments added and removed from one list to the next. -/
structure ArgumentDifference where
  added : List String
  removed : List String
  deriving DecidableEq, Repr, Inhabited

/-- The arguments of `l` that `m` lacks, each once, in the order of `l`. -/
def onlyIn (l m : List String) : List String := (l.filter fun a => !m.contains a).eraseDups

namespace ArgumentDifference

/-- What changed from `previous` to `current`. -/
def between (previous current : List String) : ArgumentDifference where
  added := onlyIn current previous
  removed := onlyIn previous current

def isEmpty (d : ArgumentDifference) : Bool := d.added.isEmpty && d.removed.isEmpty

def addedInputs (d : ArgumentDifference) : Inputs := .ofArguments d.added

def removedInputs (d : ArgumentDifference) : Inputs := .ofArguments d.removed

end ArgumentDifference

theorem mem_onlyIn {l m : List String} {a : String} : a ∈ onlyIn l m ↔ a ∈ l ∧ a ∉ m := by
  simp [onlyIn]

namespace ArgumentDifference

theorem mem_added_iff {previous current : List String} {a : String} :
    a ∈ (between previous current).added ↔ a ∈ current ∧ a ∉ previous := mem_onlyIn

theorem mem_removed_iff {previous current : List String} {a : String} :
    a ∈ (between previous current).removed ↔ a ∈ previous ∧ a ∉ current := mem_onlyIn

end ArgumentDifference

end SliceSync
