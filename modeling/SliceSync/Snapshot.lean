import SliceSync.NameMap
import SliceSync.Listing
import SliceSync.Text.Blank
/-!
# Snapshots of a rule

What project evaluation says of one rule at one time: properties by name, and items with their
metadata in evaluation order. A `Change` is two snapshots of a rule; its `Difference` is computed
from them (`Snapshot.Difference`).
-/

namespace SliceSync

/-- The metadata of an item, by name. -/
abbrev Metadata : Type := NameMap String

/-- Properties and items of one rule at one time. -/
structure Snapshot where
  properties : NameMap String := ∅
  items : Listing String Metadata := ∅
  deriving DecidableEq, Inhabited

namespace Snapshot

def empty : Snapshot := {}

def setProperty (s : Snapshot) (name value : String) : Snapshot :=
  { s with properties := s.properties.insert name value }

/-- Adds an item without metadata; an item of that name keeps its place and loses its metadata. -/
def setItem (s : Snapshot) (name : String) : Snapshot := { s with items := s.items.insert name ∅ }

/-- Sets one metadatum of an item, which is added if it is new. -/
def setMetadata (s : Snapshot) (item key value : String) : Snapshot :=
  { s with items := s.items.insert item (((s.items.get? item).getD ∅).insert key value) }

/-- The value of a property without surrounding blanks; a blank value counts as none. -/
def property? (s : Snapshot) (name : String) : Option String :=
  ((s.properties.get? name).map Text.trim).filter fun v => !v.isEmpty

end Snapshot

end SliceSync
