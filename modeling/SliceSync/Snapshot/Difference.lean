import SliceSync.Snapshot
/-!
# What differs between two snapshots

Items are compared by name and then by metadata, properties by value. Added and changed items stand in
the order of the newer snapshot, removed ones in that of the older, properties in order of name.
-/

namespace SliceSync

/-- The names whose entries differ between two snapshots. -/
structure Difference where
  addedItems : List String
  removedItems : List String
  changedItems : List String
  changedProperties : List String
  deriving DecidableEq, Repr, Inhabited

namespace Difference

/-- What differs from `before` to `after`. -/
def between (before after : Snapshot) : Difference where
  addedItems := after.items.keys.filter fun k => !before.items.contains k
  removedItems := before.items.keys.filter fun k => !after.items.contains k
  changedItems := (after.items.toList.filter fun e =>
    match before.items.get? e.1 with
    | some old => old ≠ e.2
    | none => false).map (·.1)
  changedProperties :=
    (NameSet.ofNames (before.properties.names ++ after.properties.names)).names.filter fun name =>
      before.properties.get? name ≠ after.properties.get? name

def isEmpty (d : Difference) : Bool :=
  d.addedItems.isEmpty && d.removedItems.isEmpty && d.changedItems.isEmpty && d.changedProperties.isEmpty

def changesProperty (d : Difference) (name : String) : Bool := d.changedProperties.contains name

end Difference

/-- The snapshots of one rule before and after. -/
structure Change where
  before : Snapshot := .empty
  after : Snapshot
  deriving DecidableEq, Inhabited

namespace Change

def difference (c : Change) : Difference := .between c.before c.after

def hasChanges (c : Change) : Bool := !c.difference.isEmpty

/-- The same arrival seen from `base`, the snapshot last applied. What the sender saw before does
not matter, so an update that comes again or after a lost one still differs from what is held. -/
def rebase (c : Change) (base : Snapshot) : Change := { before := base, after := c.after }

end Change

end SliceSync
