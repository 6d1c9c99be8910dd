import SliceSync.Slice
/-!
# Active slices

At any time one slice drives the build and one drives the editor. The first slice that drives the build
drives the editor as well, if no slice drove it before.
-/

namespace SliceSync

/-- Whether a slice drives the editor and the build. -/
structure Activity where
  editor : Bool := false
  configuration : Bool := false
  deriving DecidableEq, Repr, Inhabited

/-- The slices that drive the build and the editor. -/
structure ActiveSlices where
  configuration : Option Slice := none
  editor : Option Slice := none
  /-- How often either was set. Whoever follows the slices compares it with the number seen last. -/
  revision : Nat := 0
  deriving DecidableEq, Inhabited

namespace ActiveSlices

/-- Sets the slice that drives the build; it drives the editor as well if no slice does. -/
def setConfiguration (a : ActiveSlices) (slice : Slice) : ActiveSlices where
  configuration := some slice
  editor := a.editor.or (some slice)
  revision := a.revision + 1

def setEditor (a : ActiveSlices) (slice : Slice) : ActiveSlices :=
  { a with editor := some slice, revision := a.revision + 1 }

/-- What a slice drives. -/
def activityOf (a : ActiveSlices) (slice : Slice) : Activity where
  editor := a.editor = some slice
  configuration := a.configuration = some slice

end ActiveSlices

end SliceSync
