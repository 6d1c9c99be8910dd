import SliceSync.Slice
import SliceSync.Versions
import SliceSync.Snapshot.Difference
import SliceSync.Arguments.Difference
/-!
# Updates

One slice is fed by two streams: evaluations, which carry the changes of rules and source items, and
builds, which carry the compiler's argument list. Each update is stamped with the versions of the
sources it was derived from.
-/

namespace SliceSync

/-- The configured project an update was made for. -/
structure Project where
  path : String
  slice : Slice := .empty
  capabilities : NameSet := ∅
  deriving DecidableEq, Inhabited

namespace Project

def ownerTag (p : Project) : String := p.path ++ " [" ++ p.slice.display ++ "]"

def hasCapability (p : Project) (capability : String) : Bool := p.capabilities.contains capability

end Project

/-- What an evaluation says about one slice. -/
structure Evaluation where
  project : Project
  rules : NameMap Change := ∅
  /-- The change of each source item type, in evaluation order. -/
  items : Listing String Change := ∅
  deriving DecidableEq, Inhabited

namespace Evaluation

/-- The current value of a property, blank values being none. -/
def property? (e : Evaluation) (rule name : String) : Option String :=
  (e.rules.get? rule).bind fun change => change.after.property? name

end Evaluation

/-- What a design-time build says about one slice. -/
structure Build where
  project : Project
  /-- The argument list its sender saw before. It informs; nothing is applied from it. -/
  previous : List String := []
  /-- The argument list, in its order. A failed build has none. -/
  arguments : List String := []
  deriving DecidableEq, Inhabited

namespace Build

/-- What changed since the list the sender saw before. -/
def change (b : Build) : ArgumentDifference := .between b.previous b.arguments

/-- Whether the list differs from the one the sender saw before, order and repetitions included. -/
def isChanged (b : Build) : Bool := b.previous ≠ b.arguments

/-- Whether the build produced anything. -/
def producedItems (b : Build) : Bool := !b.arguments.isEmpty

end Build

inductive UpdateKind
  | evaluation
  | build
  deriving DecidableEq, Repr

def UpdateKind.name : UpdateKind → String
  | .evaluation => "evaluation"
  | .build => "build"

/-- An evaluation or a build. -/
inductive Payload
  | evaluation (e : Evaluation)
  | build (b : Build)
  deriving DecidableEq

/-- A payload with the versions it was derived from. -/
structure Update where
  versions : Versions
  payload : Payload
  deriving DecidableEq

namespace Update

def kind (u : Update) : UpdateKind :=
  match u.payload with
  | .evaluation _ => .evaluation
  | .build _ => .build

/-- The project the update was made for. -/
def project (u : Update) : Project :=
  match u.payload with
  | .evaluation e => e.project
  | .build b => b.project

end Update

end SliceSync
