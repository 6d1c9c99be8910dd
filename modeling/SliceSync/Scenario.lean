import SliceSync.Storage
import SliceSync.WellKnown
/-!
# Scenarios

A scenario scripts what the slices of one project receive. Its updates hold whole snapshots and whole
argument lists. What an update changes is computed from the script, as a project system would
do it: each snapshot against the one before of the same rule or item type, each argument list against
the one before (`Script.updates`).
-/

namespace SliceSync

/-- What a scripted update holds. -/
inductive ScriptedPayload
  | evaluation (rules : NameMap Snapshot) (items : NameMap Snapshot)
  | build (arguments : List String)
  deriving DecidableEq

structure ScriptedUpdate where
  version : UInt64
  payload : ScriptedPayload
  deriving DecidableEq

/-- The updates of one slice. -/
structure Script where
  slice : Slice := .empty
  scripted : List ScriptedUpdate := []
  deriving DecidableEq

/-- A project with a script for each of its slices. -/
structure Scenario where
  project : String
  capabilities : List String := []
  /-- The slice that drives the build, if there is one. -/
  active : Option Slice := none
  scripts : List Script
  deriving DecidableEq

/-- What a publisher of updates has told so far. -/
structure Publisher where
  rules : NameMap Snapshot := ∅
  items : NameMap Snapshot := ∅
  arguments : List String := []
  deriving DecidableEq, Inhabited

namespace Publisher

/-- The change from what was told of a name to a snapshot. -/
def changeFrom (told : NameMap Snapshot) (name : String) (after : Snapshot) : Change :=
  { before := (told.get? name).getD .empty, after }

/-- Tells one scripted update: the update for a project, and what has been told then. -/
def tell (t : Publisher) (project : Project) (u : ScriptedUpdate) : Publisher × Update :=
  match u.payload with
  | .evaluation rules items =>
    ({ t with rules := t.rules.insertAll rules.toList, items := t.items.insertAll items.toList },
      { versions := Versions.empty.stamp WellKnown.evaluationSource u.version
        payload :=
          .evaluation
            { project
              rules := rules.mapValues (changeFrom t.rules)
              items := Listing.ofList (items.mapValues (changeFrom t.items)).toList } })
  | .build arguments =>
    ({ t with arguments },
      { versions := Versions.empty.stamp WellKnown.buildSource u.version
        payload := .build { project, previous := t.arguments, arguments } })

/-- Tells all scripted updates in order. -/
def tellAll (t : Publisher) (project : Project) : List ScriptedUpdate → List Update
  | [] => []
  | u :: rest =>
    let told := t.tell project u
    told.2 :: tellAll told.1 project rest

end Publisher

/-- The updates of a script, made for a project. -/
def Script.updates (s : Script) (project : Project) : List Update :=
  Publisher.tellAll {} project s.scripted

namespace Scenario

def slices (s : Scenario) : List Slice := s.scripts.map (·.slice)

/-- The project as configured for a slice. -/
def configured (s : Scenario) (slice : Slice) : Project :=
  { path := s.project, slice, capabilities := NameSet.ofNames s.capabilities }

end Scenario

end SliceSync
