import SliceSync.Scenario
import SliceSync.Json.Reader
/-!
# Reading scenarios

A scenario is kept as JSON: a record of `project`, `capabilities`, `active` and `slices`, each slice a
record of `dimensions` and `updates`. Neither takes fields it does not know. An update has a tag,
`kind`, which says what its fields are; it is stored whole until the tag is known, and it passes over
fields it does not know.
-/

namespace SliceSync

/-- Why a scenario cannot be had. -/
inductive ScenarioError
  /-- The file cannot be read. -/
  | unreadable (path : String)
  /-- The file does not hold a scenario. -/
  | malformed (path : String)
  deriving DecidableEq, Repr

def ScenarioError.message : ScenarioError → String
  | unreadable path => "reading scenario " ++ path
  | malformed path => "parsing scenario " ++ path

namespace UpdateKind

def ofName? (name : String) : Option UpdateKind :=
  if name = evaluation.name then some evaluation
  else if name = build.name then some build
  else none

end UpdateKind

namespace ScriptedUpdate

/-- The names of the fields that follow the tag. -/
def fieldNames : UpdateKind → List String
  | .evaluation => ["version", "rules", "items"]
  | .build => ["version", "arguments"]

/-- The tag of an update, and the update without it: the one member `kind` of an object, the first
element of an array. -/
def untag? : Json → Option (UpdateKind × Json)
  | .object ms =>
    match ms.filter fun m => m.1 = some "kind" with
    | [(_, v)] => do
      let kind ← UpdateKind.ofName? (← v.asString)
      return (kind, .object (ms.filter fun m => m.1 ≠ some "kind"))
    | _ => none
  | .array (v :: vs) => do return (← UpdateKind.ofName? (← v.asString), .array vs)
  | _ => none

/-- Reads snapshots by name. -/
def snapshots? (field : Option Json) : Option (NameMap Snapshot) :=
  Json.defaulted (Json.asNameMap Snapshot.ofJson?) ∅ field

/-- Reads an update that stands so many levels deep. -/
def ofJson? (depth : Nat) (v : Json) : Option ScriptedUpdate :=
  if !v.isStorable (Json.maxDepth - depth) then none
  else do
    let (kind, v) ← untag? v
    match kind, ← v.fields (fieldNames kind) true with
    | .evaluation, [version, rules, items] =>
      return {
        version := ← Json.required Json.asUInt64 version
        payload := .evaluation (← snapshots? rules) (← snapshots? items) }
    | .build, [version, arguments] =>
      return {
        version := ← Json.required Json.asUInt64 version
        payload := .build (← Json.defaulted (Json.asList Json.asString) [] arguments) }
    | _, _ => none

end ScriptedUpdate

namespace Script

/-- How deep the updates of a scenario stand in it. -/
def updateDepth : Nat := 4

def ofJson? (v : Json) : Option Script := do
  match ← v.fields ["dimensions", "updates"] false with
  | [dimensions, updates] =>
    return {
      slice := ← Json.defaulted Slice.ofJson? .empty dimensions
      scripted := ← Json.defaulted (Json.asList (ScriptedUpdate.ofJson? updateDepth)) [] updates }
  | _ => none

end Script

namespace Scenario

def ofJson? (v : Json) : Option Scenario := do
  match ← v.fields ["project", "capabilities", "active", "slices"] false with
  | [project, capabilities, active, slices] =>
    return {
      project := ← Json.required Json.asString project
      capabilities := ← Json.defaulted (Json.asList Json.asString) [] capabilities
      active := ← Json.defaulted (Json.asOption Slice.ofJson?) none active
      scripts := ← Json.required (Json.asList Script.ofJson?) slices }
  | _ => none

def parse? (text : String) : Option Scenario := (Json.parse? text).bind ofJson?

/-- Reads the scenario file at a path, given the text it holds, if there is one. -/
def load (path : String) (text : Option String) : Except ScenarioError Scenario :=
  match text with
  | none => .error (.unreadable path)
  | some text =>
    match parse? text with
    | some s => .ok s
    | none => .error (.malformed path)

end Scenario

end SliceSync
