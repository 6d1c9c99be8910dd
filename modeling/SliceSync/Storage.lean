import SliceSync.Json.Decode
import SliceSync.Update
/-!
# Storage

How slices, versions, projects and snapshots are kept as JSON. Slices and versions are plain objects; a
project is a record of `path`, `slice` and `capabilities`, a snapshot one of `properties` and `items`.
Fields that a project or snapshot does not know are passed over, and all but the path may be missing.
-/

namespace SliceSync

/-- A map sorted by name, as an object. -/
def NameMap.toJson {α : Type} (write : α → Json) (m : NameMap α) : Json :=
  .record (m.toList.map fun e => (e.1, write e.2))

/-- A list of texts. -/
def Json.strings (texts : List String) : Json := .array (texts.map Json.string)

namespace Slice

/-- The slice as an object of its dimensions. -/
def toJson (s : Slice) : Json := s.dimensions.toJson Json.string

def ofJson? (v : Json) : Option Slice := (v.asNameMap Json.asString).map Slice.mk

end Slice

namespace Versions

/-- The versions as an object of numbers. -/
def toJson (v : Versions) : Json := v.stamps.toJson fun version => Json.nat version.toNat

def ofJson? (v : Json) : Option Versions := (v.asNameMap Json.asUInt64).map Versions.mk

end Versions

namespace Project

def toJson (p : Project) : Json :=
  .record
    [("path", .string p.path), ("slice", p.slice.toJson), ("capabilities", .strings p.capabilities.names)]

def ofJson? (v : Json) : Option Project := do
  match ← v.fields ["path", "slice", "capabilities"] true with
  | [path, slice, capabilities] =>
    let path ← Json.required Json.asString path
    let slice ← Json.defaulted Slice.ofJson? .empty slice
    let capabilities ← Json.defaulted (Json.asList Json.asString) [] capabilities
    return { path, slice, capabilities := NameSet.ofNames capabilities }
  | _ => none

end Project

namespace Snapshot

/-- The snapshot as a record; items keep their order. -/
def toJson (s : Snapshot) : Json :=
  .record
    [("properties", s.properties.toJson Json.string),
      ("items", .record (s.items.toList.map fun i => (i.1, i.2.toJson Json.string)))]

def ofJson? (v : Json) : Option Snapshot := do
  match ← v.fields ["properties", "items"] true with
  | [properties, items] =>
    let properties ← Json.defaulted (Json.asNameMap Json.asString) ∅ properties
    let items ← Json.defaulted (Json.asListing (Json.asNameMap Json.asString)) ∅ items
    return { properties, items }
  | _ => none

end Snapshot

end SliceSync
