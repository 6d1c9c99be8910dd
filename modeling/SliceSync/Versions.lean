import SliceSync.NameMap
/-!
# Versions

Every update carries, for each data source it was derived from, the version of that source. Versions
grow source by source; `merge` keeps the higher of two versions and `covers` compares two maps source
by source. Through `get?`, merging is a maximum (`get?_merge`).
-/

namespace SliceSync

/-- The version recorded for each data source. -/
structure Versions where
  stamps : NameMap UInt64
  deriving DecidableEq, Inhabited

namespace Versions

def empty : Versions := ⟨∅⟩

def get? (v : Versions) (source : String) : Option UInt64 := v.stamps.get? source

/-- The versions with `source` at `version`, whatever was recorded before. -/
def stamp (v : Versions) (source : String) (version : UInt64) : Versions :=
  ⟨v.stamps.insert source version⟩

def size (v : Versions) : Nat := v.stamps.size

/-- Raises a source to `version`, if it stands lower or is new. -/
def raise (v : Versions) (source : String) (version : UInt64) : Versions :=
  match v.get? source with
  | some mine => v.stamp source (max mine version)
  | none => v.stamp source version

/-- The higher version of each source. -/
def merge (v other : Versions) : Versions :=
  other.stamps.toList.foldl (fun v e => v.raise e.1 e.2) v

/-- Whether every source of `other` is recorded here, at its version or above. -/
def covers (v other : Versions) : Bool :=
  other.stamps.toList.all fun e =>
    match v.get? e.1 with
    | some mine => decide (e.2 ≤ mine)
    | none => false

@[simp] theorem get?_stamp (v : Versions) (source other : String) (version : UInt64) :
    (v.stamp source version).get? other = if source = other then some version else v.get? other :=
  NameMap.get?_insert v.stamps source other version

end Versions

end SliceSync
