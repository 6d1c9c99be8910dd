import SliceSync.Json.Reader
import SliceSync.Json.Magnitude
import SliceSync.NameMap
import SliceSync.Listing
/-!
# Decoding JSON values

A reader of a type is a function `Json → Option α`. Maps take the last value of a repeated key.
Structures are objects with known fields, or arrays of the fields' values in order; a field may come
once, and whether unknown fields are passed over is for the structure to say.
-/

namespace SliceSync.Json

def asString : Json → Option String
  | .text s => s
  | _ => none

/-- Reads a number of 64 bits: digits only. -/
def asUInt64 : Json → Option UInt64
  | .number written =>
    if isDigits written then
      let n := written.foldl (fun n c => n * 10 + (c.toNat - '0'.toNat)) 0
      if n < UInt64.size then some (UInt64.ofNat n) else none
    else none
  | _ => none

def asList {α : Type} (read : Json → Option α) : Json → Option (List α)
  | .array vs => vs.mapM read
  | _ => none

/-- Reads the members of an object, keys being strings. -/
def asPairs {α : Type} (read : Json → Option α) : Json → Option (List (String × α))
  | .object ms => ms.mapM fun m => do return (← m.1, ← read m.2)
  | _ => none

/-- Reads a map sorted by name. -/
def asNameMap {α : Type} (read : Json → Option α) (v : Json) : Option (NameMap α) :=
  (asPairs read v).map NameMap.ofList

/-- Reads a map in order of arrival. -/
def asListing {α : Type} (read : Json → Option α) (v : Json) : Option (Listing String α) :=
  (asPairs read v).map Listing.ofList

def asOption {α : Type} (read : Json → Option α) : Json → Option (Option α)
  | .null => some none
  | v => (read v).map some

/-- The values of a structure's fields, as far as they are given. -/
def fields (names : List String) (passesUnknown : Bool) : Json → Option (List (Option Json))
  | .object ms => do
    let pairs ← ms.mapM fun m => do return (← m.1, m.2)
    if names.any fun n => 1 < pairs.countP (·.1 = n) then none
    else if !passesUnknown && pairs.any fun p => !names.contains p.1 then none
    else some (names.map fun n => (pairs.find? (·.1 = n)).map (·.2))
  | .array vs =>
    if vs.length ≤ names.length then some ((List.range names.length).map fun i => vs[i]?) else none
  | _ => none

def required {α : Type} (read : Json → Option α) (field : Option Json) : Option α := field.bind read

/-- Reads a field with a default. -/
def defaulted {α : Type} (read : Json → Option α) (default : α) : Option Json → Option α
  | none => some default
  | some v => read v

/-! ## Values that are stored before they are read -/

/-- How deep arrays and objects may stand in one another. -/
def maxDepth : Nat := 127

mutual

/-- Whether a value can be stored whole: all its texts are strings, its numbers in range, and it is at
most so deep. -/
def isStorable : (depth : Nat) → Json → Bool
  | _, .null | _, .bool _ => true
  | _, .number written => (Magnitude.of written).isInRange
  | _, .text s => s.isSome
  | 0, .array _ | 0, .object _ => false
  | depth + 1, .array vs => areStorable depth vs
  | depth + 1, .object ms => areMembersStorable depth ms

/-- `isStorable` for all elements. -/
def areStorable (depth : Nat) : List Json → Bool
  | [] => true
  | v :: vs => isStorable depth v && areStorable depth vs

/-- `isStorable` for all members. -/
def areMembersStorable (depth : Nat) : List (Option String × Json) → Bool
  | [] => true
  | (key, v) :: ms => key.isSome && isStorable depth v && areMembersStorable depth ms

end

end SliceSync.Json
