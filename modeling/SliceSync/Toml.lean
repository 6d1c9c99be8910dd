/-!
# TOML values

The values a settings file can hold: integers, truth values, texts, arrays and tables. Numbers with a
point, dates and times have no use there; a text that holds one is refused like one that is not
well-formed.

A table remembers how it came to be, since that decides who may add to it: a table written out within
braces is closed, one that a dotted key made grows by dotted keys only, and a header may name a table
once.
-/

namespace SliceSync

/-- How a table came to be. -/
inductive TableOrigin
  /-- Written within braces. -/
  | braces
  /-- Made by the path of a header, not named by one yet. -/
  | path
  /-- Named by a header. -/
  | header
  /-- Made by a dotted key. -/
  | dotted
  deriving DecidableEq, Repr

/-- A value. -/
inductive Toml
  | integer (n : Int)
  | boolean (b : Bool)
  | text (s : String)
  | array (elements : List Toml)
  | table (origin : TableOrigin) (entries : List (String × Toml))

namespace Toml

/-- The entries of a table. -/
abbrev Entries : Type := List (String × Toml)

def lookup (key : String) (entries : Entries) : Option Toml :=
  (entries.find? (·.1 = key)).map (·.2)

/-- The entries with the value of a key replaced, or added at the end. -/
def store (key : String) (v : Toml) : Entries → Entries
  | [] => [(key, v)]
  | e :: rest => if e.1 = key then (key, v) :: rest else e :: store key v rest

/-- Adds the value of a dotted key. It must be new, and the tables on the way must be new or made by
dotted keys. -/
def assign (v : Toml) : (path : List String) → Entries → Option Entries
  | [], _ => none
  | [key], entries =>
    match lookup key entries with
    | none => some (store key v entries)
    | some _ => none
  | key :: rest, entries =>
    match lookup key entries with
    | none => (assign v rest []).map fun inner => store key (.table .dotted inner) entries
    | some (.table .dotted inner) =>
      (assign v rest inner).map fun inner => store key (.table .dotted inner) entries
    | some _ => none

/-- Names a table by a header: it must be new, or made by the path of another header. -/
def declare : (path : List String) → Entries → Option Entries
  | [], _ => none
  | [key], entries =>
    match lookup key entries with
    | none => some (store key (.table .header []) entries)
    | some (.table .path inner) => some (store key (.table .header inner) entries)
    | some _ => none
  | key :: rest, entries =>
    match lookup key entries with
    | none => (declare rest []).map fun inner => store key (.table .path inner) entries
    | some (.table .braces _) => none
    | some (.table origin inner) =>
      (declare rest inner).map fun inner => store key (.table origin inner) entries
    | some _ => none

/-- Adds the value of a dotted key to the table that a header named. -/
def assignIn (v : Toml) (path : List String) : (header : List String) → Entries → Option Entries
  | [], entries => assign v path entries
  | key :: rest, entries =>
    match lookup key entries with
    | some (.table origin inner) =>
      (assignIn v path rest inner).map fun inner => store key (.table origin inner) entries
    | _ => none

end Toml

end SliceSync
