import SliceSync.Json.Token
/-!
# Reading JSON

`Json.parse?` reads a whole text as one value: nothing may stand before or after it but blanks.
-/

namespace SliceSync.Json

mutual

/-- Reads one value off the tokens. -/
def value : (fuel : Nat) → List Token → Option (Json × List Token)
  | 0, _ => none
  | fuel + 1, ts =>
    match ts with
    | .null :: rest => some (.null, rest)
    | .bool b :: rest => some (.bool b, rest)
    | .number written :: rest => some (.number written, rest)
    | .text s :: rest => some (.text s, rest)
    | .openBracket :: .closeBracket :: rest => some (.array [], rest)
    | .openBracket :: rest => (elements fuel rest).map fun r => (.array r.1, r.2)
    | .openBrace :: .closeBrace :: rest => some (.object [], rest)
    | .openBrace :: rest => (members fuel rest).map fun r => (.object r.1, r.2)
    | _ => none

/-- Reads the elements of an array through the closing bracket. -/
def elements : (fuel : Nat) → List Token → Option (List Json × List Token)
  | 0, _ => none
  | fuel + 1, ts =>
    match value fuel ts with
    | some (v, .comma :: rest) => (elements fuel rest).map fun r => (v :: r.1, r.2)
    | some (v, .closeBracket :: rest) => some ([v], rest)
    | _ => none

/-- Reads the members of an object through the closing brace. -/
def members : (fuel : Nat) → List Token → Option (List (Option String × Json) × List Token)
  | 0, _ => none
  | fuel + 1, ts =>
    match ts with
    | .text key :: .colon :: rest =>
      match value fuel rest with
      | some (v, .comma :: rest) => (members fuel rest).map fun r => ((key, v) :: r.1, r.2)
      | some (v, .closeBrace :: rest) => some ([(key, v)], rest)
      | _ => none
    | _ => none

end

def parse? (s : String) : Option Json :=
  let cs := s.toList
  match tokens cs.length cs with
  | none => none
  | some ts =>
    match value (2 * ts.length + 1) ts with
    | some (v, []) => some v
    | _ => none

end SliceSync.Json
