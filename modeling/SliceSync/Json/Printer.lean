import SliceSync.Json
/-!
# Writing JSON

Two forms of the same value: `compact` on one line without blanks, and `pretty` with a line for each
element and member, indented by two spaces for each level. Texts escape quotes, backslashes and
controls, and nothing else.
-/

namespace SliceSync.Json

/-- A digit of a code unit. -/
def hexDigit (n : Nat) : Char := Nat.digitChar (n % 16)

/-- How one character stands in a text. -/
def escapeChar (c : Char) : List Char :=
  if c = '"' then ['\\', '"']
  else if c = '\\' then ['\\', '\\']
  else if c.toNat = 8 then ['\\', 'b']
  else if c.toNat = 12 then ['\\', 'f']
  else if c = '\n' then ['\\', 'n']
  else if c = '\r' then ['\\', 'r']
  else if c = '\t' then ['\\', 't']
  else if c.toNat < 0x20 then ['\\', 'u', '0', '0', hexDigit (c.toNat / 16), hexDigit c.toNat]
  else [c]

/-- A text in its quotes. -/
def writeText (s : String) : List Char := '"' :: s.toList.flatMap escapeChar ++ ['"']

mutual

/-- The value on one line without blanks. -/
def compactChars : Json → List Char
  | .null => "null".toList
  | .bool b => (if b then "true" else "false").toList
  | .number written => written
  | .text s => writeText (s.getD "")
  | .array vs => '[' :: compactElements vs ++ [']']
  | .object ms => '\x7b' :: compactMembers ms ++ ['\x7d']

def compactElements : List Json → List Char
  | [] => []
  | [v] => compactChars v
  | v :: vs => compactChars v ++ ',' :: compactElements vs

def compactMembers : List (Option String × Json) → List Char
  | [] => []
  | [(key, v)] => writeText (key.getD "") ++ ':' :: compactChars v
  | (key, v) :: ms => writeText (key.getD "") ++ ':' :: compactChars v ++ ',' :: compactMembers ms

end

/-- A new line at a level. -/
def newLine (level : Nat) : List Char := '\n' :: List.replicate (2 * level) ' '

mutual

/-- The value with its inner lines indented for a level. -/
def prettyChars (level : Nat) : Json → List Char
  | .null => "null".toList
  | .bool b => (if b then "true" else "false").toList
  | .number written => written
  | .text s => writeText (s.getD "")
  | .array [] => ['[', ']']
  | .array (v :: vs) =>
    '[' :: newLine (level + 1) ++ prettyChars (level + 1) v ++ prettyElements (level + 1) vs ++
      newLine level ++ [']']
  | .object [] => ['\x7b', '\x7d']
  | .object ((key, v) :: ms) =>
    '\x7b' :: newLine (level + 1) ++ writeText (key.getD "") ++ ':' :: ' ' :: prettyChars (level + 1) v ++
      prettyMembers (level + 1) ms ++ newLine level ++ ['\x7d']

/-- Further elements, each after a comma on a line of its own. -/
def prettyElements (level : Nat) : List Json → List Char
  | [] => []
  | v :: vs => ',' :: newLine level ++ prettyChars level v ++ prettyElements level vs

def prettyMembers (level : Nat) : List (Option String × Json) → List Char
  | [] => []
  | (key, v) :: ms =>
    ',' :: newLine level ++ writeText (key.getD "") ++ ':' :: ' ' :: prettyChars level v ++
      prettyMembers level ms

end

def compact (v : Json) : String := String.ofList (compactChars v)

/-- The value with a line for each part. -/
def pretty (v : Json) : String := String.ofList (prettyChars 0 v)

end SliceSync.Json
