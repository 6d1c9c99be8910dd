/-!
# JSON values

The tree of a JSON text. Numbers keep their digits as written, since what they are is for the reader of
a value to say; members keep their order and may repeat a key. A text may hold an escaped half of a
surrogate pair without the other half. It stands for no string then: such a text is `none`, and is
refused where a string is wanted.
-/

namespace SliceSync

inductive Json
  | null
  | bool (b : Bool)
  | number (written : List Char)
  | text (s : Option String)
  | array (elements : List Json)
  | object (members : List (Option String × Json))

namespace Json

def string (s : String) : Json := .text (some s)

def nat (n : Nat) : Json := .number (Nat.toDigits 10 n)

/-- An object with its members in order. -/
def record (members : List (String × Json)) : Json := .object (members.map fun m => (some m.1, m.2))

end Json

end SliceSync
