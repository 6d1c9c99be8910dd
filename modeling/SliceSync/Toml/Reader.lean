import SliceSync.Toml
import SliceSync.Toml.Text
/-!
# Reading TOML

A document is a sequence of lines: an assignment `key = value` to the table named last, a header that
names a table, or nothing; a comment may end each. `Toml.parse?` reads a whole document.
-/

namespace SliceSync.Toml

/-! ## Gaps -/

/-- What follows the blanks of a line. -/
def skipBlanks (cs : List Char) : List Char := cs.dropWhile fun c => c = ' ' || c = '\t'

/-- What follows a comment, if one stands here: the line end, or nothing. -/
def skipComment : List Char → List Char
  | '#' :: rest => rest.dropWhile isPlain
  | cs => cs

/-- What follows blanks, comments and line ends between the parts of a value. -/
def skipGap : (fuel : Nat) → List Char → List Char
  | 0, cs => cs
  | fuel + 1, cs =>
    let cs := skipComment (skipBlanks cs)
    match afterLineEnd cs with
    | some rest => skipGap fuel rest
    | none => cs

/-! ## Numbers and truth values -/

/-- The digits of a number whose underscores each stand between two digits. -/
def plainDigits (isDigit : Char → Bool) : List Char → Option (List Char)
  | [] => none
  | [d] => if isDigit d then some [d] else none
  | d :: '_' :: rest => if isDigit d then (plainDigits isDigit rest).map (d :: ·) else none
  | d :: rest => if isDigit d then (plainDigits isDigit rest).map (d :: ·) else none

/-- The value of digits to a base. -/
def digitsValue (base : Nat) (digits : List Char) : Nat :=
  digits.foldl (fun n c => n * base + (Json.hexValue c).getD 0) 0

/-- A number to a base whose digits are below it. -/
def based (base : Nat) (digits : List Char) : Option Int :=
  (plainDigits (fun c => (Json.hexValue c).any (· < base)) digits).map fun ds => (digitsValue base ds : Int)

/-- A decimal number without a leading zero. -/
def decimal (digits : List Char) : Option Int :=
  match plainDigits Char.isDigit digits with
  | some ds => if 1 < ds.length && ds.head? = some '0' then none else some (digitsValue 10 ds)
  | none => none

/-- An integer: decimal with a sign at will, or to base 16, 8 or 2 without. -/
def integerOf : List Char → Option Int
  | '0' :: 'x' :: digits => based 16 digits
  | '0' :: 'o' :: digits => based 8 digits
  | '0' :: 'b' :: digits => based 2 digits
  | '+' :: digits => decimal digits
  | '-' :: digits => (decimal digits).map (-·)
  | digits => decimal digits

/-- The value of a word that is not quoted. -/
def wordValue (word : List Char) : Option Toml :=
  if word = "true".toList then some (.boolean true)
  else if word = "false".toList then some (.boolean false)
  else (integerOf word).map .integer

def isWordChar (c : Char) : Bool := c.isAlphanum || c = '_' || c = '-' || c = '+' || c = '.' || c = ':'

/-! ## Keys -/

/-- Whether a character can stand in a key without quotes. -/
def isKeyChar (c : Char) : Bool := c.isAlphanum || c = '_' || c = '-'

def keyPart (cs : List Char) : Option (String × List Char) :=
  match quotedLine cs with
  | some r => some (String.ofList r.1, r.2)
  | none =>
    let name := cs.takeWhile isKeyChar
    if name.isEmpty then none else some (String.ofList name, cs.dropWhile isKeyChar)

/-- A key of parts divided by dots; blanks may stand around each. -/
def key : (fuel : Nat) → List Char → Option (List String × List Char)
  | 0, _ => none
  | fuel + 1, cs =>
    match keyPart (skipBlanks cs) with
    | none => none
    | some (part, rest) =>
      match skipBlanks rest with
      | '.' :: rest => (key fuel rest).map fun r => (part :: r.1, r.2)
      | rest => some ([part], rest)

/-! ## Values -/

mutual

def value : (fuel : Nat) → List Char → Option (Toml × List Char)
  | 0, _ => none
  | fuel + 1, cs =>
    match cs with
    | '[' :: rest => (elements fuel rest).map fun r => (.array r.1, r.2)
    | '\x7b' :: rest => (inner fuel [] rest).map fun r => (.table .braces r.1, r.2)
    | _ =>
      match quoted cs with
      | some r => some (.text (String.ofList r.1), r.2)
      | none => (wordValue (cs.takeWhile isWordChar)).map fun v => (v, cs.dropWhile isWordChar)

def elements : (fuel : Nat) → List Char → Option (List Toml × List Char)
  | 0, _ => none
  | fuel + 1, cs =>
    match skipGap cs.length cs with
    | ']' :: rest => some ([], rest)
    | cs =>
      match value fuel cs with
      | none => none
      | some (v, rest) =>
        match skipGap rest.length rest with
        | ',' :: rest => (elements fuel rest).map fun r => (v :: r.1, r.2)
        | ']' :: rest => some ([v], rest)
        | _ => none

/-- Reads the assignments of a table through its closing brace. Between braces a gap may stand around
each `=` and each comma, though not around the dots of a key. -/
def inner : (fuel : Nat) → Entries → List Char → Option (Entries × List Char)
  | 0, _, _ => none
  | fuel + 1, entries, cs =>
    match skipGap cs.length cs with
    | '\x7d' :: rest => some (entries, rest)
    | cs =>
      match key cs.length cs with
      | none => none
      | some (path, rest) =>
        match skipGap rest.length rest with
        | '=' :: rest =>
          match value fuel (skipGap rest.length rest) with
          | none => none
          | some (v, rest) =>
            match assign v path entries with
            | none => none
            | some entries =>
              match skipGap rest.length rest with
              | ',' :: rest => inner fuel entries rest
              | '\x7d' :: rest => some (entries, rest)
              | _ => none
        | _ => none

end

/-! ## Documents -/

/-- A document as far as it is read. -/
structure Reading where
  entries : Entries := []
  /-- The table named last; the document itself at first. -/
  header : List String := []

/-- Reads what stands on a line before the comment. -/
def line (r : Reading) (cs : List Char) : Option (Reading × List Char) :=
  match cs with
  | '[' :: rest =>
    match key rest.length rest with
    | some (path, ']' :: rest) =>
      (declare path r.entries).map fun entries => ({ entries, header := path }, rest)
    | _ => none
  | _ =>
    match key cs.length cs with
    | some (path, '=' :: rest) =>
      match value rest.length (skipBlanks rest) with
      | some (v, rest) =>
        (assignIn v path r.header r.entries).map fun entries => ({ r with entries }, rest)
      | none => none
    | _ => none

def isIdle (cs : List Char) : Bool :=
  match cs with
  | [] => true
  | c :: _ => c = '#' || c = '\n' || c = '\r'

/-- Reads the lines of a document. -/
def lines : (fuel : Nat) → Reading → List Char → Option Entries
  | 0, _, _ => none
  | fuel + 1, r, cs =>
    let cs := skipBlanks cs
    match if isIdle cs then some (r, cs) else line r cs with
    | none => none
    | some (r, rest) =>
      match skipComment (skipBlanks rest) with
      | [] => some r.entries
      | rest =>
        match afterLineEnd rest with
        | some rest => lines fuel r rest
        | none => none

/-- Reads a document. A byte order mark in front does not count. -/
def parse? (s : String) : Option Entries :=
  let cs :=
    match s.toList with
    | c :: rest => if c.toNat = 0xFEFF then rest else c :: rest
    | [] => []
  lines (cs.length + 1) {} cs

end SliceSync.Toml
