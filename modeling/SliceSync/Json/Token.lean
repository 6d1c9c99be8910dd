import SliceSync.Json
/-!
# JSON tokens

A JSON text is a sequence of tokens with blanks between them. Texts are read by units: a character, or
the number of an escaped code unit. Two escaped units can be the halves of one character; `joinUnits`
joins them and fails on a half that is alone.
-/

namespace SliceSync.Json

/-- A part of a text. -/
inductive TextUnit
  | char (c : Char)
  /-- An escaped code unit, below 2 to the 16. -/
  | code (n : Nat)
  deriving DecidableEq

inductive Token
  | openBrace
  | closeBrace
  | openBracket
  | closeBracket
  | comma
  | colon
  | null
  | bool (b : Bool)
  | number (written : List Char)
  | text (s : Option String)
  deriving DecidableEq

/-- The blanks between tokens. -/
def isGap (c : Char) : Bool := c = ' ' || c = '\t' || c = '\n' || c = '\r'

/-! ## Texts -/

def hexValue (c : Char) : Option Nat :=
  if '0' ≤ c && c ≤ '9' then some (c.toNat - '0'.toNat)
  else if 'a' ≤ c && c ≤ 'f' then some (c.toNat - 'a'.toNat + 10)
  else if 'A' ≤ c && c ≤ 'F' then some (c.toNat - 'A'.toNat + 10)
  else none

/-- The character that stands behind a backslash. -/
def escaped (c : Char) : Option Char :=
  match c with
  | '"' => some '"'
  | '\\' => some '\\'
  | '/' => some '/'
  | 'b' => some (Char.ofNat 8)
  | 'f' => some (Char.ofNat 12)
  | 'n' => some '\n'
  | 'r' => some '\r'
  | 't' => some '\t'
  | _ => none

/-- The units of a text after its opening quote, up to the closing one, and what follows. Controls
stand in a text only as escapes. -/
def units : List Char → Option (List TextUnit × List Char)
  | [] => none
  | '"' :: rest => some ([], rest)
  | '\\' :: 'u' :: a :: b :: c :: d :: rest =>
    match hexValue a, hexValue b, hexValue c, hexValue d with
    | some a, some b, some c, some d =>
      (units rest).map fun r => (.code (((a * 16 + b) * 16 + c) * 16 + d) :: r.1, r.2)
    | _, _, _, _ => none
  | '\\' :: e :: rest =>
    match escaped e with
    | some c => (units rest).map fun r => (.char c :: r.1, r.2)
    | none => none
  | c :: rest =>
    if c.toNat < 0x20 then none else (units rest).map fun r => (.char c :: r.1, r.2)

/-- Whether a code unit is the first half of a pair. -/
def isHigh (n : Nat) : Bool := 0xD800 ≤ n && n < 0xDC00

/-- Whether a code unit is the second half of a pair. -/
def isLow (n : Nat) : Bool := 0xDC00 ≤ n && n < 0xE000

/-- The characters of a text. A first half must be followed by a second one, both escaped. -/
def joinUnits : List TextUnit → Option (List Char)
  | [] => some []
  | .char c :: rest => (joinUnits rest).map (c :: ·)
  | .code n :: rest =>
    if isHigh n then
      match rest with
      | .code m :: rest =>
        if isLow m then
          (joinUnits rest).map (Char.ofNat (0x10000 + (n - 0xD800) * 0x400 + (m - 0xDC00)) :: ·)
        else none
      | _ => none
    else if isLow n then none
    else (joinUnits rest).map (Char.ofNat n :: ·)

/-! ## Numbers -/

def isNumberChar (c : Char) : Bool := c.isDigit || c = '-' || c = '+' || c = '.' || c = 'e' || c = 'E'

/-- Whether the text is one digit or more. -/
def isDigits (cs : List Char) : Bool := !cs.isEmpty && cs.all Char.isDigit

/-- Whether what follows the mark of an exponent is one: a sign at will, and digits. -/
def isExponent (cs : List Char) : Bool :=
  match cs with
  | '+' :: rest => isDigits rest
  | '-' :: rest => isDigits rest
  | _ => isDigits cs

/-- A number cut into sign, digits before the point, digits behind it and exponent, as far as they
are written. -/
structure NumberParts where
  negative : Bool
  whole : List Char
  fraction : Option (List Char)
  exponent : Option (List Char)

/-- Cuts a number into its parts. -/
def numberParts (written : List Char) : NumberParts :=
  let (negative, body) :=
    match written with
    | '-' :: rest => (true, rest)
    | _ => (false, written)
  let isMark (c : Char) : Bool := c = 'e' || c = 'E'
  let mantissa := body.takeWhile fun c => !isMark c
  let exponent := (body.dropWhile fun c => !isMark c).tail?
  { negative
    whole := mantissa.takeWhile (· ≠ '.')
    fraction := (mantissa.dropWhile (· ≠ '.')).tail?
    exponent }

/-- Whether the text is a number: no leading zeros, digits on both sides of a point. -/
def isNumber (written : List Char) : Bool :=
  let p := numberParts written
  isDigits p.whole && (p.whole.length = 1 || p.whole.head? ≠ some '0') &&
    (match p.fraction with
      | some digits => isDigits digits
      | none => true) &&
    (match p.exponent with
      | some digits => isExponent digits
      | none => true)

/-! ## The sequence of tokens -/

def wordToken (word : List Char) : Option Token :=
  if word = "null".toList then some .null
  else if word = "true".toList then some (.bool true)
  else if word = "false".toList then some (.bool false)
  else none

/-- The token of a single character. -/
def markToken (c : Char) : Option Token :=
  match c with
  | '\x7b' => some .openBrace
  | '\x7d' => some .closeBrace
  | '[' => some .openBracket
  | ']' => some .closeBracket
  | ',' => some .comma
  | ':' => some .colon
  | _ => none

/-- The first token of a text that does not begin with a blank, and what follows. -/
def nextToken (c : Char) (rest : List Char) : Option (Token × List Char) :=
  match markToken c with
  | some t => some (t, rest)
  | none =>
    if c = '"' then (units rest).map fun r => (.text ((joinUnits r.1).map String.ofList), r.2)
    else if c.isDigit || c = '-' then
      let written := c :: rest.takeWhile isNumberChar
      if isNumber written then some (.number written, rest.dropWhile isNumberChar) else none
    else (wordToken (c :: rest.takeWhile Char.isAlpha)).map fun t => (t, rest.dropWhile Char.isAlpha)

/-- The tokens of a text, reading at most so many characters and tokens. -/
def tokens : (fuel : Nat) → List Char → Option (List Token)
  | 0, cs => if cs.isEmpty then some [] else none
  | fuel + 1, cs =>
    match cs with
    | [] => some []
    | c :: rest =>
      if isGap c then tokens fuel rest
      else
        match nextToken c rest with
        | some (t, rest) => (tokens fuel rest).map (t :: ·)
        | none => none

end SliceSync.Json
