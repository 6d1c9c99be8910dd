import SliceSync.Json.Token
/-!
# Quoted texts in TOML

Texts stand in double quotes with escapes or in single quotes without, on one line or, in three quotes,
on several. Controls other than the tab stand in no text, line ends only in those of several lines.
-/

namespace SliceSync.Toml

/-- Whether a character can stand in a text or a comment: anything but a control, save the tab. -/
def isPlain (c : Char) : Bool := c = '\t' || (0x20 ≤ c.toNat && c.toNat ≠ 0x7F)

/-- What follows a line end, if the text begins with one. -/
def afterLineEnd : List Char → Option (List Char)
  | '\n' :: rest => some rest
  | '\r' :: '\n' :: rest => some rest
  | _ => none

/-- The value of so many hexadecimal digits, and what follows them. -/
def hexNumber (count : Nat) (cs : List Char) : Option (Nat × List Char) :=
  let digits := cs.take count
  if digits.length < count then none
  else
    (digits.mapM Json.hexValue).map fun ds => (ds.foldl (fun n d => n * 16 + d) 0, cs.drop count)

/-- The character of a code point, unless it is half of a surrogate pair or beyond the last. -/
def scalar (n : Nat) : Option Char := if n.isValidChar then some (Char.ofNat n) else none

/-- The character of an escape, read behind its backslash, and what follows. -/
def escape : List Char → Option (Char × List Char)
  | 'b' :: rest => some (Char.ofNat 8, rest)
  | 't' :: rest => some ('\t', rest)
  | 'n' :: rest => some ('\n', rest)
  | 'f' :: rest => some (Char.ofNat 12, rest)
  | 'r' :: rest => some ('\r', rest)
  | 'e' :: rest => some (Char.ofNat 27, rest)
  | '"' :: rest => some ('"', rest)
  | '\\' :: rest => some ('\\', rest)
  | 'x' :: rest => (hexNumber 2 rest).bind fun r => (scalar r.1).map (·, r.2)
  | 'u' :: rest => (hexNumber 4 rest).bind fun r => (scalar r.1).map (·, r.2)
  | 'U' :: rest => (hexNumber 8 rest).bind fun r => (scalar r.1).map (·, r.2)
  | _ => none

/-- Whether blanks alone stand before the next line end: then a backslash before them joins lines. -/
def joinsLines (cs : List Char) : Bool :=
  (afterLineEnd (cs.dropWhile fun c => c = ' ' || c = '\t')).isSome

/-- What follows after all blanks and line ends. A carriage return alone ends no line. -/
def skipBlankLines : List Char → List Char
  | ' ' :: rest => skipBlankLines rest
  | '\t' :: rest => skipBlankLines rest
  | '\n' :: rest => skipBlankLines rest
  | '\r' :: '\n' :: rest => skipBlankLines rest
  | cs => cs

/-- The rest of a text on one line, through its closing quote. Escapes count in double quotes. -/
def lineText (quote : Char) : (fuel : Nat) → List Char → Option (List Char × List Char)
  | 0, _ => none
  | fuel + 1, cs =>
    match cs with
    | [] => none
    | c :: rest =>
      if c = quote then some ([], rest)
      else if c = '\\' && quote = '"' then
        (escape rest).bind fun e => (lineText quote fuel e.2).map fun r => (e.1 :: r.1, r.2)
      else if isPlain c then (lineText quote fuel rest).map fun r => (c :: r.1, r.2)
      else none

/-- The rest of a text of several lines, through its three closing quotes. Up to two quotes may stand
right before those. -/
def blockText (quote : Char) : (fuel : Nat) → List Char → Option (List Char × List Char)
  | 0, _ => none
  | fuel + 1, cs =>
    match cs with
    | [] => none
    | c :: rest =>
      if c = quote then
        let run := cs.takeWhile (· = quote)
        let after := cs.dropWhile (· = quote)
        if run.length < 3 then (blockText quote fuel after).map fun r => (run ++ r.1, r.2)
        else if run.length < 6 then some (run.drop 3, after)
        else none
      else if c = '\\' && quote = '"' then
        if joinsLines rest then blockText quote fuel (skipBlankLines rest)
        else (escape rest).bind fun e => (blockText quote fuel e.2).map fun r => (e.1 :: r.1, r.2)
      else if isPlain c then (blockText quote fuel rest).map fun r => (c :: r.1, r.2)
      else
        match afterLineEnd cs with
        | some after => (blockText quote fuel after).map fun r => ('\n' :: r.1, r.2)
        | none => none

def quotedLine : List Char → Option (List Char × List Char)
  | '"' :: rest => lineText '"' (rest.length + 1) rest
  | '\'' :: rest => lineText '\'' (rest.length + 1) rest
  | _ => none

/-- A text of either form, if one begins here. A line end right behind three opening quotes does not
count. -/
def quoted (cs : List Char) : Option (List Char × List Char) :=
  let block (quote : Char) (rest : List Char) :=
    blockText quote (rest.length + 1) ((afterLineEnd rest).getD rest)
  match cs with
  | '"' :: '"' :: '"' :: rest => block '"' rest
  | '\'' :: '\'' :: '\'' :: rest => block '\'' rest
  | _ => quotedLine cs

end SliceSync.Toml
