import SliceSync.Text.Blank
import SliceSync.Text.Divide
/-!
# Compiler arguments

A design-time build yields the compiler's argument list. Some arguments name files: a source file on
its own, or a switch with a list of metadata references, analyzers or additional files. `Inputs` are
the files named, list by list, in the order of the arguments; all other arguments contribute nothing.
The reading goes argument by argument, so the inputs of a concatenation are the concatenation of the
inputs: `ofArguments_append`.
-/

namespace SliceSync

/-- A switch whose value lists files. -/
inductive FileSwitch
  | reference
  | analyzer
  | additionalFile
  deriving DecidableEq, Repr

/-- What one argument says. -/
inductive Argument
  /-- A switch with the text of its list. -/
  | files (switch : FileSwitch) (value : List Char)
  | source (path : List Char)
  | other
  deriving DecidableEq, Repr

namespace Argument

/-- The switches by name, in lower case. -/
def switchNamed (name : List Char) : Option FileSwitch :=
  if name = ['r'] || name = "reference".toList then some .reference
  else if name = ['a'] || name = "analyzer".toList then some .analyzer
  else if name = "additionalfile".toList then some .additionalFile
  else none

/-- What follows the mark of a switch: an opening `/` or `-`. -/
def afterMark : List Char → Option (List Char)
  | '/' :: body => some body
  | '-' :: body => some body
  | _ => none

/-- Reads an argument without surrounding blanks. Without a mark it is a source path. A marked one
with a colon is a switch, known by its name in any letter case; a marked one without a colon is a
source path after all if it begins with `/` and has a further `/` or a dot. -/
def read (arg : List Char) : Argument :=
  match afterMark arg with
  | none => .source arg
  | some body =>
    match Text.cutAt ':' body with
    | some (name, value) =>
      match switchNamed (name.map Char.toLower) with
      | some switch => .files switch value
      | none => .other
    | none =>
      if arg.head? = some '/' && (body.contains '/' || body.contains '.') then .source arg else .other

/-- The text between double quotes, if it stands between them; else the text itself. -/
def unquote (value : List Char) : List Char :=
  match value with
  | '"' :: rest => if rest.getLast? = some '"' then rest.dropLast else value
  | _ => value

/-- The values of a list: divided by `,` or `;`, without blanks and quotes around each; empty ones
do not count. -/
def listed (value : List Char) : List (List Char) :=
  ((Text.divide (fun c => c = ',' || c = ';') value).map fun v => unquote (Text.trimChars v)).filter
    fun v => !v.isEmpty

/-- The path of a reference. `alias=path` names one by an alias, which has no slashes. -/
def dropAlias (value : List Char) : List Char :=
  match Text.cutAt '=' value with
  | some (name, path) =>
    if name.contains '/' || name.contains '\\' || path.isEmpty then value else path
  | none => value

end Argument

/-- The files that an argument list names. -/
structure Inputs where
  sources : List String := []
  metadataReferences : List String := []
  analyzerReferences : List String := []
  additionalFiles : List String := []
  deriving DecidableEq, Repr, Inhabited

namespace Inputs

def append (a b : Inputs) : Inputs where
  sources := a.sources ++ b.sources
  metadataReferences := a.metadataReferences ++ b.metadataReferences
  analyzerReferences := a.analyzerReferences ++ b.analyzerReferences
  additionalFiles := a.additionalFiles ++ b.additionalFiles

/-- The files one argument names. -/
def ofArgument (arg : String) : Inputs :=
  let trimmed := Text.trimChars arg.toList
  if trimmed.isEmpty then {}
  else
    match Argument.read trimmed with
    | .files .reference value =>
      { metadataReferences := (Argument.listed value).map fun v => String.ofList (Argument.dropAlias v) }
    | .files .analyzer value => { analyzerReferences := (Argument.listed value).map String.ofList }
    | .files .additionalFile value => { additionalFiles := (Argument.listed value).map String.ofList }
    | .source path => { sources := [String.ofList (Argument.unquote path)] }
    | .other => {}

def ofArguments (args : List String) : Inputs := args.foldr (fun arg rest => (ofArgument arg).append rest) {}

def isEmpty (i : Inputs) : Bool :=
  i.sources.isEmpty && i.metadataReferences.isEmpty && i.analyzerReferences.isEmpty &&
    i.additionalFiles.isEmpty

theorem append_assoc (a b c : Inputs) : (a.append b).append c = a.append (b.append c) := by
  simp [append]

@[simp] theorem empty_append (a : Inputs) : append {} a = a := by simp [append]

@[simp] theorem append_empty (a : Inputs) : a.append {} = a := by simp [append]

theorem ofArguments_append (l m : List String) :
    ofArguments (l ++ m) = (ofArguments l).append (ofArguments m) := by
  induction l with
  | nil => simp [ofArguments]
  | cons arg l ih => simpa [ofArguments, append_assoc] using congrArg (ofArgument arg).append ih

end Inputs

end SliceSync
