import SliceSync.Replay
import SliceSync.Scenario.Reader
import SliceSync.Settings.Reader
import SliceSync.Json.Printer
/-!
# The command line

The arguments `SCENARIO [-c PATH] [--log FILTER] [-v] [--compact]` replay a scenario and print the
report. Arguments are read from left to right and the first fault or question counts: asking for help
or for the version ends the reading, as a fault does. The settings file is read before the scenario.
-/

namespace SliceSync.CommandLine

/-- The switches. -/
inductive Switch
  | settings
  | log
  | verbose
  | compact
  | help
  | version
  deriving DecidableEq, Repr

namespace Switch

def ofName? (name : String) : Option Switch :=
  match name with
  | "config" => some settings
  | "log" => some log
  | "verbose" => some verbose
  | "compact" => some compact
  | "help" => some help
  | "version" => some version
  | _ => none

def ofLetter? (letter : Char) : Option Switch :=
  match letter with
  | 'c' => some settings
  | 'v' => some verbose
  | 'h' => some help
  | 'V' => some version
  | _ => none

def takesValue : Switch → Bool
  | settings | log => true
  | _ => false

end Switch

/-- What an invocation asks for. -/
structure Invocation where
  scenario : String
  settings : Option String := none
  /-- Whether the report is printed on one line. -/
  compact : Bool := false
  deriving DecidableEq, Repr

/-- What is wrong with the arguments. -/
inductive UsageFault
  | unknownSwitch (written : String)
  | repeated (switch : Switch)
  | missingValue (switch : Switch)
  /-- A path is the empty text. -/
  | emptyPath
  | unwantedValue (switch : Switch)
  /-- A second scenario is given. -/
  | surplus (arg : String)
  | missingScenario
  deriving DecidableEq, Repr

/-- Why reading the arguments ends early. -/
inductive Stop
  | fault (fault : UsageFault)
  | help
  | version
  deriving DecidableEq, Repr

structure Found where
  scenario : Option String := none
  settings : Option String := none
  log : Option String := none
  verbose : Bool := false
  compact : Bool := false
  deriving DecidableEq, Repr

namespace Found

def flag (f : Found) : Switch → Except Stop Found
  | .help => .error .help
  | .version => .error .version
  | .verbose => if f.verbose then .error (.fault (.repeated .verbose)) else .ok { f with verbose := true }
  | .compact => if f.compact then .error (.fault (.repeated .compact)) else .ok { f with compact := true }
  | switch => .error (.fault (.missingValue switch))

def value (f : Found) (switch : Switch) (v : String) : Except Stop Found :=
  match switch with
  | .settings =>
    if v.isEmpty then .error (.fault .emptyPath)
    else if f.settings.isSome then .error (.fault (.repeated .settings))
    else .ok { f with settings := some v }
  | .log =>
    if f.log.isSome then .error (.fault (.repeated .log)) else .ok { f with log := some v }
  | switch => .error (.fault (.unwantedValue switch))

/-- Takes in an argument that belongs to no switch. -/
def positional (f : Found) (arg : String) : Except Stop Found :=
  if f.scenario.isSome then .error (.fault (.surplus arg))
  else if arg.isEmpty then .error (.fault .emptyPath)
  else .ok { f with scenario := some arg }

end Found

/-- What follows an argument: the next one is read on its own, or is the value of a switch. -/
inductive Pending
  | nothing
  | value (switch : Switch)
  deriving DecidableEq, Repr

/-- Reads the letters after a single dash. What follows a letter that takes a value is its value, after
`=` or right away; without any the value is the next argument. -/
def readLetters (f : Found) : List Char → Except Stop (Found × Pending)
  | [] => .ok (f, .nothing)
  | c :: rest =>
    match Switch.ofLetter? c with
    | none => .error (.fault (.unknownSwitch (String.ofList ['-', c])))
    | some switch =>
      if switch.takesValue then
        match rest with
        | [] => .ok (f, .value switch)
        | '=' :: v => (f.value switch (String.ofList v)).map (·, .nothing)
        | v => (f.value switch (String.ofList v)).map (·, .nothing)
      else (f.flag switch).bind fun f => readLetters f rest

def readLong (f : Found) (body : List Char) : Except Stop (Found × Pending) :=
  let (name, v) :=
    match Text.cutAt '=' body with
    | some (name, v) => (name, some v)
    | none => (body, none)
  match Switch.ofName? (String.ofList name) with
  | none => .error (.fault (.unknownSwitch (String.ofList ('-' :: '-' :: name))))
  | some switch =>
    match v with
    | some v => (f.value switch (String.ofList v)).map (·, .nothing)
    | none =>
      if switch.takesValue then .ok (f, .value switch) else (f.flag switch).map (·, .nothing)

/-- Reads all arguments. After `--` no argument is a switch. An argument with a dash in front, save for
the dash alone, is not taken as a value. -/
def readAll (f : Found) (pending : Pending) (literal : Bool) : List String → Except Stop Found
  | [] =>
    match pending with
    | .nothing => .ok f
    | .value switch => .error (.fault (.missingValue switch))
  | arg :: rest =>
    if literal then (f.positional arg).bind fun f => readAll f .nothing true rest
    else
      match pending, arg.toList with
      | .value switch, '-' :: _ :: _ => .error (.fault (.missingValue switch))
      | .value switch, _ => (f.value switch arg).bind fun f => readAll f .nothing false rest
      | .nothing, ['-', '-'] => readAll f .nothing true rest
      | .nothing, '-' :: '-' :: body => (readLong f body).bind fun r => readAll r.1 r.2 false rest
      | .nothing, '-' :: c :: body => (readLetters f (c :: body)).bind fun r => readAll r.1 r.2 false rest
      | .nothing, _ => (f.positional arg).bind fun f => readAll f .nothing false rest

def read (args : List String) : Except Stop Invocation :=
  (readAll {} .nothing false args).bind fun f =>
    match f.scenario with
    | some scenario => .ok { scenario, settings := f.settings, compact := f.compact }
    | none => .error (.fault .missingScenario)

def versionText : String := "tether-replay 0.10.0\n"

def helpText : String :=
  String.intercalate "\n"
    ["Replay evaluation and build updates through the workspace synchronizer",
      "",
      "Usage: tether-replay [OPTIONS] <SCENARIO>",
      "",
      "Arguments:",
      "  <SCENARIO>  Scenario file (JSON)",
      "",
      "Options:",
      "  -c, --config <PATH>  Synchronizer options file (TOML)",
      "      --log <FILTER>   Log filter, overrides RUST_LOG (e.g. `tether_sync=trace`)",
      "  -v, --verbose        Verbose logging",
      "      --compact        Print the report on one line",
      "  -h, --help           Print help",
      "  -V, --version        Print version",
      ""]

/-- How an invocation ends. -/
inductive Ending
  | printed (text : String)
  | failed (message : String)
  | misused (fault : UsageFault)
  deriving DecidableEq, Repr

namespace Ending

def code : Ending → Nat
  | printed _ => 0
  | failed _ => 1
  | misused _ => 2

def output : Ending → String
  | printed text => text
  | failed _ | misused _ => ""

def message? : Ending → Option String
  | failed message => some message
  | printed _ | misused _ => none

end Ending

namespace Invocation

def files (i : Invocation) : List String := i.settings.toList ++ [i.scenario]

/-- The settings the invocation asks for. -/
def loadSettings (i : Invocation) (textOf : String → Option String) : Except String Settings :=
  match i.settings with
  | none => .ok {}
  | some path =>
    match Settings.load path (textOf path) with
    | .ok settings => .ok settings
    | .error _ => .error ("loading options from " ++ path)

/-- Replays the scenario and prints the report, given the text of each file that can be read. -/
def perform (i : Invocation) (textOf : String → Option String) : Ending :=
  match i.loadSettings textOf with
  | .error message => .failed message
  | .ok settings =>
    match Scenario.load i.scenario (textOf i.scenario) with
    | .error error => .failed error.message
    | .ok scenario =>
      let report := (scenario.replay settings).toJson
      .printed ((if i.compact then report.compact else report.pretty) ++ "\n")

end Invocation

def run (args : List String) (textOf : String → Option String) : Ending :=
  match read args with
  | .ok invocation => invocation.perform textOf
  | .error .help => .printed helpText
  | .error .version => .printed versionText
  | .error (.fault fault) => .misused fault

end SliceSync.CommandLine
