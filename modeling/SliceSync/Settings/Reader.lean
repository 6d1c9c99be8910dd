import SliceSync.Settings
import SliceSync.Toml.Reader
/-!
# Reading settings

A settings file is a TOML document that sets what it names and nothing else. The capacity of streams
must not be zero, which is looked at when everything else is in order.
-/

namespace SliceSync

/-- Why settings cannot be had. -/
inductive SettingsError
  /-- The text is not well-formed or does not fit. -/
  | malformed
  /-- A value is out of range. -/
  | invalid (reason : String)
  /-- The file at that path cannot be read. -/
  | unreadable (path reason : String)
  deriving DecidableEq, Repr

namespace SettingsError

/-- The text of an error; a malformed text is not described further. -/
def message : SettingsError → String
  | malformed => "TOML parse error"
  | invalid reason => "invalid configuration value: " ++ reason
  | unreadable path reason => "I/O error reading " ++ path ++ ": " ++ reason

/-- The error of a file that does not exist. -/
def missing (path : String) : SettingsError :=
  .unreadable path "No such file or directory (os error 2)"

end SettingsError

def Severity.ofName? (name : String) : Option Severity :=
  if name = "warning" then some .warning
  else if name = "error" then some .error
  else if name = "critical" then some .critical
  else none

namespace Settings

def number? : Toml → Option Nat
  | .integer n => if 0 ≤ n && n ≤ (maxNumber : Int) then some n.toNat else none
  | _ => none

def flag? : Toml → Option Bool
  | .boolean b => some b
  | _ => none

/-- Whether a value is a table or an array that holds nothing. -/
def isVoid : Toml → Bool
  | .table _ [] | .array [] => true
  | _ => false

/-- Reads a severity: its name, or a table with its name and nothing in it. -/
def severity? : Toml → Option Severity
  | .text name => Severity.ofName? name
  | .table _ [(name, v)] => if isVoid v then Severity.ofName? name else none
  | _ => none

/-- Takes one setting over. -/
def set? (s : Settings) (name : String) (v : Toml) : Option Settings :=
  if name = "update_channel_capacity" then
    (number? v).map fun n => { s with updateChannelCapacity := n }
  else if name = "ordering_buffer_warn_threshold" then
    (number? v).map fun n => { s with orderingBufferWarnThreshold := n }
  else if name = "suppress_diagnostics_until_build" then
    (flag? v).map fun b => { s with suppressDiagnosticsUntilBuild := b }
  else if name = "fault_severity" then (severity? v).map fun x => { s with faultSeverity := x }
  else none

def setAll? (s : Settings) : Toml.Entries → Option Settings
  | [] => some s
  | e :: rest => (s.set? e.1 e.2).bind fun s => setAll? s rest

def ofToml (text : String) : Except SettingsError Settings :=
  match (Toml.parse? text).bind (setAll? {}) with
  | none => .error .malformed
  | some s =>
    if s.updateChannelCapacity = 0 then .error (.invalid "update_channel_capacity must be > 0") else .ok s

/-- Reads the settings file at a path, given the text it holds, if there is one. -/
def load (path : String) (text : Option String) : Except SettingsError Settings :=
  match text with
  | some text => ofToml text
  | none => .error (.missing path)

end Settings

end SliceSync
