/-!
# Settings

What can be set for all workspaces of a host. Every setting has a default.
-/

namespace SliceSync

/-- How grave a reported fault is. -/
inductive Severity
  | warning
  | error
  | critical
  deriving DecidableEq, Repr, Inhabited

def Severity.name : Severity → String
  | warning => "warning"
  | error => "error"
  | critical => "critical"

/-- The largest number a setting can take. -/
def Settings.maxNumber : Nat := UInt64.size - 1

/-- The settings of a host. -/
structure Settings where
  /-- How many updates each stream of a slice can queue. -/
  updateChannelCapacity : Nat := 64
  /-- How many builds can be held before the first evaluation without a warning. -/
  orderingBufferWarnThreshold : Nat := 256
  /-- Whether a new context counts its last build as failed, until there is one. -/
  suppressDiagnosticsUntilBuild : Bool := true
  /-- How grave a workspace's faults are. -/
  faultSeverity : Severity := .error
  deriving DecidableEq, Repr, Inhabited

end SliceSync
