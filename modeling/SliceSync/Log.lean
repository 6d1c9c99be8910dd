import SliceSync.Holdback
import SliceSync.Error
import SliceSync.Settings
/-!
# Log entries

What is worth a warning or an error in the log: a reported fault, builds that pile up before the first
evaluation, and a context that could not be created. An entry has a name and fields.
-/

namespace SliceSync

inductive LogLevel
  | warning
  | error
  deriving DecidableEq, Repr

def LogLevel.name : LogLevel → String
  | warning => "WARN"
  | error => "ERROR"

structure LogEntry where
  level : LogLevel
  name : String
  fields : List (String × String)
  deriving DecidableEq, Repr

namespace LogEntry

/-- A fault. A warning tells the error alone, graver faults also their severity. -/
def ofFault (error : SyncError) (severity : Severity) : LogEntry :=
  let name := "workspace.fault"
  match severity with
  | .warning => ⟨.warning, name, [("error", error.message)]⟩
  | .error => ⟨.error, name, [("error", error.message), ("severity", "Error")]⟩
  | .critical => ⟨.error, name, [("error", error.message), ("severity", "Critical")]⟩

/-- More builds are held back than expected. -/
def ofHoldback (w : HoldbackWarning) : LogEntry :=
  ⟨.warning, "ordering.buffer_growing", [("held", toString w.held), ("threshold", toString w.threshold)]⟩

/-- The context of a project could not be created. -/
def ofCreationFailure (project : Project) (error : SyncError) : LogEntry :=
  ⟨.warning, "context.create_failed", [("project", project.path), ("error", error.message)]⟩

end LogEntry

end SliceSync
