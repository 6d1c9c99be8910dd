import SliceSync.Holdback
import SliceSync.Workspace.Call
/-!
# Drivers

A driver follows the two streams of a slice and hands their updates to its workspace, one at a time,
evaluations first. It stops when both streams have ended, when unload is requested, or at the first
update that fails.
-/

namespace SliceSync

/-- How a driver ended. -/
inductive DriverExit
  /-- Both streams ended. -/
  | completed
  /-- The workspace was torn down. -/
  | unloaded (cause : DisposeCause)
  | faulted (error : SyncError)
  deriving DecidableEq, Repr

def DriverExit.describe : DriverExit → String
  | completed => "completed"
  | unloaded cause => "unloaded (" ++ cause.name ++ ")"
  | faulted error => "faulted: " ++ error.message

/-- A driver between two steps. -/
structure Driver where
  /-- The place of its workspace. -/
  workspace : Nat
  /-- The place of its pair of streams. -/
  pair : Nat
  evaluationOpen : Bool := true
  buildOpen : Bool := true
  holdback : Holdback
  /-- The updates let through and not handed over yet. -/
  passed : List Update := []
  /-- The update that the workspace is working on. -/
  handing : Option Call := none
  deriving DecidableEq

namespace Driver

/-- The exit after an update that failed, given the cause of the workspace's unload. -/
def exitAfter (error : SyncError) (unload : UnloadToken) : DriverExit :=
  if error.isCancellation then .unloaded (unload.cause.getD .unload) else .faulted error

/-- Whether the stream of a kind is still followed. -/
def isOpen (d : Driver) : UpdateKind → Bool
  | .evaluation => d.evaluationOpen
  | .build => d.buildOpen

def closeStream (d : Driver) : UpdateKind → Driver
  | .evaluation => { d with evaluationOpen := false }
  | .build => { d with buildOpen := false }

def push (d : Driver) (u : Update) : Driver :=
  let r := d.holdback.push u
  { d with holdback := r.1, passed := d.passed ++ r.2.1 }

/-- How many more steps the driver can take on what it has. -/
def work (d : Driver) : Nat :=
  1 + d.evaluationOpen.toNat + d.buildOpen.toNat + 5 * (d.passed.length + d.holdback.held.length) +
    (d.handing.map Call.work).getD 0

end Driver

end SliceSync
