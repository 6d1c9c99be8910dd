import SliceSync.Workspace.Call
/-!
# Hosts

A host keeps one workspace for each slice that is wanted. Workspaces of other slices are retired: taken
out of the live ones at once and torn down after that, with the cause of the call that retired them. A
slice that is wanted again while its old workspace is being torn down waits for that, since the new
context has the id of the old one.

This module holds what a host remembers and where its calls stand; `World` takes them ahead.
-/

namespace SliceSync

/-- A workspace that is being torn down. -/
structure Retiring where
  workspace : Nat
  cause : DisposeCause
  deriving DecidableEq, Repr

/-- The workspaces of a host, by slice. -/
structure Slots where
  live : Listing Slice Nat := ∅
  /-- The workspaces taken out of `live` whose teardown has not finished. -/
  retiring : Listing Slice Retiring := ∅
  lock : Lock := {}
  deriving DecidableEq

/-- How often a write to the active slice is tried. -/
def writeAttempts : Nat := 5

/-- What is asked of a host. -/
inductive HostRequest
  /-- Replace the wanted slices; retired workspaces are unloaded. -/
  | setSlices (slices : List Slice)
  /-- Switch to an active slice among the wanted ones. -/
  | activate (slices : List Slice) (active : Slice)
  | handles
  | activeHandle
  /-- Write to the context of the active slice, with so many attempts left. -/
  | writeActive (mutations : List Mutation) (attempts : Nat)
  | shutdown
  deriving DecidableEq

/-- What is done as soon as the slots are locked. -/
inductive SlotTask
  | reconcile (wanted : List Slice) (cause : DisposeCause)
  /-- A retired workspace is gone; others may follow. -/
  | forget (workspace : Nat) (cause : DisposeCause) (retired : List Nat) (error : Option SyncError)
  | list
  | find (slice : Slice)
  | target (slice : Slice) (mutations : List Mutation) (attempts : Nat)
  | drain
  deriving DecidableEq

/-- A change of the wanted slices, under way. -/
structure Reconciliation where
  /-- The wanted slices not looked at yet. -/
  wanted : List Slice
  /-- The workspaces taken out of the live ones, to be torn down. -/
  retired : List Nat
  cause : DisposeCause
  error : Option SyncError := none
  deriving DecidableEq

/-- The teardown of a workspace with its driver. -/
inductive Retirement
  | disposing (call : Call)
  /-- The workspace is gone; the driver's exit is to be claimed. -/
  | claiming
  /-- The exit is claimed and waited for. -/
  | joining
  deriving DecidableEq

/-- Where a call on a host stands. -/
inductive HostCall
  | starting (request : HostRequest)
  /-- It waits for the slots' lock. -/
  | queued (task : SlotTask)
  /-- It holds the slots' lock and creates what is wanted. -/
  | creating (r : Reconciliation)
  /-- It holds the slots' lock and waits for the slice's old workspace to go. -/
  | evicting (r : Reconciliation) (slice : Slice) (workspace : Nat) (call : Call)
  | retiring (r : Reconciliation)
  | disposing (r : Reconciliation) (workspace : Nat) (retirement : Retirement)
  | writing (mutations : List Mutation) (attempts : Nat) (workspace : Nat) (call : Call)
  | draining (rest : List Nat)
  | closing (rest : List Nat) (workspace : Nat) (retirement : Retirement)
  deriving DecidableEq

/-- What a host answers. -/
inductive HostAnswer
  | done
  | handles (workspaces : List Nat)
  | handle (workspace : Nat)
  | wrote (id : ContextId)
  deriving DecidableEq

def Retirement.work : Retirement → Nat
  | .disposing call => call.work + 2
  | .claiming => 2
  | .joining => 1

/-- What one workspace can cost that is live and will be torn down by a host. -/
def Slots.liveWork : Nat := 12

/-- What one wanted slice can cost: its old workspace's going, its creation, its driver, and the new
workspace's going. -/
def Slots.wantedWork : Nat := 12 + Slots.liveWork

namespace HostCall

def work : HostCall → Nat
  | .starting (.setSlices slices) => 6 + Slots.wantedWork * slices.length
  | .starting (.activate slices _) => 6 + Slots.wantedWork * (slices.length + 1)
  | .starting (.writeActive _ attempts) => 2 + 10 * attempts
  | .starting _ => 6
  | .queued (.reconcile wanted _) => 5 + Slots.wantedWork * wanted.length
  | .queued (.forget _ _ retired _) => 3 + Slots.liveWork * retired.length
  | .queued (.target _ _ attempts) => 10 * attempts
  | .queued _ => 5
  | .creating r => 3 + Slots.wantedWork * r.wanted.length + Slots.liveWork * r.retired.length
  | .evicting r _ _ call =>
    3 + Slots.wantedWork * r.wanted.length + Slots.liveWork * r.retired.length + Slots.liveWork + 6 +
      call.work
  | .retiring r => 2 + Slots.liveWork * r.retired.length
  | .disposing r _ retirement => 4 + Slots.liveWork * r.retired.length + retirement.work
  | .writing _ attempts _ call => 2 + 10 * (attempts - 1) + call.work
  | .draining rest => 2 + Slots.liveWork * rest.length
  | .closing rest _ retirement => 3 + Slots.liveWork * rest.length + retirement.work

end HostCall

end SliceSync
