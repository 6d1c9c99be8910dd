import SliceSync.Session
import SliceSync.Unload
import SliceSync.Lock
/-!
# Workspaces

A workspace keeps one slice's context in line with its updates. Updates and writes hold its lock one
at a time. What an update changes is computed against the `Baseline`, which is what the context was
last given; an update that changes nothing is skipped, but counted as processed. All mutations of one
update stand in one batch, and the baseline moves only when handlers and batch succeeded.

This module holds the parts of an update that run without waiting: `receive` up to the end of its
batch, and `OpenBatch.close` from there on. `Workspace.Call` puts them together.
-/

namespace SliceSync

/-- The stages of a workspace's life. -/
inductive Status
  /-- No update has come. -/
  | uninitialized
  /-- Progress is followed; the first evaluation creates the context. -/
  | initialized
  /-- The context could not be created. -/
  | failed
  | disposed
  deriving DecidableEq, Repr, Inhabited

def Status.name : Status → String
  | uninitialized => "uninitialized"
  | initialized => "initialized"
  | failed => "failed"
  | disposed => "disposed"

/-- Whether the first evaluation has reached the context. -/
inductive Integration
  | pending
  | integrated
  | failed
  deriving DecidableEq, Repr, Inhabited

/-- What the context was last given. -/
structure Baseline where
  rules : NameMap Snapshot := ∅
  items : NameMap Snapshot := ∅
  arguments : List String := []
  lastBuildSucceeded : Option Bool := none
  activity : Option Activity := none
  deriving DecidableEq, Inhabited

structure Workspace where
  slice : Slice
  status : Status := .uninitialized
  /-- The owner under which progress is followed. -/
  owner : Option String := none
  context : Option ContextHandle := none
  baseline : Baseline := {}
  lock : Lock := {}
  unload : UnloadToken := {}
  evaluation : Integration := .pending
  buildIntegrated : Bool := false
  /-- The id of the context, once there was one. -/
  contextId : Option ContextId := none
  deriving DecidableEq

/-- What becomes of the baseline when a batch has closed well. -/
inductive Commit
  | evaluation (versions : Versions) (rules : NameMap Snapshot) (items : NameMap Snapshot)
    (activity : Activity)
  | build (versions : Versions) (arguments : List String) (activity : Activity)
  | write (id : ContextId)
  deriving DecidableEq

/-- A batch that is to be closed. -/
structure OpenBatch where
  serial : Nat
  /-- The failure of a handler, which outlives the closing. -/
  failure : Option SyncError
  commit : Commit
  deriving DecidableEq

/-- What a call answers. -/
inductive Answer
  | done
  | status (status : Status)
  | wrote (id : ContextId)
  deriving DecidableEq

/-- How the part of a call up to its first wait under the lock ends. -/
inductive Held
  | finished (result : Except SyncError Answer)
  | closing (batch : OpenBatch)
  | releasing (handle : ContextHandle)

/-- What a part of a call leaves behind. -/
structure Passage where
  session : Session
  workspace : Workspace
  events : List Event
  held : Held

namespace Workspace

/-- Whether the status admits updates and writes. -/
def admits (w : Workspace) : Except SyncError Unit :=
  match w.status with
  | .failed => .error .failed
  | .disposed =>
    match w.unload.check with
    | .error error => .error error
    | .ok () => .error .disposed
  | .uninitialized | .initialized => .ok ()

/-- Tells that an update has been processed, if progress is followed. -/
def tell (w : Workspace) (versions : Versions) : List Event :=
  (w.owner.map fun owner => Event.processed owner versions).toList

/-- The change of a rule or item type seen from the snapshot that is held. -/
def rebased (held : NameMap Snapshot) (name : String) (change : Change) : Change :=
  change.rebase ((held.get? name).getD .empty)

/-- An evaluation for a context that is there; `fresh` if it was just created. -/
def evaluate (setup : Setup) (env : Environment) (session : Session) (w : Workspace)
    (handle : ContextHandle) (fresh : Bool) (versions : Versions) (e : Evaluation) : Passage :=
  let rules := e.rules.mapValues (rebased w.baseline.rules)
  let items := e.items.mapValues (rebased w.baseline.items)
  let activity := session.active.activityOf w.slice
  let changed := rules.values.any (·.hasChanges) || items.values.any (·.hasChanges)
  if !fresh && !changed && w.baseline.activity = some activity then
    ⟨session, w, w.tell versions, .finished (.ok .done)⟩
  else
    let succeeded := !setup.settings.suppressDiagnosticsUntilBuild
    let opening := if fresh then [Event.context handle.serial (.mutate (.setLastBuildSucceeded succeeded))]
      else []
    let first := handle.handlers.applyEvaluation env rules activity
    let second : Round HandlerSet :=
      match first.failure with
      | some error => ⟨first.state, [], some error⟩
      | none => first.state.applyItems env items activity
    let w :=
      { w with
        context := some { handle with handlers := second.state }
        baseline := if fresh then { w.baseline with lastBuildSucceeded := some succeeded } else w.baseline }
    ⟨session, w,
      .context handle.serial .startBatch :: opening ++
        (first.effects ++ second.effects).map (Effect.event handle.serial),
      .closing
        { serial := handle.serial
          failure := second.failure
          commit := .evaluation versions (e.rules.mapValues fun _ c => c.after)
            (NameMap.ofList (e.items.toList.map fun i => (i.1, i.2.after))) activity }⟩

/-- An evaluation: it creates the context if there is none. -/
def receiveEvaluation (setup : Setup) (env : Environment) (session : Session) (w : Workspace)
    (versions : Versions) (e : Evaluation) : Passage :=
  match w.context with
  | some handle => evaluate setup env session w handle false versions e
  | none =>
    match session.create env setup.registry e with
    | .error error =>
      ⟨session, { w with status := .failed, evaluation := .failed }, [], .finished (.error error)⟩
    | .ok (session, handle, events) =>
      let w := { w with context := some handle, contextId := w.contextId.or (some handle.id) }
      let p := evaluate setup env session w handle true versions e
      { p with events := events ++ p.events }

/-- A build: it is skipped if the arguments, the outcome and the activity are those last given. -/
def receiveBuild (env : Environment) (session : Session) (w : Workspace) (versions : Versions)
    (b : Build) : Passage :=
  let difference := ArgumentDifference.between w.baseline.arguments b.arguments
  let activity := session.active.activityOf w.slice
  if difference.isEmpty && w.baseline.lastBuildSucceeded = some b.producedItems &&
      w.baseline.activity = some activity then
    ⟨session, { w with buildIntegrated := true }, w.tell versions, .finished (.ok .done)⟩
  else
    match w.context with
    | none => ⟨session, w, [], .finished (.error .failed)⟩
    | some handle =>
      let round := handle.handlers.applyArguments env difference activity
      ⟨session, { w with context := some { handle with handlers := round.state } },
        .context handle.serial .startBatch ::
          .context handle.serial (.mutate (.setOptions b.arguments)) ::
          round.effects.map (Effect.event handle.serial) ++
          [.context handle.serial (.mutate (.setLastBuildSucceeded b.producedItems))],
        .closing
          { serial := handle.serial
            failure := round.failure
            commit := .build versions b.arguments activity }⟩

/-- The first update starts to follow progress. -/
def enroll (setup : Setup) (w : Workspace) (u : Update) : Workspace × List Event :=
  match w.status with
  | .uninitialized =>
    let owner := u.project.ownerTag
    if setup.tracksProgress then
      ({ w with status := .initialized, owner := some owner }, [.registered owner])
    else ({ w with status := .initialized }, [])
  | _ => (w, [])

/-- An update that got the lock. -/
def receive (setup : Setup) (env : Environment) (session : Session) (w : Workspace) (u : Update) :
    Passage :=
  match w.admits with
  | .error error => ⟨session, w, [], .finished (.error error)⟩
  | .ok () =>
    let started := w.enroll setup u
    let p :=
      match u.payload with
      | .evaluation e => receiveEvaluation setup env session started.1 u.versions e
      | .build b => receiveBuild env session started.1 u.versions b
    { p with events := started.2 ++ p.events }

/-- A write that got the lock. -/
def beginWrite (session : Session) (w : Workspace) (mutations : List Mutation) : Passage :=
  match w.admits with
  | .error error => ⟨session, w, [], .finished (.error error)⟩
  | .ok () =>
    match w.context with
    | none => ⟨session, w, [], .finished (.error .failed)⟩
    | some handle =>
      ⟨session, w,
        .context handle.serial .startBatch :: .acted handle.id ::
          mutations.map (fun m => .context handle.serial (.mutate m)),
        .closing { serial := handle.serial, failure := none, commit := .write handle.id }⟩

/-- Ends following progress. -/
def unregister (w : Workspace) : Workspace × List Event :=
  ({ w with owner := none }, (w.owner.map Event.unregistered).toList)

/-- Teardown that got the lock: the first one takes the context away. -/
def beginDispose (session : Session) (w : Workspace) : Passage :=
  match w.status with
  | .disposed => ⟨session, w, [], .finished (.ok .done)⟩
  | _ =>
    match w.context with
    | some handle =>
      ⟨session, { w with status := .disposed, context := none }, Session.beginRelease handle,
        .releasing handle⟩
    | none =>
      let ended := unregister { w with status := .disposed }
      ⟨session, ended.1, ended.2, .finished (.ok .done)⟩

/-- The rest of teardown, once the context is gone. -/
def finishDispose (session : Session) (w : Workspace) (handle : ContextHandle) : Passage :=
  let freed := session.finishRelease handle
  let ended := unregister w
  ⟨freed.1, ended.1, freed.2 ++ ended.2, .finished (.ok .done)⟩

/-- What is held after a batch that closed well. -/
def commit (w : Workspace) : Commit → Workspace × List Event × Answer
  | .evaluation versions rules items activity =>
    ({ w with
        baseline :=
          { w.baseline with
            rules := w.baseline.rules.insertAll rules.toList
            items := w.baseline.items.insertAll items.toList
            activity := some activity }
        evaluation := .integrated },
      w.tell versions, .done)
  | .build versions arguments activity =>
    ({ w with
        baseline :=
          { w.baseline with
            arguments
            lastBuildSucceeded := some (!arguments.isEmpty)
            activity := some activity }
        buildIntegrated := true },
      w.tell versions, .done)
  | .write id => (w, [], .wrote id)

/-- Closes a batch. The failure of a handler counts before a rejection of the batch; either leaves the
baseline as it was. -/
def close (env : Environment) (session : Session) (w : Workspace) (batch : OpenBatch) : Passage :=
  let ended := Event.context batch.serial .endBatch
  match batch.failure.or env.rejected with
  | some error => ⟨session, w, [ended], .finished (.error error)⟩
  | none =>
    let (w, events, answer) := w.commit batch.commit
    ⟨session, w, ended :: events, .finished (.ok answer)⟩

end Workspace

end SliceSync
