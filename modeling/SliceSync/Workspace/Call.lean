import SliceSync.Workspace
/-!
# Calls on a workspace

A call on a workspace goes through phases. Between two phases it waits: for the first evaluation, for
the lock, for a batch to close, for a context to go. `Call.advance` takes a call as far as the end of
the phase it is in, or leaves everything as it is while the call is stuck. How calls of many jobs mix
is for a schedule to say; any order of advances is possible.

Waiting calls look at the unload token first: once unload is requested, whatever waits ends with the
error of the first cause. A call that holds the lock goes on to its end.
-/

namespace SliceSync

/-- What is asked of a workspace. -/
inductive Request
  | update (update : Update)
  | write (mutations : List Mutation)
  | status
  | whenEvaluation
  | whenBuild
  | dispose (cause : DisposeCause)
  deriving DecidableEq

/-- Where a call stands. -/
inductive Phase
  | awaitingEvaluation
  | awaitingBuild
  /-- It is about to ask for the lock. -/
  | entering
  | queued
  /-- It holds the lock until its batch has closed. -/
  | closing (batch : OpenBatch)
  /-- It holds the lock until the context has gone. -/
  | releasing (handle : ContextHandle)
  deriving DecidableEq

/-- A call and where it stands. -/
structure Call where
  request : Request
  phase : Phase
  deriving DecidableEq

/-- Whether a call goes on. -/
inductive Progress
  | going (call : Call)
  | done (result : Except SyncError Answer)

/-- What one advance leaves behind. -/
structure Advance where
  session : Session
  workspace : Workspace
  events : List Event
  progress : Progress

namespace Call

def start (request : Request) : Call where
  request := request
  phase :=
    match request with
    | .update u =>
      match u.payload with
      | .evaluation _ => .entering
      | .build _ => .awaitingEvaluation
    | .write _ | .whenEvaluation => .awaitingEvaluation
    | .whenBuild => .awaitingBuild
    | .status | .dispose _ => .entering

/-- The cause with which a waiting call is cut short. Updates and writes heed the token when they ask
for the lock; teardown and the question for the status do not. -/
def cutShort (c : Call) (w : Workspace) : Option DisposeCause :=
  match c.request with
  | .status | .dispose _ => none
  | _ => w.unload.cause

/-- A faulty end of an update is reported. -/
def report (setup : Setup) (c : Call) (result : Except SyncError Answer) : List Event :=
  match c.request, result with
  | .update _, .error error =>
    if error.isFault then [.fault error setup.settings.faultSeverity] else []
  | _, _ => []

/-- The call ends without having held the lock. -/
def finish (setup : Setup) (c : Call) (session : Session) (w : Workspace)
    (result : Except SyncError Answer) : Advance :=
  ⟨session, w, c.report setup result, .done result⟩

/-- What follows a passage under the lock: the end, which passes the lock on, or the next wait. -/
def conclude (setup : Setup) (c : Call) (p : Passage) : Advance :=
  match p.held with
  | .finished result =>
    ⟨p.session, { p.workspace with lock := p.workspace.lock.release }, p.events ++ c.report setup result,
      .done result⟩
  | .closing batch => ⟨p.session, p.workspace, p.events, .going { c with phase := .closing batch }⟩
  | .releasing handle => ⟨p.session, p.workspace, p.events, .going { c with phase := .releasing handle }⟩

/-- What a call does on getting the lock. -/
def enter (setup : Setup) (env : Environment) (c : Call) (session : Session) (w : Workspace) : Advance :=
  c.conclude setup <|
    match c.request with
    | .update u => w.receive setup env session u
    | .write mutations => w.beginWrite session mutations
    | .dispose _ => w.beginDispose session
    | .status | .whenEvaluation | .whenBuild =>
      ⟨session, w, [], .finished (.ok (.status w.status))⟩

/-- Asks for the lock. A free lock is taken at once. -/
def askLock (setup : Setup) (env : Environment) (me : JobId) (c : Call) (session : Session)
    (w : Workspace) : Advance :=
  let free := w.lock.holder.isNone
  let w := { w with lock := w.lock.request me }
  if free then c.enter setup env session w
  else ⟨session, w, [], .going { c with phase := .queued }⟩

/-- Takes the call `me` makes as far as the end of its phase. A stuck call stays as it is. -/
def advance (setup : Setup) (env : Environment) (me : JobId) (c : Call) (session : Session)
    (w : Workspace) : Advance :=
  let stay : Advance := ⟨session, w, [], .going c⟩
  match c.phase with
  | .awaitingEvaluation =>
    match w.unload.cause with
    | some cause => c.finish setup session w (.error cause.error)
    | none =>
      match w.evaluation with
      | .pending => stay
      | .failed => c.finish setup session w (.error .failed)
      | .integrated =>
        match c.request with
        | .whenEvaluation => c.finish setup session w (.ok .done)
        | _ => ⟨session, w, [], .going { c with phase := .entering }⟩
  | .awaitingBuild =>
    match w.unload.cause with
    | some cause => c.finish setup session w (.error cause.error)
    | none => if w.buildIntegrated then c.finish setup session w (.ok .done) else stay
  | .entering =>
    match c.request with
    | .dispose cause => c.askLock setup env me session { w with unload := w.unload.cancel cause }
    | _ =>
      match c.cutShort w with
      | some cause => c.finish setup session w (.error cause.error)
      | none => c.askLock setup env me session w
  | .queued =>
    match c.cutShort w with
    | some cause =>
      c.finish setup session { w with lock := w.lock.leave me } (.error cause.error)
    | none => if w.lock.isHeldBy me then c.enter setup env session w else stay
  | .closing batch => if env.gateOpen then c.conclude setup (w.close env session batch) else stay
  | .releasing handle =>
    if env.disposalOpen then c.conclude setup (w.finishDispose session handle) else stay

/-- Whether an advance would leave everything as it is. -/
def isStuck (env : Environment) (me : JobId) (c : Call) (w : Workspace) : Bool :=
  match c.phase with
  | .awaitingEvaluation => w.unload.cause.isNone && w.evaluation = .pending
  | .awaitingBuild => w.unload.cause.isNone && !w.buildIntegrated
  | .entering => false
  | .queued => (c.cutShort w).isNone && !w.lock.isHeldBy me
  | .closing _ => !env.gateOpen
  | .releasing _ => !env.disposalOpen

/-- How many more advances a call can take. -/
def work (c : Call) : Nat :=
  match c.phase with
  | .awaitingEvaluation => 4
  | .entering => 3
  | .queued => 2
  | .awaitingBuild | .closing _ | .releasing _ => 1

end Call

end SliceSync
