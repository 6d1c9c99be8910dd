import SliceSync.Source
import SliceSync.Driver
import SliceSync.Host
/-!
# The world

A `World` is a session with its workspaces, the source of updates, a host and the jobs at work: calls
on workspaces, drivers, senders, calls on the host. `World.advance` takes one job ahead by one step; a
step runs to the next point where the job could have to wait, and a stuck job changes nothing. All
interleavings of jobs are the orders in which they can be advanced; `World.Schedule` is one of them.

What happened outside is kept in `log`, each event with the job and the workspace it belongs to.
-/

namespace SliceSync

/-- A workspace with its driver's end. -/
structure Hosted where
  workspace : Workspace
  /-- How the driver ended, once it did. -/
  exit : Option DriverExit := none
  /-- Whether somebody has claimed the exit. -/
  claimed : Bool := false
  deriving DecidableEq

/-- A sender with the updates it has to send, in order. -/
structure Sending where
  pair : Nat
  pending : List Update
  /-- Whether it has joined the line of a full stream. -/
  waited : Bool := false
  deriving DecidableEq

/-- What is at work. -/
inductive Job
  | call (workspace : Nat) (call : Call)
  | retire (workspace : Nat) (retirement : Retirement)
  | drive (driver : Driver)
  | send (sending : Sending)
  | host (call : HostCall)
  deriving DecidableEq

/-- How a job ended. -/
inductive Outcome
  | answered (result : Except SyncError Answer)
  | retired (exit : Option DriverExit)
  | drove (exit : DriverExit)
  | sent (result : Except SyncError Unit)
  | hosted (result : Except SyncError HostAnswer)

/-- An event with its origin. -/
structure Entry where
  job : JobId
  workspace : Nat
  event : Event
  deriving DecidableEq

/-- Everything at one time. -/
structure World where
  setup : Setup
  session : Session := {}
  hosted : List Hosted := []
  source : Source
  slots : Slots := {}
  /-- The jobs that have not ended, in the order they began. -/
  jobs : List (JobId × Job) := []
  nextJob : JobId := 0
  outcomes : List (JobId × Outcome) := []
  log : List Entry := []

/-- Whether a job goes on, and as what. -/
inductive Onward (α ρ : Type)
  | going (state : α)
  | done (result : ρ)

namespace World

def initial (setup : Setup) : World where
  setup := setup
  source := .ofCapacity setup.settings.updateChannelCapacity

def workspace? (w : World) (i : Nat) : Option Workspace := (w.hosted[i]?).map (·.workspace)

/-- The job of a number, while it is at work. -/
def job? (w : World) (id : JobId) : Option Job := (w.jobs.find? (·.1 = id)).map (·.2)

def outcome? (w : World) (id : JobId) : Option Outcome := (w.outcomes.find? (·.1 = id)).map (·.2)

/-- Adds a workspace: its place is the number of those before it. -/
def addWorkspace (w : World) (slice : Slice) : World :=
  { w with hosted := w.hosted ++ [{ workspace := { slice } }] }

/-- Begins a job; its number is `w.nextJob`. -/
def spawn (w : World) (job : Job) : World :=
  { w with jobs := w.jobs ++ [(w.nextJob, job)], nextJob := w.nextJob + 1 }

/-- Changes what is known of a place. -/
def modifyHosted (w : World) (i : Nat) (f : Hosted → Hosted) : World :=
  { w with hosted := w.hosted.modify i f }

def setActiveConfiguration (w : World) (slice : Slice) : World :=
  { w with session := { w.session with active := w.session.active.setConfiguration slice } }

def setActiveEditor (w : World) (slice : Slice) : World :=
  { w with session := { w.session with active := w.session.active.setEditor slice } }

/-- Requests the unload of a workspace, without tearing it down. -/
def requestUnload (w : World) (i : Nat) (cause : DisposeCause) : World :=
  w.modifyHosted i fun h => { h with workspace := { h.workspace with unload := h.workspace.unload.cancel cause } }

/-- The live workspace of a slice. -/
def handleOf (w : World) (slice : Slice) : Option Nat := w.slots.live.get? slice

/-- How often the action of a write ran for a job. -/
def runs (w : World) (job : JobId) : Nat :=
  w.log.countP fun e =>
    match e.event with
    | .acted _ => e.job = job
    | _ => false

/-! ## Calls on workspaces -/

/-- Takes a call on a workspace ahead, on account of the job `me`. -/
def advanceCall (w : World) (env : Environment) (me : JobId) (i : Nat) (c : Call) :
    World × Onward Call (Except SyncError Answer) :=
  match w.hosted[i]? with
  | none => (w, .done (.error .disposed))
  | some h =>
    let a := c.advance w.setup env me w.session h.workspace
    ({ w with
        session := a.session
        hosted := w.hosted.set i { h with workspace := a.workspace }
        log := w.log ++ a.events.map fun event => ⟨me, i, event⟩ },
      match a.progress with
      | .going c => .going c
      | .done result => .done result)

def isCallStuck (w : World) (env : Environment) (me : JobId) (i : Nat) (c : Call) : Bool :=
  match w.hosted[i]? with
  | none => false
  | some h => c.isStuck env me h.workspace

/-! ## Teardown with the driver -/

/-- The teardown of a workspace and its driver. -/
def beginRetirement (cause : DisposeCause) : Retirement := .disposing (.start (.dispose cause))

/-- Takes a teardown ahead. The driver's exit can be claimed once; who comes later gets nothing. -/
def advanceRetirement (w : World) (env : Environment) (me : JobId) (i : Nat) (r : Retirement) :
    World × Onward Retirement (Option DriverExit) :=
  match r with
  | .disposing c =>
    match w.advanceCall env me i c with
    | (w, .going c) => (w, .going (.disposing c))
    | (w, .done _) => (w, .going .claiming)
  | .claiming =>
    match w.hosted[i]? with
    | none => (w, .done none)
    | some h =>
      if h.claimed then (w, .done none)
      else (w.modifyHosted i fun h => { h with claimed := true }, .going .joining)
  | .joining =>
    match (w.hosted[i]?).bind (·.exit) with
    | some exit => (w, .done (some exit))
    | none => (w, .going .joining)

def isRetirementStuck (w : World) (env : Environment) (me : JobId) (i : Nat) : Retirement → Bool
  | .disposing c => w.isCallStuck env me i c
  | .claiming => false
  | .joining => ((w.hosted[i]?).bind (·.exit)).isNone

/-! ## Drivers -/

/-- Ends a driver: its receiving ends go with it. -/
def endDriver (w : World) (d : Driver) (exit : DriverExit) : World × Onward Driver DriverExit :=
  ({ w.modifyHosted d.workspace (fun h => { h with exit := some exit }) with
      source := w.source.dropReceivers d.pair }, .done exit)

/-- The stream a driver reads next: evaluations before builds. -/
def readyKind (w : World) (d : Driver) : Option UpdateKind :=
  if d.evaluationOpen && w.source.isReady d.pair .evaluation then some .evaluation
  else if d.buildOpen && w.source.isReady d.pair .build then some .build
  else none

/-- The cause of the unload requested for a driver's workspace. -/
def unloadOf (w : World) (i : Nat) : Option DisposeCause := (w.workspace? i).bind (·.unload.cause)

/-- Takes a driver ahead: it goes on with the update in hand, hands over the next one, or waits for
unload and for its streams, in this order. -/
def advanceDriver (w : World) (env : Environment) (me : JobId) (d : Driver) :
    World × Onward Driver DriverExit :=
  match d.handing with
  | some c =>
    match w.advanceCall env me d.workspace c with
    | (w, .going c) => (w, .going { d with handing := some c })
    | (w, .done (.ok _)) => (w, .going { d with handing := none })
    | (w, .done (.error error)) =>
      w.endDriver d (Driver.exitAfter error { cause := w.unloadOf d.workspace })
  | none =>
    match d.passed with
    | u :: rest => (w, .going { d with passed := rest, handing := some (.start (.update u)) })
    | [] =>
      if !d.evaluationOpen && !d.buildOpen then w.endDriver d .completed
      else
        match w.unloadOf d.workspace with
        | some cause => w.endDriver d (.unloaded cause)
        | none =>
          match w.readyKind d with
          | none => (w, .going d)
          | some kind =>
            match w.source.receive d.pair kind with
            | (source, .update u) => ({ w with source }, .going (d.push u))
            | (source, _) => ({ w with source }, .going (d.closeStream kind))

def isDriverStuck (w : World) (env : Environment) (me : JobId) (d : Driver) : Bool :=
  match d.handing with
  | some c => w.isCallStuck env me d.workspace c
  | none =>
    d.passed.isEmpty && (d.evaluationOpen || d.buildOpen) && (w.unloadOf d.workspace).isNone &&
      (w.readyKind d).isNone

/-! ## Senders -/

/-- Takes a sender ahead by one update. It stops at the first that cannot be sent. -/
def advanceSending (w : World) (me : JobId) (s : Sending) :
    World × Onward Sending (Except SyncError Unit) :=
  match s.pending with
  | [] => ({ w with source := w.source.dropSender s.pair }, .done (.ok ()))
  | u :: rest =>
    match w.source.send s.pair me s.waited u with
    | (source, .sent) => ({ w with source }, .going { s with pending := rest, waited := false })
    | (source, .closed) =>
      ({ w with source := source.dropSender s.pair }, .done (.error Source.closedError))
    | (source, .full) =>
      if s.waited then (w, .going s)
      else ({ w with source := source.await s.pair me u.kind }, .going { s with waited := true })

def isSendingStuck (w : World) (me : JobId) (s : Sending) : Bool :=
  match s.pending with
  | [] => false
  | u :: _ => s.waited && !w.source.isClosed s.pair && !w.source.isGranted s.pair me u.kind

/-- How many more steps a sender can take. -/
def sendingWork (s : Sending) : Nat := 1 + 8 * s.pending.length - s.waited.toNat

/-! ## The host -/

/-- Creates the workspace of a slice and begins its driver. -/
def createHosted (w : World) (env : Environment) (slice : Slice) : World × Except SyncError Nat :=
  if !env.scheduling then (w, .error (.subscription "no scheduler is running"))
  else
    match env.unsubscribed slice with
    | some error => (w, .error error)
    | none =>
      let i := w.hosted.length
      let (source, pair) := w.source.subscribe slice
      let holdback : Holdback := { threshold := w.setup.settings.orderingBufferWarnThreshold }
      (({ w with source }.addWorkspace slice).spawn (.drive { workspace := i, pair, holdback }), .ok i)

/-- Creates the workspace of a wanted slice and makes it live, or notes the first error. -/
def createWanted (w : World) (env : Environment) (r : Reconciliation) (slice : Slice) :
    World × Onward HostCall (Except SyncError HostAnswer) :=
  match w.createHosted env slice with
  | (w, .ok i) =>
    ({ w with slots := { w.slots with live := w.slots.live.insert slice i } }, .going (.creating r))
  | (w, .error error) => (w, .going (.creating { r with error := r.error.or (some error) }))

def unlockSlots (w : World) : World := { w with slots := { w.slots with lock := w.slots.lock.release } }

/-- The live slices that are not wanted leave the live ones and are retiring from now on. -/
def retireUnwanted (w : World) (wanted : List Slice) (cause : DisposeCause) : World × List Nat :=
  let unwanted := w.slots.live.toList.filter fun e => !wanted.contains e.1
  ({ w with
      slots :=
        { w.slots with
          live := unwanted.foldl (fun live e => live.erase e.1) w.slots.live
          retiring := unwanted.foldl (fun retiring e => retiring.insert e.1 ⟨e.2, cause⟩) w.slots.retiring } },
    unwanted.map (·.2))

/-- A workspace that is gone is no longer retiring. -/
def forgetRetired (w : World) (i : Nat) : World :=
  match w.workspace? i with
  | none => w
  | some ws =>
    match w.slots.retiring.get? ws.slice with
    | some retiring =>
      if retiring.workspace = i then
        { w with slots := { w.slots with retiring := w.slots.retiring.erase ws.slice } }
      else w
    | none => w

/-- What a call on the host does on locking the slots. -/
def performSlotTask (w : World) (t : SlotTask) : World × Onward HostCall (Except SyncError HostAnswer) :=
  match t with
  | .reconcile wanted cause =>
    let (w, retired) := w.retireUnwanted wanted cause
    (w, .going (.creating { wanted, retired, cause }))
  | .forget i cause retired error =>
    ((w.forgetRetired i).unlockSlots, .going (.retiring { wanted := [], retired, cause, error }))
  | .list => (w.unlockSlots, .done (.ok (.handles w.slots.live.values)))
  | .find slice =>
    (w.unlockSlots,
      .done (match w.slots.live.get? slice with
        | some i => .ok (.handle i)
        | none => .error .noActiveWorkspace))
  | .target slice mutations attempts =>
    match w.slots.live.get? slice with
    | some i => (w.unlockSlots, .going (.writing mutations attempts i (.start (.write mutations))))
    | none => (w.unlockSlots, .done (.error .noActiveWorkspace))
  | .drain =>
    ({ w with slots := { w.slots with live := ∅ } }.unlockSlots, .going (.draining w.slots.live.values))

/-- Asks for the slots. Free slots are locked at once. -/
def askSlots (w : World) (me : JobId) (t : SlotTask) :
    World × Onward HostCall (Except SyncError HostAnswer) :=
  let free := w.slots.lock.holder.isNone
  let w := { w with slots := { w.slots with lock := w.slots.lock.request me } }
  if free then w.performSlotTask t else (w, .going (.queued t))

def startHost (w : World) (me : JobId) (request : HostRequest) :
    World × Onward HostCall (Except SyncError HostAnswer) :=
  match request with
  | .setSlices slices => w.askSlots me (.reconcile (Slice.sortedSet slices) .unload)
  | .activate slices active =>
    (w.setActiveConfiguration active).askSlots me
      (.reconcile (Slice.sortedSet (slices ++ [active])) .activeConfigurationChanged)
  | .handles => w.askSlots me .list
  | .activeHandle =>
    match w.session.active.configuration with
    | none => (w, .done (.error .noActiveWorkspace))
    | some slice => w.askSlots me (.find slice)
  | .writeActive mutations attempts =>
    if attempts = 0 then (w, .done (.error .activeConfigurationChanged))
    else
      match w.session.active.configuration with
      | none => (w, .done (.error .noActiveWorkspace))
      | some slice => w.askSlots me (.target slice mutations attempts)
  | .shutdown => w.askSlots me .drain

def advanceHost (w : World) (env : Environment) (me : JobId) (c : HostCall) :
    World × Onward HostCall (Except SyncError HostAnswer) :=
  match c with
  | .starting request => w.startHost me request
  | .queued t => if w.slots.lock.isHeldBy me then w.performSlotTask t else (w, .going c)
  | .creating r =>
    match r.wanted with
    | [] => (w.unlockSlots, .going (.retiring r))
    | slice :: rest =>
      let r := { r with wanted := rest }
      if w.slots.live.contains slice then (w, .going (.creating r))
      else
        match w.slots.retiring.get? slice with
        | some old =>
          ({ w with slots := { w.slots with retiring := w.slots.retiring.erase slice } },
            .going (.evicting r slice old.workspace (.start (.dispose old.cause))))
        | none => w.createWanted env r slice
  | .evicting r slice i call =>
    match w.advanceCall env me i call with
    | (w, .going call) => (w, .going (.evicting r slice i call))
    | (w, .done _) => w.createWanted env r slice
  | .retiring r =>
    match r.retired with
    | [] =>
      (w, .done (match r.error with
        | some error => .error error
        | none => .ok .done))
    | i :: rest => (w, .going (.disposing { r with retired := rest } i (beginRetirement r.cause)))
  | .disposing r i retirement =>
    match w.advanceRetirement env me i retirement with
    | (w, .going retirement) => (w, .going (.disposing r i retirement))
    | (w, .done _) => w.askSlots me (.forget i r.cause r.retired r.error)
  | .writing mutations attempts i call =>
    match w.advanceCall env me i call with
    | (w, .going call) => (w, .going (.writing mutations attempts i call))
    | (w, .done (.error error)) =>
      if error.isRetryable then (w, .going (.starting (.writeActive mutations (attempts - 1))))
      else (w, .done (.error error))
    | (w, .done (.ok (.wrote id))) => (w, .done (.ok (.wrote id)))
    | (w, .done (.ok _)) => (w, .done (.ok .done))
  | .draining rest =>
    match rest with
    | [] => (w, .done (.ok .done))
    | i :: rest => (w, .going (.closing rest i (beginRetirement .unload)))
  | .closing rest i retirement =>
    match w.advanceRetirement env me i retirement with
    | (w, .going retirement) => (w, .going (.closing rest i retirement))
    | (w, .done _) => (w, .going (.draining rest))

def isHostStuck (w : World) (env : Environment) (me : JobId) (c : HostCall) : Bool :=
  match c with
  | .queued _ => !w.slots.lock.isHeldBy me
  | .evicting _ _ i call | .writing _ _ i call => w.isCallStuck env me i call
  | .disposing _ i retirement | .closing _ i retirement => w.isRetirementStuck env me i retirement
  | .starting _ | .creating _ | .retiring _ | .draining _ => false

/-! ## Jobs -/

/-- Takes one job ahead by one step. -/
def advanceJob (w : World) (env : Environment) (me : JobId) : Job → World × Onward Job Outcome
  | .call i c =>
    match w.advanceCall env me i c with
    | (w, .going c) => (w, .going (.call i c))
    | (w, .done result) => (w, .done (.answered result))
  | .retire i r =>
    match w.advanceRetirement env me i r with
    | (w, .going r) => (w, .going (.retire i r))
    | (w, .done exit) => (w, .done (.retired exit))
  | .drive d =>
    match w.advanceDriver env me d with
    | (w, .going d) => (w, .going (.drive d))
    | (w, .done exit) => (w, .done (.drove exit))
  | .send s =>
    match w.advanceSending me s with
    | (w, .going s) => (w, .going (.send s))
    | (w, .done result) => (w, .done (.sent result))
  | .host c =>
    match w.advanceHost env me c with
    | (w, .going c) => (w, .going (.host c))
    | (w, .done result) => (w, .done (.hosted result))

/-- Whether a job is stuck: a step would change nothing. -/
def isJobStuck (w : World) (env : Environment) (me : JobId) : Job → Bool
  | .call i c => w.isCallStuck env me i c
  | .retire i r => w.isRetirementStuck env me i r
  | .drive d => w.isDriverStuck env me d
  | .send s => w.isSendingStuck me s
  | .host c => w.isHostStuck env me c

/-- One step of a job. A number without a job steps nowhere. -/
def advance (w : World) (env : Environment) (me : JobId) : World :=
  match w.job? me with
  | none => w
  | some job =>
    match w.advanceJob env me job with
    | (w, .going job) => { w with jobs := w.jobs.map fun e => if e.1 = me then (me, job) else e }
    | (w, .done outcome) =>
      { w with jobs := w.jobs.filter (·.1 ≠ me), outcomes := w.outcomes ++ [(me, outcome)] }

/-- Whether a job is at work and could take a step. -/
def canAdvance (w : World) (env : Environment) (me : JobId) : Bool :=
  match w.job? me with
  | some job => !w.isJobStuck env me job
  | none => false

/-- How many more steps a job can take on what it has. -/
def jobWork : Job → Nat
  | .call _ c => c.work
  | .retire _ r => r.work
  | .drive d => d.work
  | .send s => sendingWork s
  | .host c => c.work

/-- The sum of a quantity over a list. -/
def total {α : Type} (f : α → Nat) (l : List α) : Nat := l.foldr (fun a n => f a + n) 0

/-- More steps than all jobs together can take before every one of them is stuck. -/
def work (w : World) : Nat :=
  total (fun e => jobWork e.2) w.jobs +
    total (fun p => 6 * (p.evaluation.queue.length + p.build.queue.length)) w.source.pairs +
    Slots.liveWork * w.slots.live.size

end World

end SliceSync
