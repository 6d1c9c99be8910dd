import SliceSync.Scenario
import SliceSync.Report
import SliceSync.World.Schedule
/-!
# Replay

A scenario is replayed in a world of its own. A routine has the host take the scenario's slices, begins a sender for each
script, waits for all senders, then for the driver of each slice, and has the host shut down. The jobs go on beside it:
a step of a replay is one of any job that can go on, or one of the routine up to where it may have to wait again
(`Replaying.Step`). `Scenario.replay` takes them in one of all these orders. The report is read off the world: exits and
flags before the shutdown, contexts after it.
-/

namespace SliceSync

/-- What is known of a slice before the shutdown. -/
structure SliceOutcome where
  slice : Slice
  exit : Option DriverExit
  evaluationIntegrated : Bool
  buildIntegrated : Bool
  processed : Nat
  contextId : Option ContextId
  deriving DecidableEq

/-- The report on the slice, with the events of the whole replay. -/
def SliceOutcome.report (o : SliceOutcome) (events : List Event) : SliceReport where
  slice := o.slice
  exit := o.exit
  evaluationIntegrated := o.evaluationIntegrated
  buildIntegrated := o.buildIntegrated
  processed := o.processed
  context := o.contextId.bind (ContextSummary.ofEvents? events)

namespace World

/-- The events so far, without their origins. -/
def events (w : World) : List Event := w.log.map (·.event)

/-- How often updates were told to be processed for an owner. -/
def processedFor (w : World) (owner : String) : Nat :=
  w.events.countP fun e =>
    match e with
    | .processed o _ => o = owner
    | _ => false

/-- How the driver in a place ended, once it did. -/
def exitOf (w : World) (i : Nat) : Option DriverExit := (w.hosted[i]?).bind (·.exit)

/-- Whether somebody has claimed the exit of the driver in a place. -/
def isClaimed (w : World) (i : Nat) : Bool := (w.hosted[i]?).any (·.claimed)

/-- Claims the exit of the driver in a place; it can be claimed once. -/
def claimExit (w : World) (i : Nat) : World := w.modifyHosted i fun h => { h with claimed := true }

/-- What is known of a slice whose workspace is in a place, its driver having ended like this. -/
def outcomeOf (w : World) (scenario : Scenario) (slice : Slice) (i : Nat) (exit : Option DriverExit) : Option SliceOutcome :=
  (w.workspace? i).map fun ws =>
    { slice
      exit
      evaluationIntegrated := ws.evaluation = .integrated
      buildIntegrated := ws.buildIntegrated
      processed := w.processedFor (scenario.configured slice).ownerTag
      contextId := ws.contextId }

/-- Whether streams were opened since that are longer than streams can be. -/
def overruns (w since : World) : Bool :=
  since.source.pairs.length < w.source.pairs.length && !w.source.canOpen

end World

namespace Scenario

/-- What the host is asked for in the beginning. -/
def hostRequest (s : Scenario) : HostRequest :=
  match s.active with
  | some active => .activate s.slices active
  | none => .setSlices s.slices

/-- Begins the sender of a script. The feed is closed, so that the streams end with the sender. -/
def feed (scenario : Scenario) (w : World) (script : Script) : World :=
  let (source, pair) := w.source.sender script.slice
  let updates := script.updates (scenario.configured script.slice)
  { w with source := source.close script.slice }.spawn (.send { pair, pending := updates })

end Scenario

/-- Where the routine of a replay stands, and what it waits for. -/
inductive Routine
  /-- It waits for the host to take the slices, which is the first job. -/
  | opening
  /-- These scripts are still to be fed. -/
  | feeding (scripts : List Script)
  /-- It waits for these senders. -/
  | sending (senders : List JobId)
  /-- It waits for the slots, to ask for the workspaces of these slices. -/
  | asking (slices : List Slice)
  /-- It waits for the driver of a slice, whose workspace is in that place. -/
  | joining (slice : Slice) (place : Nat) (slices : List Slice)
  /-- It waits for the host to shut down. -/
  | closing (shutdown : JobId)
  | returned
  /-- The host has not taken the slices. -/
  | failed (error : SyncError)
  | panicked

/-- Whether the routine has come to its end. -/
def Routine.isOver : Routine → Bool
  | .returned | .failed _ | .panicked => true
  | _ => false

/-- A replay under way. -/
structure Replaying where
  world : World
  routine : Routine := .opening
  /-- The senders begun so far. -/
  senders : List JobId := []
  /-- What was found out about the slices so far. -/
  outcomes : List SliceOutcome := []

namespace Replaying

variable (scenario : Scenario)

/-- Notes how the driver of a slice ended, and goes on to the other slices. -/
def note (r : Replaying) (slice : Slice) (place : Nat) (exit : Option DriverExit) (rest : List Slice) : Replaying :=
  { r with
    routine := .asking rest
    outcomes := r.outcomes ++ (r.world.outcomeOf scenario slice place exit).toList }

/-- The next step of the routine, if it neither waits nor is over. -/
def proceed? (r : Replaying) : Option Replaying :=
  match r.routine with
  | .opening =>
    match r.world.outcome? 0 with
    | none => none
    | some (.hosted (.error error)) => some { r with routine := .failed error }
    | some _ => some { r with routine := .feeding scenario.scripts }
  | .feeding [] => some { r with routine := .sending r.senders }
  | .feeding (script :: rest) =>
    some
      { r with
        world := scenario.feed r.world script
        routine := .feeding rest
        senders := r.senders ++ [r.world.nextJob] }
  | .sending [] => some { r with routine := .asking scenario.slices }
  | .sending (sender :: rest) => (r.world.outcome? sender).map fun _ => { r with routine := .sending rest }
  | .asking [] =>
    some { r with world := r.world.spawn (.host (.starting .shutdown)), routine := .closing r.world.nextJob }
  | .asking (slice :: rest) =>
    if r.world.slots.lock.holder.isSome then none
    else
      match r.world.handleOf slice with
      | none => some { r with routine := .asking rest }
      | some place =>
        if r.world.isClaimed place then some (r.note scenario slice place none rest)
        else some { r with world := r.world.claimExit place, routine := .joining slice place rest }
  | .joining slice place rest => (r.world.exitOf place).map fun exit => r.note scenario slice place (some exit) rest
  | .closing shutdown => (r.world.outcome? shutdown).map fun _ => { r with routine := .returned }
  | .returned | .failed _ | .panicked => none

/-- What a step comes to. Opening streams that are too long ends the program. -/
def goes (r next : Replaying) : Replaying :=
  if next.world.overruns r.world then { r with routine := .panicked } else next

/-- A step of a replay: one of a job that can go on while the routine is not over, or one of the routine. -/
inductive Step (r : Replaying) : Replaying → Prop
  | job {me : JobId} (hr : r.routine.isOver = false) (hc : r.world.canAdvance {} me = true) :
      Step r (r.goes { r with world := r.world.advance {} me })
  | routine {next : Replaying} (h : r.proceed? scenario = some next) : Step r (r.goes next)

/-- Where a replay can get to in so many steps, in whatever order they are taken. -/
inductive Reaches (r : Replaying) : Nat → Replaying → Prop
  | refl : Reaches r 0 r
  | step {n : Nat} {r' r'' : Replaying} (h : Reaches r n r') (hs : r'.Step scenario r'') : Reaches r (n + 1) r''

/-- More steps than the routine has before it, with those of the jobs that it begins. -/
def routineWork (r : Replaying) : Nat :=
  let asking (slices : List Slice) := 2 * slices.length + 2 + (HostCall.starting .shutdown).work
  let sending (senders : Nat) := senders + 1 + asking scenario.slices
  let feeding (scripts : List Script) :=
    World.total (fun s => 2 + World.sendingWork { pair := 0, pending := s.updates (scenario.configured s.slice) }) scripts +
      1 + sending r.senders.length
  match r.routine with
  | .opening => 1 + feeding scenario.scripts
  | .feeding scripts => feeding scripts
  | .sending senders => sending senders.length
  | .asking slices => asking slices
  | .joining _ _ slices => 1 + asking slices
  | .closing _ => 1
  | .returned | .failed _ | .panicked => 0

/-- More steps than a replay has before it. -/
def work (r : Replaying) : Nat := r.world.work + r.routineWork scenario

/-- Takes a replay to its end: the routine goes on as far as it can, then all jobs until they are stuck, and so forth. -/
def play : (turns : Nat) → (line stuck : List JobId) → Replaying → Replaying
  | 0, _, _, r => r
  | turns + 1, line, stuck, r =>
    match r.proceed? scenario with
    | some next =>
      let begun := List.range' r.world.nextJob (next.world.nextJob - r.world.nextJob)
      play turns (line ++ begun) stuck (r.goes next)
    | none =>
      if r.routine.isOver then r
      else
        let s := Schedule.settle { world := r.world, line, stuck } {}
        play turns s.line s.stuck (r.goes { r with world := s.world })

def report (r : Replaying) : Report where
  project := scenario.project
  active := scenario.active
  slices := r.outcomes.map (·.report r.world.events)

end Replaying

namespace Scenario

/-- A replay begins with a call on the host. -/
def start (scenario : Scenario) (settings : Settings) : Replaying where
  world := (World.initial { settings }).spawn (.host (.starting scenario.hostRequest))

def replay (scenario : Scenario) (settings : Settings) : Report :=
  let start := scenario.start settings
  (start.play scenario (start.work scenario + 1) [0] []).report scenario

end Scenario

end SliceSync
