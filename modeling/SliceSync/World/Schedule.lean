import SliceSync.World.Wait
/-!
# The schedule

The jobs of a world are run one at a time. The job at the head of the line takes steps until it is
stuck or ends; jobs that a step frees or begins join the end of the line, new ones last. The freed ones
join it in the order of what they waited for, those that waited for the same in the order they got
stuck. `settle` goes on until the line is empty: then every job is stuck.
-/

namespace SliceSync

/-- A world with the order in which its jobs are run. -/
structure Schedule where
  world : World
  /-- The jobs that can go on, the running one first. -/
  line : List JobId := []
  /-- The jobs that are stuck, in the order they got stuck. -/
  stuck : List JobId := []

namespace Schedule

def spawn (s : Schedule) (job : Job) : Schedule :=
  { s with world := s.world.spawn job, line := s.line ++ [s.world.nextJob] }

/-- Lets the jobs that a change of the world or of the environment has freed join the line. -/
def wake (s : Schedule) (env : Environment) : Schedule :=
  let freed := s.stuck.filter (s.world.canAdvance env)
  let among (wait : Wait) := freed.filter (s.world.isWaitingFor wait)
  { s with
    line := s.line ++ among .news ++ among .lock ++ among .ending
    stuck := s.stuck.filter fun id => !s.world.canAdvance env id }

/-- Sets aside the jobs at the head of the line that cannot go on. -/
def park (s : Schedule) (env : Environment) : List JobId → Schedule
  | [] => { s with line := [] }
  | id :: rest =>
    if s.world.canAdvance env id then { s with line := id :: rest }
    else if (s.world.job? id).isSome then park { s with stuck := s.stuck ++ [id] } env rest
    else park s env rest

def step (s : Schedule) (env : Environment) : Schedule :=
  match s.line with
  | [] => s
  | id :: _ =>
    let world := s.world.advance env id
    let begun := List.range' s.world.nextJob (world.nextJob - s.world.nextJob)
    let s := wake { s with world } env
    { s with line := s.line ++ begun }

/-- Runs up to so many steps. -/
def run (env : Environment) : (steps : Nat) → Schedule → Schedule
  | 0, s => s
  | steps + 1, s =>
    let s := s.park env s.line
    match s.line with
    | [] => s
    | _ :: _ => run env steps (s.step env)

/-- Runs until every job is stuck. -/
def settle (s : Schedule) (env : Environment) : Schedule :=
  let s := s.wake env
  run env (s.world.work + 1) s

end Schedule

end SliceSync
