import SliceSync.World
/-!
# What jobs wait for

One step of a job can free several others. It does so in a fixed order, whoever got stuck first: the
news of a workspace goes out before its lock is passed on, and the streams and the exit of a driver come
to an end after both.
-/

namespace SliceSync

/-- What a stuck job waits for, in the order in which a step frees jobs. -/
inductive Wait
  /-- News: a first evaluation, a build, a request to unload, something on a stream. -/
  | news
  /-- A lock. -/
  | lock
  /-- The end of a driver or room in a stream. -/
  | ending
  deriving DecidableEq, Repr

/-- What a call on a workspace waits for. Once unload is requested that is the news for a call that heeds
it, also in the line for the lock. -/
def Call.wait (c : Call) (w : Workspace) : Wait :=
  if c.phase = .queued && (c.cutShort w).isNone then .lock else .news

namespace World

/-- What a call on the workspace in a place waits for. -/
def callWait (w : World) (i : Nat) (c : Call) : Wait :=
  match w.workspace? i with
  | some ws => c.wait ws
  | none => .news

def retirementWait (w : World) (i : Nat) : Retirement → Wait
  | .disposing c => w.callWait i c
  | .claiming | .joining => .ending

def jobWait (w : World) : Job → Wait
  | .call i c => w.callWait i c
  | .retire i r => w.retirementWait i r
  | .drive d =>
    match d.handing with
    | some c => w.callWait d.workspace c
    | none => .news
  | .send _ => .ending
  | .host (.evicting _ _ i c) | .host (.writing _ _ i c) => w.callWait i c
  | .host (.disposing _ i r) | .host (.closing _ i r) => w.retirementWait i r
  | .host _ => .lock

/-- Whether the job of a number is at work and waits for this. -/
def isWaitingFor (w : World) (wait : Wait) (me : JobId) : Bool := (w.job? me).any (w.jobWait · = wait)

end World

end SliceSync
