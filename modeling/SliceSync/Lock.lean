/-!
# Locks

A lock is held by one job and passed on in the order in which it was asked for. A job that gives up
waiting leaves the line; if the lock had already been passed to it, it passes it on.
-/

namespace SliceSync

/-- The number by which a job is known. -/
abbrev JobId : Type := Nat

/-- Who holds a lock and who waits for it. -/
structure Lock where
  holder : Option JobId := none
  waiting : List JobId := []
  deriving DecidableEq, Repr, Inhabited

namespace Lock

/-- Passes the lock to the job that has waited longest. -/
def release (l : Lock) : Lock :=
  match l.waiting with
  | [] => { holder := none, waiting := [] }
  | next :: rest => { holder := some next, waiting := rest }

/-- Takes a free lock, or joins the line. -/
def request (l : Lock) (job : JobId) : Lock :=
  match l.holder with
  | none => { l with holder := some job }
  | some _ => { l with waiting := l.waiting ++ [job] }

/-- Gives up waiting. -/
def leave (l : Lock) (job : JobId) : Lock :=
  if l.holder = some job then l.release else { l with waiting := l.waiting.filter (· ≠ job) }

def isHeldBy (l : Lock) (job : JobId) : Bool := l.holder = some job

end Lock

end SliceSync
