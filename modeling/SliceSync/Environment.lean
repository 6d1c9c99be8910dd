import SliceSync.Update
import SliceSync.Activity
import SliceSync.Error
/-!
# The environment

Contexts, their factory, handlers from outside and those who send updates are not ours. How they answer is
given to every step as an `Environment`: whether the factory refuses, what a handler does with a call,
whether a batch can close now and whether it is taken, and so on. A step may be given any environment,
so a statement about all steps is one about all collaborators.

Whoever fails may answer with any error, also with one of teardown or of another's kind (`Failure.raised`). The error
of each role (`Environment.refused`, `Reply.error?`, `Environment.rejected`, `Environment.unsubscribed`) is what the
steps read. What only holds when everyone keeps to its own kind says so.
-/

namespace SliceSync

/-- What a handler is told. -/
inductive HandlerInput
  | evaluation (rule : String) (change : Change)
  | arguments (difference : ArgumentDifference)
  | items (changes : Listing String Change)
  deriving DecidableEq

/-- One call of a handler. -/
structure HandlerCall where
  name : String
  /-- Whether the handler comes from outside. -/
  external : Bool
  /-- Its place among the handlers of its kind. -/
  position : Nat
  input : HandlerInput
  /-- What the slice drives at the time of the call. -/
  activity : Activity
  deriving DecidableEq

/-- How a collaborator fails. -/
inductive Failure
  /-- With an error of the kind meant for its role, of which it gives the description. -/
  | described (message : String)
  /-- With an error of its choice. -/
  | raised (error : SyncError)
  deriving DecidableEq

instance : Coe String Failure := ⟨.described⟩

/-- The error of a failure, where `own` is the kind meant for the role. -/
def Failure.error (own : String → SyncError) : Failure → SyncError
  | .described message => own message
  | .raised error => error

/-- What a handler from outside does with a call. -/
structure Reply where
  mutations : List Mutation := []
  /-- How it fails, if it does. -/
  failure : Option Failure := none
  deriving DecidableEq, Inhabited

/-- The error with which a handler of that name answers. -/
def Reply.error? (reply : Reply) (name : String) : Option SyncError :=
  reply.failure.map (·.error (.handler name))

/-- How the collaborators answer during one step. -/
structure Environment where
  /-- How the context factory refuses, if it does. -/
  refusal : Option Failure := none
  /-- What a handler from outside does with a call. -/
  reply : HandlerCall → Reply := fun _ => {}
  /-- Whether a batch that is to be closed can be closed now. -/
  gateOpen : Bool := true
  /-- How a closing batch is rejected, if it is. -/
  rejection : Option Failure := none
  /-- Whether a context that is being disposed can finish now. -/
  disposalOpen : Bool := true
  /-- How the updates of a slice are refused to a follower, if they are. -/
  unavailable : Slice → Option Failure := fun _ => none
  /-- Whether there is a scheduler to run the drivers of new workspaces. -/
  scheduling : Bool := true

instance : Inhabited Environment := ⟨{}⟩

namespace Environment

variable (env : Environment)

/-- The error with which the context factory refuses. -/
def refused : Option SyncError :=
  env.refusal.map (·.error .contextCreation)

/-- The error with which a closing batch is rejected. -/
def rejected : Option SyncError :=
  env.rejection.map (·.error .batch)

/-- The error with which the updates of a slice are refused to a follower. -/
def unsubscribed (slice : Slice) : Option SyncError :=
  (env.unavailable slice).map (·.error .subscription)

@[simp] theorem refused_eq_none : env.refused = none ↔ env.refusal = none :=
  Option.map_eq_none_iff

@[simp] theorem rejected_eq_none : env.rejected = none ↔ env.rejection = none :=
  Option.map_eq_none_iff

@[simp] theorem unsubscribed_eq_none (slice : Slice) : env.unsubscribed slice = none ↔ env.unavailable slice = none :=
  Option.map_eq_none_iff

end Environment

end SliceSync
