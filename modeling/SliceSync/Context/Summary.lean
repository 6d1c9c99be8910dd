import SliceSync.Context.Content
import SliceSync.Session
/-!
# Summaries of contexts

What can be told of a context from the events of a session: what it was created with, what it holds,
how many batches were closed and whether it is gone.
-/

namespace SliceSync

/-- The calls a context received, in order. -/
def Event.callsOf (serial : Nat) (events : List Event) : List ContextCall :=
  events.filterMap fun e =>
    match e with
    | .context n call => if n = serial then some call else none
    | _ => none

/-- The mutations among calls, in order. -/
def ContextCall.mutations (calls : List ContextCall) : List Mutation :=
  calls.filterMap fun c =>
    match c with
    | .mutate mutation => some mutation
    | _ => none

/-- A context as it stands after some events. -/
structure ContextSummary where
  id : ContextId
  language : String
  assemblyName : String
  content : Content
  batches : Nat
  disposed : Bool
  deriving DecidableEq

namespace ContextSummary

/-- A context created with `params` that received `calls`. -/
def ofCalls (params : CreationParams) (calls : List ContextCall) : ContextSummary where
  id := params.id
  language := params.language
  assemblyName := params.assemblyName
  content := (Content.ofParams params).replay (ContextCall.mutations calls)
  batches := calls.count .endBatch
  disposed := calls.contains .dispose

/-- The context of an id; of several the one created last. -/
def ofEvents? (events : List Event) (id : ContextId) : Option ContextSummary :=
  let created := events.filterMap fun e =>
    match e with
    | .created serial params => if params.id = id then some (serial, params) else none
    | _ => none
  created.getLast?.map fun c => ofCalls c.2 (Event.callsOf c.1 events)

end ContextSummary

end SliceSync
