import SliceSync.Handler
import SliceSync.Error
/-!
# The handlers of one context

A `HandlerSet` holds the handlers made for one context and calls them in order. A handler that fails
ends the round: no later one is called, and what the earlier ones did stays. When the context goes,
each handler drops what it remembers, once.
-/

namespace SliceSync

/-- What calling a handler amounts to. -/
inductive Effect
  | called (call : HandlerCall)
  | mutate (mutation : Mutation)
  deriving DecidableEq

/-- What a round of calls left behind. -/
structure Round (σ : Type) where
  state : σ
  effects : List Effect
  failure : Option SyncError

/-- The handlers made for one context. -/
structure HandlerSet where
  /-- Each with the rule it is registered for. -/
  evaluation : List (String × EvaluationHandler)
  arguments : List ArgumentHandler
  items : List ItemHandler
  released : Bool := false
  deriving DecidableEq

/-- Calls each in turn, counting places from `position`, up to the first that fails. -/
def callUntilFailure {η : Type} (call : Nat → η → Round η) (position : Nat) : List η → Round (List η)
  | [] => ⟨[], [], none⟩
  | h :: rest =>
    let first := call position h
    match first.failure with
    | some error => ⟨first.state :: rest, first.effects, some error⟩
    | none =>
      let others := callUntilFailure call (position + 1) rest
      ⟨first.state :: others.state, first.effects ++ others.effects, others.failure⟩

/-- The round of a handler from outside: the environment says what it does. -/
def callExternal {η : Type} (env : Environment) (h : η) (call : HandlerCall) : Round η :=
  let reply := env.reply call
  ⟨h, .called call :: reply.mutations.map .mutate, reply.error? call.name⟩

namespace HandlerSet

/-- Calls one handler of evaluations, if its rule is among the changed ones. -/
def callEvaluation (env : Environment) (rules : NameMap Change) (activity : Activity) (position : Nat)
    (h : String × EvaluationHandler) : Round (String × EvaluationHandler) :=
  match rules.get? h.1 with
  | none => ⟨h, [], none⟩
  | some change =>
    if !change.hasChanges then ⟨h, [], none⟩
    else
      let call : HandlerCall := ⟨h.2.name, h.2.isExternal, position, .evaluation h.1 change, activity⟩
      match h.2 with
      | .projectProperties slice =>
        ⟨h, .called call :: (propertyMutations slice change).map .mutate, none⟩
      | .external _ => callExternal env h call

/-- Calls one handler of source items. -/
def callItems (env : Environment) (changes : Listing String Change) (activity : Activity)
    (position : Nat) (h : ItemHandler) : Round ItemHandler :=
  let call : HandlerCall := ⟨h.name, h.isExternal, position, .items changes, activity⟩
  match h with
  | .files name files =>
    let followed := files.follow changes
    ⟨.files name followed.1, .called call :: followed.2.map .mutate, none⟩
  | .external _ => callExternal env h call

/-- Calls one handler of argument lists. -/
def callArguments (env : Environment) (difference : ArgumentDifference) (activity : Activity)
    (position : Nat) (h : ArgumentHandler) : Round ArgumentHandler :=
  let call : HandlerCall := ⟨h.name, h.isExternal, position, .arguments difference, activity⟩
  match h with
  | .references name references =>
    let followed := references.follow difference
    ⟨.references name followed.1, .called call :: followed.2.map .mutate, none⟩
  | .external _ => callExternal env h call

def applyEvaluation (s : HandlerSet) (env : Environment) (rules : NameMap Change) (activity : Activity) :
    Round HandlerSet :=
  let round := callUntilFailure (callEvaluation env rules activity) 0 s.evaluation
  ⟨{ s with evaluation := round.state }, round.effects, round.failure⟩

def applyItems (s : HandlerSet) (env : Environment) (changes : Listing String Change)
    (activity : Activity) : Round HandlerSet :=
  let round := callUntilFailure (callItems env changes activity) 0 s.items
  ⟨{ s with items := round.state }, round.effects, round.failure⟩

def applyArguments (s : HandlerSet) (env : Environment) (difference : ArgumentDifference)
    (activity : Activity) : Round HandlerSet :=
  let round := callUntilFailure (callArguments env difference activity) 0 s.arguments
  ⟨{ s with arguments := round.state }, round.effects, round.failure⟩

/-- The handlers with their names, in the order in which they drop what they remember. -/
def members (s : HandlerSet) : List (String × Bool) :=
  s.evaluation.map (fun h => (h.2.name, h.2.isExternal)) ++
    s.arguments.map (fun h => (h.name, h.isExternal)) ++ s.items.map fun h => (h.name, h.isExternal)

/-- Forgets the paths a handler of source items remembers. -/
def forgetItems : ItemHandler → ItemHandler
  | .files name files => .files name { files with tracked := ∅ }
  | h => h

def forgetArguments : ArgumentHandler → ArgumentHandler
  | .references name references => .references name { references with counts := ∅ }
  | h => h

/-- Lets every handler drop what it remembers, unless that was done: the handlers asked, in order. -/
def release (s : HandlerSet) : HandlerSet × List (String × Bool) :=
  if s.released then (s, [])
  else
    ({ s with
        arguments := s.arguments.map forgetArguments
        items := s.items.map forgetItems
        released := true }, s.members)

def size (s : HandlerSet) : Nat := s.evaluation.length + s.arguments.length + s.items.length

end HandlerSet

end SliceSync
