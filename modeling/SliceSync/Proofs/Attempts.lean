import SliceSync.Proofs.Lifecycle
import SliceSync.Proofs.Streams
/-!
# Updates that may fail

A call with an update, taken as far as it gets while nothing else happens at the workspace, is skipped, or
hangs on a batch that cannot be closed, or its handlers are called once and its batch closes, well or not
(`Workspace.attempts`). What the handlers remember and what the context was told stay in either case; the
update becomes the baseline only when the batch closes well.
-/

namespace SliceSync

/-- What a call finds: how its collaborators answer, and the session; and the versions it comes with. -/
structure Occasion where
  env : Environment
  session : Session
  versions : Versions := .empty

/-- The error of a handler, or of a batch that the context does not integrate. -/
def SyncError.ofBatch : SyncError → Bool
  | .handler .. | .batch _ => true
  | _ => false

/-- A refusal of the factory is told apart from the failures of handlers and batches. -/
def Environment.RefusesApart (env : Environment) : Prop :=
  ∀ error, env.refused = some error → error.ofBatch = false

theorem ContextCall.mutations_batch (l : List Mutation) :
    mutations (.startBatch :: l.map .mutate ++ [.endBatch]) = l := by
  simp

namespace Event

/-- The calls of handlers among some events. -/
def handlings (l : List Event) : List HandlerCall :=
  l.filterMap fun e =>
    match e with
    | .handled _ call => some call
    | _ => none

@[simp] theorem handlings_nil : handlings [] = [] := rfl

@[simp] theorem handlings_append (l m : List Event) : handlings (l ++ m) = handlings l ++ handlings m :=
  List.filterMap_append

@[simp] theorem handlings_context_cons (n : Nat) (call : ContextCall) (l : List Event) :
    handlings (.context n call :: l) = handlings l := rfl

end Event

namespace Effect

@[simp] theorem handlings_events (n : Nat) (effects : List Effect) :
    Event.handlings (effects.map (event n)) = calls effects := by
  induction effects with
  | nil => rfl
  | cons e rest ih =>
    cases e with
    | called call => exact congrArg (call :: ·) ih
    | mutate m => exact ih

end Effect

@[simp] theorem Call.handlings_report (setup : Setup) (c : Call) (result : Except SyncError Answer) :
    Event.handlings (c.report setup result) = [] := by
  unfold report
  split
  · split <;> rfl
  · rfl

@[simp] theorem Workspace.handlings_tell (w : Workspace) (versions : Versions) :
    Event.handlings (w.tell versions) = [] := by
  unfold tell
  cases w.owner <;> rfl

@[simp] theorem Workspace.handlings_enroll (setup : Setup) (w : Workspace) (u : Update) :
    Event.handlings (w.enroll setup u).2 = [] := by
  unfold enroll
  split
  · split <;> rfl
  · rfl

namespace Progress

/-- The error with which a call has ended, if it has. -/
def failure? : Progress → Option SyncError
  | .done (.error error) => some error
  | _ => none

/-- What a call that has ended well answers. -/
def answer? : Progress → Option Answer
  | .done (.ok answer) => some answer
  | _ => none

theorem failure?_eq_some_iff {p : Progress} {error : SyncError} :
    p.failure? = some error ↔ p = .done (.error error) := by
  cases p with
  | going c => simp [failure?]
  | done result => cases result <;> simp [failure?]

theorem answer?_eq_some_iff {p : Progress} {answer : Answer} : p.answer? = some answer ↔ p = .done (.ok answer) := by
  cases p with
  | going c => simp [answer?]
  | done result => cases result <;> simp [answer?]

end Progress

/-- What the context is told of a payload, besides what its handlers tell it. -/
def Payload.tells (x : Payload) (mutations : List Mutation) : List Mutation :=
  match x with
  | .evaluation _ => mutations
  | .build b => .setOptions b.arguments :: (mutations ++ [.setLastBuildSucceeded b.producedItems])

/-- These are the events of a batch in which the handlers had some effects. -/
structure Payload.Logged (x : Payload) (serial : Nat) (effects : List Effect) (events : List Event) : Prop where
  calls : Event.callsOf serial events = .startBatch :: (x.tells (Effect.mutations effects)).map .mutate ++ [.endBatch]
  handlings : Event.handlings events = Effect.calls effects

theorem Payload.Logged.mutations {x : Payload} {serial : Nat} {effects : List Effect} {events : List Event}
    (h : x.Logged serial effects events) :
    ContextCall.mutations (Event.callsOf serial events) = x.tells (Effect.mutations effects) := by
  rw [h.calls, ContextCall.mutations_batch]

namespace Workspace

/-- A call with a payload on some occasion. -/
def attempt (setup : Setup) (w : Workspace) (x : Payload) (o : Occasion) : Advance :=
  w.onUpdate setup o.env o.session ⟨o.versions, x⟩

/-- The update of a call. -/
def updateOf (call : Payload × Occasion) : Update := ⟨call.2.versions, call.1⟩

/-- What comes of a call. -/
def outcome (setup : Setup) (w : Workspace) (call : Payload × Occasion) : Processed where
  update := updateOf call
  events := (w.attempt setup call.1 call.2).events
  result := (w.attempt setup call.1 call.2).progress.result?

/-- The workspace when a call has been made, with what came of it. -/
def takes (setup : Setup) (w : Workspace) (call : Payload × Occasion) : Workspace × List Processed :=
  ((w.attempt setup call.1 call.2).workspace, [w.outcome setup call])

/-- What the slice is to the session of an occasion. -/
def activityOn (w : Workspace) (o : Occasion) : Activity := o.session.active.activityOf w.slice

/-- An update says nothing that is not held. -/
def KnowsUpdate (w : Workspace) (x : Payload) (o : Occasion) : Prop :=
  match x with
  | .evaluation e => w.Knows e (w.activityOn o)
  | .build b => w.KnowsBuild b (w.activityOn o)

/-- The round of calls that an update asks for. -/
def roundOf (w : Workspace) (x : Payload) (o : Occasion) (handlers : HandlerSet) : Round HandlerSet :=
  match x with
  | .evaluation e => handlers.applyBoth o.env (w.seenRules e) (w.seenItems e) (w.activityOn o)
  | .build b => handlers.applyArguments o.env (.between w.baseline.arguments b.arguments) (w.activityOn o)

/-- The workspace with other handlers of its context. -/
def withHandlers (w : Workspace) (handle : ContextHandle) (handlers : HandlerSet) : Workspace :=
  { w with context := some { handle with handlers } }

/-- The workspace when an update has been skipped. -/
def skipping (w : Workspace) (x : Payload) : Workspace :=
  match x with
  | .evaluation _ => w
  | .build _ => { w with buildIntegrated := true }

/-- The workspace when the batch of an update has closed well. -/
def integrating (w : Workspace) (x : Payload) (o : Occasion) : Workspace :=
  match x with
  | .evaluation e =>
    { w with baseline := w.baseline.evaluated e (w.activityOn o), evaluation := .integrated }
  | .build b => { w with baseline := w.baseline.built b (w.activityOn o), buildIntegrated := true }

/-- The workspace can take an update to the context that is there. -/
structure Ready (w : Workspace) (handle : ContextHandle) (x : Payload) : Prop extends w.Free where
  status : w.status = .initialized
  context : w.context = some handle
  evaluation : ∀ b, x = .build b → w.evaluation = .integrated

/-- The ways a call with an update can go that nothing disturbs. -/
inductive Attempts (w : Workspace) (handle : ContextHandle) (x : Payload) (o : Occasion) : Advance → Prop
  | skips (hk : w.KnowsUpdate x o) :
      Attempts w handle x o ⟨o.session, w.skipping x, w.tell o.versions, .done (.ok .done)⟩
  | hangs {c : Call} {a : Advance} (hk : ¬w.KnowsUpdate x o) (hg : o.env.gateOpen = false)
      (hp : a.progress = .going c) : Attempts w handle x o a
  | fails {error : SyncError} {events : List Event} (hk : ¬w.KnowsUpdate x o) (hg : o.env.gateOpen = true)
      (he : (w.roundOf x o handle.handlers).failure.or o.env.rejected = some error)
      (hl : x.Logged handle.serial (w.roundOf x o handle.handlers).effects events) :
      Attempts w handle x o
        ⟨o.session, w.withHandlers handle (w.roundOf x o handle.handlers).state, events, .done (.error error)⟩
  | ends {events : List Event} (hk : ¬w.KnowsUpdate x o) (hg : o.env.gateOpen = true)
      (he : (w.roundOf x o handle.handlers).failure.or o.env.rejected = none)
      (hl : x.Logged handle.serial (w.roundOf x o handle.handlers).effects events) :
      Attempts w handle x o
        ⟨o.session, (w.withHandlers handle (w.roundOf x o handle.handlers).state).integrating x o, events,
          .done (.ok .done)⟩

variable {setup : Setup} {w : Workspace} {handle : ContextHandle} {x : Payload} {o : Occasion}

theorem Ready.of_kind (h : w.Ready handle x) {versions : Versions}
    (hb : (⟨versions, x⟩ : Update).kind = .build) : w.evaluation = .integrated := by
  cases x with
  | evaluation e => cases hb
  | build b => exact h.evaluation b rfl

/-- An update that is known is skipped by its passage. -/
theorem receive_known (h : w.Ready handle x) (hk : w.KnowsUpdate x o) :
    w.taken.receive setup o.env o.session ⟨o.versions, x⟩ =
      ⟨o.session, w.taken.skipping x, w.tell o.versions, .finished (.ok .done)⟩ := by
  have hc : w.taken.context = some handle := h.context
  rw [receive_taken h.status]
  cases x with
  | evaluation e =>
    have hk : w.taken.Knows e (o.session.active.activityOf w.taken.slice) := ⟨hk.rules, hk.items, hk.activity⟩
    dsimp only
    rw [receiveEvaluation_some hc, evaluate_of_knows hk]
    simp only [skipping]
    rfl
  | build b =>
    have hk : w.taken.KnowsBuild b (o.session.active.activityOf w.taken.slice) :=
      ⟨hk.arguments, hk.outcome, hk.activity⟩
    dsimp only
    rw [receiveBuild_of_knows hk]
    simp only [skipping]
    rfl

/-- An update that is not known opens a batch, in which its handlers are called. -/
theorem receive_unknown (h : w.Ready handle x) (hk : ¬w.KnowsUpdate x o) :
    let v := w.taken.withHandlers handle (w.roundOf x o handle.handlers).state
    ∃ events commit, w.taken.receive setup o.env o.session ⟨o.versions, x⟩ =
        ⟨o.session, v, events, .closing ⟨handle.serial, (w.roundOf x o handle.handlers).failure, commit⟩⟩ ∧
      Event.callsOf handle.serial events =
        .startBatch :: (x.tells (Effect.mutations (w.roundOf x o handle.handlers).effects)).map .mutate ∧
      Event.handlings events = Effect.calls (w.roundOf x o handle.handlers).effects ∧
      v.commit commit = (v.integrating x o, v.tell o.versions, .done) := by
  have hc : w.taken.context = some handle := h.context
  rw [receive_taken h.status]
  cases x with
  | evaluation e =>
    have hk : ¬w.taken.Knows e (o.session.active.activityOf w.taken.slice) :=
      fun hk' => hk ⟨hk'.rules, hk'.items, hk'.activity⟩
    dsimp only
    rw [receiveEvaluation_some hc, evaluate_of_not_knows fun _ => hk]
    simp only [roundOf, Payload.tells, integrating]
    refine ⟨_, _, rfl, ?_, ?_, rfl⟩
    · simp only [Event.callsOf_context_cons, Bool.false_eq_true, if_false, List.nil_append, Effect.callsOf_events]
      rfl
    · simp only [Event.handlings_context_cons, Bool.false_eq_true, if_false, List.nil_append, Effect.handlings_events]
      rfl
  | build b =>
    have hk : ¬w.taken.KnowsBuild b (o.session.active.activityOf w.taken.slice) :=
      fun hk' => hk ⟨hk'.arguments, hk'.outcome, hk'.activity⟩
    dsimp only
    rw [receiveBuild_of_not_knows hk, hc]
    simp only [roundOf, Payload.tells, integrating]
    refine ⟨_, _, rfl, ?_, ?_, rfl⟩
    · simp only [Event.callsOf_context_cons, Event.callsOf_append, Event.callsOf_nil, Effect.callsOf_events,
        List.map_cons, List.map_append, List.map_nil]
      rfl
    · simp only [Event.handlings_context_cons, Event.handlings_append, Event.handlings_nil, Effect.handlings_events,
        List.append_nil]
      rfl

/-- A batch in which something failed, or which is rejected, leaves the workspace as it is. -/
theorem close_badly {env : Environment} {session : Session} {w : Workspace} {batch : OpenBatch} {error : SyncError}
    (he : batch.failure.or env.rejected = some error) :
    w.close env session batch =
      ⟨session, w, [.context batch.serial .endBatch], .finished (.error error)⟩ := by
  simp only [close, he]

/-- A call whose batch cannot be closed goes on. -/
theorem onUpdate_of_stuck {env : Environment} {session session' : Session} {w w' : Workspace} {u : Update}
    {events : List Event}
    (h : w.Free) (he : u.kind = .build → w.evaluation = .integrated) {batch : OpenBatch} (hg : env.gateOpen = false)
    (hq : w.taken.receive setup env session u = ⟨session', w', events, .closing batch⟩) :
    ∃ c, (w.onUpdate setup env session u).progress = .going c := by
  have hclosing : Call.advance setup env 0 ⟨.update u, .closing batch⟩ session' w' =
      ⟨session', w', [], .going ⟨.update u, .closing batch⟩⟩ := by
    simp only [Call.advance, hg, Bool.false_eq_true, if_false]
  rw [onUpdate_eq_carry h he, Call.carry, advance_entering h, hq]
  simp only [Call.conclude]
  rw [Call.carry, hclosing]
  simp only
  rw [Call.carry, hclosing]
  exact ⟨_, rfl⟩

/-- A call with an update goes in one of these ways. -/
theorem attempts (h : w.Ready handle x) : w.Attempts handle x o (w.attempt setup x o) := by
  by_cases hk : w.KnowsUpdate x o
  · have hlock : ({ w.taken.skipping x with lock := (w.taken.skipping x).lock.release } : Workspace) =
        w.skipping x := by
      unfold skipping
      cases w
      cases h.lock
      cases x <;> rfl
    rw [attempt, onUpdate_of_finished h.toFree h.of_kind (receive_known h hk), hlock]
    simp only [Call.report, List.append_nil]
    exact .skips hk
  · obtain ⟨events, commit, hq, hm, hh, hcommit⟩ := receive_unknown h hk
    cases hg : o.env.gateOpen with
    | false =>
      obtain ⟨c, hgo⟩ := onUpdate_of_stuck h.toFree h.of_kind hg hq
      exact .hangs hk hg hgo
    | true =>
      have logged (more : List Event) (hmore : Event.callsOf handle.serial more = [])
          (hmore' : Event.handlings more = []) :
          x.Logged handle.serial (w.roundOf x o handle.handlers).effects
            (events ++ (.context handle.serial .endBatch :: more)) := by
        constructor
        · rw [Event.callsOf_append, Event.callsOf_context_cons, hm, hmore]
        · rw [Event.handlings_append, Event.handlings_context_cons, hh, hmore', List.append_nil]
      cases he : (w.roundOf x o handle.handlers).failure.or o.env.rejected with
      | some error =>
        have hlock : ({ w.taken.withHandlers handle (w.roundOf x o handle.handlers).state with
            lock := w.taken.lock.release } : Workspace) =
              w.withHandlers handle (w.roundOf x o handle.handlers).state := by
          cases w
          cases h.lock
          rfl
        have hend := onUpdate_of_closing h.toFree h.of_kind hg hq (close_badly he)
        rw [attempt, hend]
        exact hlock ▸ .fails hk hg he (logged _ (Call.callsOf_report ..) (Call.handlings_report ..))
      | none =>
        obtain ⟨hf, hj⟩ := Option.or_eq_none_iff.1 he
        have hclose : (w.taken.withHandlers handle (w.roundOf x o handle.handlers).state).close o.env o.session
            ⟨handle.serial, (w.roundOf x o handle.handlers).failure, commit⟩ =
              ⟨o.session, (w.taken.withHandlers handle (w.roundOf x o handle.handlers).state).integrating x o,
                .context handle.serial .endBatch :: w.tell o.versions, .finished (.ok .done)⟩ := by
          rw [close_well hf hj, hcommit]
          rfl
        have hlock : ({ (w.taken.withHandlers handle (w.roundOf x o handle.handlers).state).integrating x o with
            lock := ((w.taken.withHandlers handle
              (w.roundOf x o handle.handlers).state).integrating x o).lock.release } : Workspace) =
              (w.withHandlers handle (w.roundOf x o handle.handlers).state).integrating x o := by
          unfold integrating
          cases w
          cases h.lock
          cases x <;> rfl
        have hend := onUpdate_of_closing h.toFree h.of_kind hg hq hclose
        rw [attempt, hend, hlock]
        refine .ends hk hg he (logged (w.tell o.versions ++ Call.report _ _ _) ?_ ?_)
        · rw [Event.callsOf_append, callsOf_tell, Call.callsOf_report]
          rfl
        · rw [Event.handlings_append, handlings_tell, Call.handlings_report]
          rfl

/-- A build waits for the first evaluation. -/
theorem attempt_of_pending (setup : Setup) (h : w.Free) (he : w.evaluation = .pending) (b : Build) (o : Occasion) :
    ∃ c, (w.attempt setup (.build b) o).progress = .going c := by
  let u : Update := ⟨o.versions, .build b⟩
  have hstart : Call.start (.update u) = ⟨.update u, .awaitingEvaluation⟩ := rfl
  have hstuck : Call.advance setup o.env 0 ⟨.update u, .awaitingEvaluation⟩ o.session w =
      ⟨o.session, w, [], .going ⟨.update u, .awaitingEvaluation⟩⟩ := by
    simp only [Call.advance, h.unload, he]
  rw [attempt, onUpdate, hstart]
  simp only [Call.work, Call.carry, hstuck]
  exact ⟨_, rfl⟩

/-- A call with a build that ends, other than as refused, finds the workspace with its context. -/
theorem ready_of_build {b : Build} (hr : w.Regular) (h : w.Free)
    {result : Except SyncError Answer} (hp : (w.attempt setup (.build b) o).progress = .done result)
    (hresult : ∀ error, result = .error error → error.ofBatch = true) : ∃ handle, w.Ready handle (.build b) := by
  let u : Update := ⟨o.versions, .build b⟩
  have hstart : Call.start (.update u) = ⟨.update u, .awaitingEvaluation⟩ := rfl
  cases he : w.evaluation with
  | pending =>
    obtain ⟨c, hgo⟩ := attempt_of_pending setup h he b o
    cases hp.symm.trans hgo
  | failed =>
    have hfailed : Call.advance setup o.env 0 ⟨.update u, .awaitingEvaluation⟩ o.session w =
        Call.finish setup ⟨.update u, .awaitingEvaluation⟩ o.session w (.error .failed) := by
      simp only [Call.advance, h.unload, he]
    rw [attempt, onUpdate, hstart] at hp
    simp only [Call.work, Call.carry, hfailed, Call.finish] at hp
    cases hp
    cases hresult _ rfl
  | integrated =>
    rcases hr.integrated he with ⟨hs, hc⟩ | hs
    · obtain ⟨handle, hhandle⟩ := Option.isSome_iff_exists.1 hc
      exact ⟨handle, h, hs, hhandle, fun _ _ => he⟩
    · have hq : w.taken.receive setup o.env o.session u =
          ⟨o.session, w.taken, [], .finished (.error .disposed)⟩ := by
        have hstatus : w.taken.status = .disposed := hs
        have hunload : w.taken.unload.check = .ok () := by
          have : w.taken.unload.cause = none := h.unload
          rw [UnloadToken.check, this]
        simp only [receive, admits, hstatus, hunload]
      rw [attempt, onUpdate_of_finished h (fun _ => he) hq] at hp
      cases hp
      cases hresult _ rfl

end Workspace

end SliceSync
