import SliceSync.Context.Summary
import SliceSync.Workspace.Call
/-!
# What one step of a call does

A step of a call either stays clear of the lock or is a passage: what its request does on getting the
lock, the closing of its batch, or the end of a release. `Call.advances` lists the ways a step can go,
`Workspace.receives` the ways an update can go once it has the lock. Later modules argue by these cases
and leave the definitions closed.
-/

namespace SliceSync

/-! ## The calls that contexts receive -/

namespace Event

theorem callsOf_append (n : Nat) (l m : List Event) : callsOf n (l ++ m) = callsOf n l ++ callsOf n m :=
  List.filterMap_append

/-- Only contexts receive calls; what else happens leaves them alone. -/
theorem callsOf_eq_nil {n : Nat} {l : List Event} (h : ∀ e ∈ l, ∀ call, e ≠ .context n call) :
    callsOf n l = [] := by
  refine List.filterMap_eq_nil_iff.2 fun e he => ?_
  cases e with
  | context m call =>
    by_cases hm : m = n
    · exact absurd (hm ▸ rfl) (h _ he call)
    · simp [hm]
  | _ => rfl

@[simp] theorem callsOf_nil (n : Nat) : callsOf n [] = [] := rfl

@[simp] theorem callsOf_context_cons (n : Nat) (call : ContextCall) (l : List Event) :
    callsOf n (.context n call :: l) = call :: callsOf n l := by
  simp [callsOf]

theorem callsOf_context_cons_of_ne {n m : Nat} (h : m ≠ n) (call : ContextCall) (l : List Event) :
    callsOf n (.context m call :: l) = callsOf n l := by
  simp [callsOf, h]

end Event

namespace ContextCall

@[simp] theorem mutations_append (l m : List ContextCall) :
    mutations (l ++ m) = mutations l ++ mutations m := List.filterMap_append

@[simp] theorem mutations_map_mutate (l : List Mutation) : mutations (l.map .mutate) = l := by
  induction l with
  | nil => rfl
  | cons m rest ih => exact congrArg (m :: ·) ih

@[simp] theorem mutations_nil : mutations [] = [] := rfl

@[simp] theorem mutations_start_cons (l : List ContextCall) : mutations (.startBatch :: l) = mutations l :=
  rfl

@[simp] theorem mutations_end_cons (l : List ContextCall) : mutations (.endBatch :: l) = mutations l := rfl

end ContextCall

namespace Effect

/-- What the context was told among some effects, in order. -/
def mutations (effects : List Effect) : List Mutation :=
  effects.filterMap fun e =>
    match e with
    | .mutate mutation => some mutation
    | .called _ => none

@[simp] theorem mutations_nil : mutations [] = [] := rfl

@[simp] theorem mutations_append (l m : List Effect) : mutations (l ++ m) = mutations l ++ mutations m :=
  List.filterMap_append

@[simp] theorem mutations_called_cons (call : HandlerCall) (l : List Effect) :
    mutations (.called call :: l) = mutations l := rfl

@[simp] theorem mutations_map_mutate (l : List Mutation) : mutations (l.map .mutate) = l := by
  induction l with
  | nil => rfl
  | cons m rest ih => exact congrArg (m :: ·) ih

theorem callsOf_events (n : Nat) (effects : List Effect) :
    Event.callsOf n (effects.map (event n)) = (mutations effects).map .mutate := by
  induction effects with
  | nil => rfl
  | cons e rest ih => cases e <;> simpa [Event.callsOf, event, mutations] using ih

theorem callsOf_events_of_ne {n m : Nat} (h : m ≠ n) (effects : List Effect) :
    Event.callsOf n (effects.map (event m)) = [] := by
  refine Event.callsOf_eq_nil fun e he call => ?_
  obtain ⟨f, -, rfl⟩ := List.mem_map.1 he
  cases f <;> simp [event, h]

end Effect

/-! ## Steps of a call -/

/-- Whether a call in this phase holds the lock. -/
def Phase.holds : Phase → Bool
  | .closing _ | .releasing _ => true
  | _ => false

/-- What a request does on getting the lock. -/
def Request.passage (setup : Setup) (env : Environment) (session : Session) (w : Workspace) :
    Request → Passage
  | .update u => w.receive setup env session u
  | .write mutations => w.beginWrite session mutations
  | .dispose _ => w.beginDispose session
  | .status | .whenEvaluation | .whenBuild => ⟨session, w, [], .finished (.ok (.status w.status))⟩

namespace Call

theorem enter_eq (setup : Setup) (env : Environment) (c : Call) (session : Session) (w : Workspace) :
    c.enter setup env session w = c.conclude setup (c.request.passage setup env session w) := by
  unfold enter Request.passage
  cases c.request <;> rfl

theorem start_holds (request : Request) : (start request).phase.holds = false := by
  cases request with
  | update u => cases h : u.payload <;> simp [start, h, Phase.holds]
  | _ => rfl

/-- Only who asks for a build waits for one, and only teardown waits for a context to go. -/
structure Proper (c : Call) : Prop where
  awaiting : c.phase = .awaitingBuild → c.request = .whenBuild
  releasing : ∀ handle, c.phase = .releasing handle → ∃ cause, c.request = .dispose cause

theorem start_proper (request : Request) : (start request).Proper := by
  cases request with
  | update u => cases h : u.payload <;> exact ⟨by simp [start, h], by simp [start, h]⟩
  | _ => exact ⟨by simp [start], by simp [start]⟩

/-- The ways a step of a call can go. -/
inductive Advances (setup : Setup) (env : Environment) (me : JobId) (c : Call) (session : Session)
    (w : Workspace) : Advance → Prop
  /-- It is stuck. -/
  | stays : Advances setup env me c session w ⟨session, w, [], .going c⟩
  /-- It comes closer to the lock. -/
  | approaches {phase : Phase} {lock : Lock} {unload : UnloadToken} (hc : c.phase.holds = false)
      (hp : phase.holds = false) (hb : phase ≠ .awaitingBuild) (hl : lock.holder = w.lock.holder) :
      Advances setup env me c session w
        ⟨session, { w with lock, unload }, [], .going { c with phase }⟩
  /-- It ends without the lock, or gives it up unused. -/
  | leaves {lock : Lock} {result : Except SyncError Answer} (hc : c.phase.holds = false)
      (hl : lock.holder = w.lock.holder ∨ w.lock.holder = some me)
      (hr : ∀ u, c.request = .update u → ∃ error, result = .error error) :
      Advances setup env me c session w (c.finish setup session { w with lock } result)
  /-- It gets the lock. -/
  | enters {lock : Lock} {unload : UnloadToken} (hc : c.phase.holds = false)
      (hf : w.lock.holder = none ∨ w.lock.holder = some me) (hl : lock.holder = some me) :
      Advances setup env me c session w (c.enter setup env session { w with lock, unload })
  /-- Its batch closes. -/
  | closes {batch : OpenBatch} (hc : c.phase = .closing batch) (hg : env.gateOpen = true) :
      Advances setup env me c session w (c.conclude setup (w.close env session batch))
  /-- The context it disposes of is gone. -/
  | parts {handle : ContextHandle} (hc : c.phase = .releasing handle) (hd : env.disposalOpen = true) :
      Advances setup env me c session w (c.conclude setup (w.finishDispose session handle))

end Call

theorem Lock.holder_leave {l : Lock} {me : JobId} (h : l.holder ≠ some me) :
    (l.leave me).holder = l.holder := by
  simp [leave, h]

namespace Call

variable {setup : Setup} {env : Environment} {me : JobId} {c : Call} {session : Session} {w : Workspace}

theorem advances_askLock (unload : UnloadToken) (hc : c.phase.holds = false) :
    Advances setup env me c session w (c.askLock setup env me session { w with unload }) := by
  unfold askLock
  cases hh : w.lock.holder with
  | none => exact .enters hc (.inl hh) (by simp [Lock.request, hh])
  | some other => exact .approaches hc rfl (by simp) (by simp [Lock.request, hh])

/-- Every step goes in one of these ways. -/
theorem advances (hproper : c.Proper) :
    Advances setup env me c session w (c.advance setup env me session w) := by
  unfold advance
  -- the first four phases are before the lock, the last two under it
  cases hp : c.phase with
  | awaitingEvaluation =>
    have hc : c.phase.holds = false := by rw [hp]; rfl
    dsimp only
    split
    · exact .leaves hc (.inl rfl) fun _ _ => ⟨_, rfl⟩
    · split
      · exact .stays
      · exact .leaves hc (.inl rfl) fun _ _ => ⟨_, rfl⟩
      · split
        · rename_i hr
          exact .leaves hc (.inl rfl) fun u hu => by rw [hr] at hu; cases hu
        · exact .approaches hc rfl (by simp) rfl
  | awaitingBuild =>
    have hc : c.phase.holds = false := by rw [hp]; rfl
    have hr : ∀ u, c.request ≠ .update u := fun u hu => by rw [hproper.awaiting hp] at hu; cases hu
    dsimp only
    split
    · exact .leaves hc (.inl rfl) fun _ _ => ⟨_, rfl⟩
    · split
      · exact .leaves hc (.inl rfl) fun u hu => absurd hu (hr u)
      · exact .stays
  | entering =>
    have hc : c.phase.holds = false := by rw [hp]; rfl
    dsimp only
    split
    · exact advances_askLock _ hc
    · split
      · exact .leaves hc (.inl rfl) fun _ _ => ⟨_, rfl⟩
      · exact advances_askLock w.unload hc
  | queued =>
    have hc : c.phase.holds = false := by rw [hp]; rfl
    dsimp only
    split
    · refine .leaves hc ?_ fun _ _ => ⟨_, rfl⟩
      by_cases hh : w.lock.holder = some me
      · exact .inr hh
      · exact .inl (Lock.holder_leave hh)
    · split
      · rename_i hh
        have hh : w.lock.holder = some me := by simpa [Lock.isHeldBy] using hh
        exact .enters hc (.inr hh) hh
      · exact .stays
  | closing batch =>
    dsimp only
    split
    · rename_i hg
      exact .closes hp hg
    · exact .stays
  | releasing handle =>
    dsimp only
    split
    · rename_i hd
      exact .parts hp hd
    · exact .stays

end Call

/-! ## An update that gets the lock -/

/-- A passage that comes after some events. -/
def Passage.after (events : List Event) (p : Passage) : Passage := { p with events := events ++ p.events }

/-- Both rounds of an evaluation: the handlers of rules, then those of items unless one has failed. -/
def HandlerSet.applyBoth (s : HandlerSet) (env : Environment) (rules : NameMap Change)
    (items : Listing String Change) (activity : Activity) : Round HandlerSet :=
  let first := s.applyEvaluation env rules activity
  match first.failure with
  | some error => ⟨first.state, first.effects, some error⟩
  | none =>
    let second := first.state.applyItems env items activity
    ⟨second.state, first.effects ++ second.effects, second.failure⟩

/-- What an evaluation leaves in the baseline. -/
def Commit.ofEvaluation (versions : Versions) (e : Evaluation) (activity : Activity) : Commit :=
  .evaluation versions (e.rules.mapValues fun _ c => c.after)
    (NameMap.ofList (e.items.toList.map fun i => (i.1, i.2.after))) activity

namespace Workspace

/-- The changes of an evaluation's rules, seen from what is held. -/
def seenRules (w : Workspace) (e : Evaluation) : NameMap Change :=
  e.rules.mapValues (rebased w.baseline.rules)

/-- The changes of an evaluation's items, seen from what is held. -/
def seenItems (w : Workspace) (e : Evaluation) : Listing String Change :=
  e.items.mapValues (rebased w.baseline.items)

/-- An evaluation says nothing that is not held. -/
structure Knows (w : Workspace) (e : Evaluation) (activity : Activity) : Prop where
  rules : ∀ change ∈ (w.seenRules e).values, change.hasChanges = false
  items : ∀ change ∈ (w.seenItems e).values, change.hasChanges = false
  activity : w.baseline.activity = some activity

/-- The batch of an evaluation, up to its closing. -/
def openEvaluation (setup : Setup) (env : Environment) (session : Session) (w : Workspace)
    (handle : ContextHandle) (fresh : Bool) (versions : Versions) (e : Evaluation) : Passage :=
  let activity := session.active.activityOf w.slice
  let succeeded := !setup.settings.suppressDiagnosticsUntilBuild
  let round := handle.handlers.applyBoth env (w.seenRules e) (w.seenItems e) activity
  ⟨session,
    { w with
      context := some { handle with handlers := round.state }
      baseline := if fresh then { w.baseline with lastBuildSucceeded := some succeeded } else w.baseline },
    .context handle.serial .startBatch ::
      ((if fresh then [Event.context handle.serial (.mutate (.setLastBuildSucceeded succeeded))] else []) ++
        round.effects.map (Effect.event handle.serial)),
    .closing
      { serial := handle.serial, failure := round.failure, commit := .ofEvaluation versions e activity }⟩

variable {setup : Setup} {env : Environment} {session : Session} {w : Workspace}

theorem evaluate_of_knows {handle : ContextHandle} {versions : Versions} {e : Evaluation}
    (h : w.Knows e (session.active.activityOf w.slice)) :
    evaluate setup env session w handle false versions e =
      ⟨session, w, w.tell versions, .finished (.ok .done)⟩ := by
  have hr : (w.seenRules e).values.any (·.hasChanges) = false := by simpa using h.rules
  have hi : (w.seenItems e).values.any (·.hasChanges) = false := by simpa using h.items
  unfold seenRules at hr
  unfold seenItems at hi
  simp [evaluate, h.activity, hr, hi]

theorem evaluate_of_not_knows {handle : ContextHandle} {fresh : Bool} {versions : Versions}
    {e : Evaluation} (h : fresh = false → ¬w.Knows e (session.active.activityOf w.slice)) :
    evaluate setup env session w handle fresh versions e =
      openEvaluation setup env session w handle fresh versions e := by
  have hs : (!fresh && !((w.seenRules e).values.any (·.hasChanges) ||
      (w.seenItems e).values.any (·.hasChanges)) &&
      decide (w.baseline.activity = some (session.active.activityOf w.slice))) = false := by
    rw [Bool.eq_false_iff]
    intro hs
    simp only [Bool.and_eq_true, Bool.not_eq_true', Bool.or_eq_false_iff, decide_eq_true_eq] at hs
    obtain ⟨⟨hf, hr, hi⟩, ha⟩ := hs
    exact h hf ⟨by simpa using hr, by simpa using hi, ha⟩
  unfold seenRules seenItems at hs
  unfold evaluate openEvaluation HandlerSet.applyBoth seenRules seenItems
  simp only [hs, Bool.false_eq_true, if_false]
  cases hf : (handle.handlers.applyEvaluation env (e.rules.mapValues (rebased w.baseline.rules))
    (session.active.activityOf w.slice)).failure <;> simp [Commit.ofEvaluation]

theorem receiveEvaluation_some {handle : ContextHandle} {versions : Versions} {e : Evaluation}
    (hc : w.context = some handle) :
    receiveEvaluation setup env session w versions e =
      evaluate setup env session w handle false versions e := by
  simp [receiveEvaluation, hc]

theorem receiveEvaluation_error {versions : Versions} {e : Evaluation} {error : SyncError}
    (hc : w.context = none) (hf : session.create env setup.registry e = .error error) :
    receiveEvaluation setup env session w versions e =
      ⟨session, { w with status := .failed, evaluation := .failed }, [], .finished (.error error)⟩ := by
  simp [receiveEvaluation, hc, hf]

theorem receiveEvaluation_created {session' : Session} {handle : ContextHandle} {events : List Event}
    {versions : Versions} {e : Evaluation} (hc : w.context = none)
    (hs : session.create env setup.registry e = .ok (session', handle, events)) :
    receiveEvaluation setup env session w versions e =
      (openEvaluation setup env session'
        { w with context := some handle, contextId := w.contextId.or (some handle.id) } handle true
        versions e).after events := by
  simp [receiveEvaluation, hc, hs, evaluate_of_not_knows, Passage.after]

/-- The batch of a build, up to its closing. -/
def openBuild (env : Environment) (session : Session) (w : Workspace) (handle : ContextHandle)
    (versions : Versions) (b : Build) : Passage :=
  let activity := session.active.activityOf w.slice
  let round := handle.handlers.applyArguments env (.between w.baseline.arguments b.arguments) activity
  ⟨session, { w with context := some { handle with handlers := round.state } },
    .context handle.serial .startBatch :: .context handle.serial (.mutate (.setOptions b.arguments)) ::
      (round.effects.map (Effect.event handle.serial) ++
        [.context handle.serial (.mutate (.setLastBuildSucceeded b.producedItems))]),
    .closing
      { serial := handle.serial
        failure := round.failure
        commit := .build versions b.arguments activity }⟩

/-- A build says nothing that is not held. -/
structure KnowsBuild (w : Workspace) (b : Build) (activity : Activity) : Prop where
  arguments : (ArgumentDifference.between w.baseline.arguments b.arguments).isEmpty = true
  outcome : w.baseline.lastBuildSucceeded = some b.producedItems
  activity : w.baseline.activity = some activity

theorem admits_eq_ok_iff : w.admits = .ok () ↔ w.status = .uninitialized ∨ w.status = .initialized := by
  unfold admits
  cases w.status with
  | disposed => cases w.unload.check <;> simp
  | _ => simp

/-- Following progress changes status and owner, nothing else. -/
theorem enroll_eq (w : Workspace) (u : Update) :
    ∃ status owner, (w.enroll setup u).1 = { w with status, owner } ∧
      (w.admits = .ok () → status = .initialized) := by
  unfold enroll
  split
  · split
    · exact ⟨_, _, rfl, fun _ => rfl⟩
    · exact ⟨_, _, rfl, fun _ => rfl⟩
  · rename_i hs
    exact ⟨w.status, w.owner, rfl, fun h => (admits_eq_ok_iff.1 h).resolve_left hs⟩

@[simp] theorem enroll_context (u : Update) : (w.enroll setup u).1.context = w.context := by
  obtain ⟨_, _, h, -⟩ := enroll_eq w u
  rw [h]

@[simp] theorem enroll_baseline (u : Update) : (w.enroll setup u).1.baseline = w.baseline := by
  obtain ⟨_, _, h, -⟩ := enroll_eq w u
  rw [h]

@[simp] theorem enroll_slice (u : Update) : (w.enroll setup u).1.slice = w.slice := by
  obtain ⟨_, _, h, -⟩ := enroll_eq w u
  rw [h]

@[simp] theorem enroll_lock (u : Update) : (w.enroll setup u).1.lock = w.lock := by
  obtain ⟨_, _, h, -⟩ := enroll_eq w u
  rw [h]

theorem knows_enroll {u : Update} {e : Evaluation} {activity : Activity} :
    (w.enroll setup u).1.Knows e activity ↔ w.Knows e activity := by
  constructor
  · intro h
    exact ⟨by simpa [seenRules] using h.rules, by simpa [seenItems] using h.items, by simpa using h.activity⟩
  · intro h
    exact ⟨by simpa [seenRules] using h.rules, by simpa [seenItems] using h.items, by simpa using h.activity⟩

theorem knowsBuild_enroll {u : Update} {b : Build} {activity : Activity} :
    (w.enroll setup u).1.KnowsBuild b activity ↔ w.KnowsBuild b activity := by
  constructor
  · intro h
    exact ⟨by simpa using h.arguments, by simpa using h.outcome, by simpa using h.activity⟩
  · intro h
    exact ⟨by simpa using h.arguments, by simpa using h.outcome, by simpa using h.activity⟩

theorem receiveBuild_of_knows {versions : Versions} {b : Build}
    (h : w.KnowsBuild b (session.active.activityOf w.slice)) :
    receiveBuild env session w versions b =
      ⟨session, { w with buildIntegrated := true }, w.tell versions, .finished (.ok .done)⟩ := by
  simp [receiveBuild, h.arguments, h.outcome, h.activity]

theorem receiveBuild_of_not_knows {versions : Versions} {b : Build}
    (h : ¬w.KnowsBuild b (session.active.activityOf w.slice)) :
    receiveBuild env session w versions b =
      match w.context with
      | none => ⟨session, w, [], .finished (.error .failed)⟩
      | some handle => openBuild env session w handle versions b := by
  have hs : ((ArgumentDifference.between w.baseline.arguments b.arguments).isEmpty &&
      decide (w.baseline.lastBuildSucceeded = some b.producedItems) &&
      decide (w.baseline.activity = some (session.active.activityOf w.slice))) = false := by
    rw [Bool.eq_false_iff]
    intro hs
    simp only [Bool.and_eq_true, decide_eq_true_eq] at hs
    exact h ⟨hs.1.1, hs.1.2, hs.2⟩
  unfold receiveBuild openBuild
  simp only [hs, Bool.false_eq_true, if_false]
  cases w.context <;> simp

theorem callsOf_enroll (n : Nat) (u : Update) : Event.callsOf n (w.enroll setup u).2 = [] := by
  unfold enroll
  split
  · split <;> rfl
  · rfl

theorem callsOf_tell (n : Nat) (versions : Versions) : Event.callsOf n (w.tell versions) = [] := by
  unfold tell
  cases w.owner <;> rfl

/-- The ways an update can go once it has the lock; `w₁` follows progress already. -/
inductive Receives (setup : Setup) (env : Environment) (session : Session) (w : Workspace) (u : Update) :
    Passage → Prop
  /-- The workspace accepts no updates. -/
  | refused {error : SyncError} (h : w.admits = .error error) :
      Receives setup env session w u ⟨session, w, [], .finished (.error error)⟩
  /-- The context cannot be created. -/
  | uncreated {e : Evaluation} {error : SyncError} (h : w.admits = .ok ())
      (hu : u.payload = .evaluation e) (hc : w.context = none)
      (hf : session.create env setup.registry e = .error error) :
      Receives setup env session w u
        ⟨session, { (w.enroll setup u).1 with status := .failed, evaluation := .failed },
          (w.enroll setup u).2, .finished (.error error)⟩
  /-- The evaluation creates the context. -/
  | creates {e : Evaluation} {session' : Session} {handle : ContextHandle} {events : List Event}
      (h : w.admits = .ok ()) (hu : u.payload = .evaluation e) (hc : w.context = none)
      (hs : session.create env setup.registry e = .ok (session', handle, events)) :
      Receives setup env session w u
        ((openEvaluation setup env session'
          { (w.enroll setup u).1 with
            context := some handle
            contextId := (w.enroll setup u).1.contextId.or (some handle.id) }
          handle true u.versions e).after ((w.enroll setup u).2 ++ events))
  /-- The evaluation is skipped. -/
  | skips {e : Evaluation} {handle : ContextHandle} (h : w.admits = .ok ())
      (hu : u.payload = .evaluation e) (hc : w.context = some handle)
      (hk : w.Knows e (session.active.activityOf w.slice)) :
      Receives setup env session w u
        ⟨session, (w.enroll setup u).1, (w.enroll setup u).2 ++ (w.enroll setup u).1.tell u.versions,
          .finished (.ok .done)⟩
  /-- The evaluation is applied to the context that is there. -/
  | applies {e : Evaluation} {handle : ContextHandle} (h : w.admits = .ok ())
      (hu : u.payload = .evaluation e) (hc : w.context = some handle) :
      Receives setup env session w u
        ((openEvaluation setup env session (w.enroll setup u).1 handle false u.versions e).after
          (w.enroll setup u).2)
  /-- The build is skipped. -/
  | skipsBuild {b : Build} (h : w.admits = .ok ()) (hu : u.payload = .build b)
      (hk : w.KnowsBuild b (session.active.activityOf w.slice)) :
      Receives setup env session w u
        ⟨session, { (w.enroll setup u).1 with buildIntegrated := true },
          (w.enroll setup u).2 ++ (w.enroll setup u).1.tell u.versions, .finished (.ok .done)⟩
  /-- There is no context to give the build to. -/
  | misses {b : Build} (h : w.admits = .ok ()) (hu : u.payload = .build b) (hc : w.context = none) :
      Receives setup env session w u
        ⟨session, (w.enroll setup u).1, (w.enroll setup u).2, .finished (.error .failed)⟩
  /-- The build is applied. -/
  | appliesBuild {b : Build} {handle : ContextHandle} (h : w.admits = .ok ()) (hu : u.payload = .build b)
      (hc : w.context = some handle) :
      Receives setup env session w u
        ((openBuild env session (w.enroll setup u).1 handle u.versions b).after (w.enroll setup u).2)

theorem receive_of_admits (h : w.admits = .ok ()) (u : Update) :
    w.receive setup env session u = Passage.after (w.enroll setup u).2
      (match u.payload with
      | .evaluation e => receiveEvaluation setup env session (w.enroll setup u).1 u.versions e
      | .build b => receiveBuild env session (w.enroll setup u).1 u.versions b) := by
  unfold receive
  rw [h]
  rfl

/-- Every update that has the lock goes in one of these ways. -/
theorem receives (u : Update) : Receives setup env session w u (w.receive setup env session u) := by
  cases ha : w.admits with
  | error error =>
    unfold receive
    rw [ha]
    exact .refused ha
  | ok _ =>
    rw [receive_of_admits ha]
    cases hu : u.payload with
    | evaluation e =>
      dsimp only
      cases hc : w.context with
      | some handle =>
        rw [receiveEvaluation_some ((enroll_context u).trans hc)]
        by_cases hk : w.Knows e (session.active.activityOf w.slice)
        · rw [evaluate_of_knows (by rwa [knows_enroll, enroll_slice])]
          exact .skips ha hu hc hk
        · rw [evaluate_of_not_knows fun _ => by rwa [knows_enroll, enroll_slice]]
          exact .applies ha hu hc
      | none =>
        cases hs : session.create env setup.registry e with
        | error error =>
          rw [receiveEvaluation_error ((enroll_context u).trans hc) hs]
          -- nothing is heard beyond what enrolling tells
          have : Receives setup env session w u _ := .uncreated ha hu hc hs
          rwa [← List.append_nil (w.enroll setup u).2] at this
        | ok created =>
          obtain ⟨session', handle, events⟩ := created
          rw [receiveEvaluation_created ((enroll_context u).trans hc) hs]
          have : Receives setup env session w u _ := .creates ha hu hc hs
          unfold Passage.after at this ⊢
          rwa [List.append_assoc] at this
    | build b =>
      dsimp only
      by_cases hk : w.KnowsBuild b (session.active.activityOf w.slice)
      · rw [receiveBuild_of_knows (by rwa [knowsBuild_enroll, enroll_slice])]
        exact .skipsBuild ha hu hk
      · rw [receiveBuild_of_not_knows (by rwa [knowsBuild_enroll, enroll_slice]), enroll_context]
        cases hc : w.context with
        | some handle => exact .appliesBuild ha hu hc
        | none =>
          have : Receives setup env session w u _ := .misses ha hu hc
          rwa [← List.append_nil (w.enroll setup u).2] at this

end Workspace

/-! ## What contexts hear of a passage -/

theorem Evaluation.eq_missing_of_creationParams {e : Evaluation} {error : SyncError}
    (h : e.creationParams = .error error) : ∃ name, error = .missingProperty WellKnown.generalRule name := by
  unfold creationParams at h
  simp only [bind, Except.bind] at h
  cases hlanguage : e.property? WellKnown.generalRule WellKnown.language with
  | none =>
    rw [hlanguage] at h
    cases h
    exact ⟨_, rfl⟩
  | some language =>
    cases houtput : e.property? WellKnown.generalRule WellKnown.targetPath with
    | none =>
      rw [hlanguage, houtput] at h
      cases h
      exact ⟨_, rfl⟩
    | some output =>
      cases hpath : e.property? WellKnown.generalRule WellKnown.projectFullPath with
      | none =>
        rw [hlanguage, houtput, hpath] at h
        cases h
        exact ⟨_, rfl⟩
      | some path =>
        rw [hlanguage, houtput, hpath] at h
        cases h

theorem Session.create_eq {s s' : Session} {env : Environment} {registry : Registry} {e : Evaluation}
    {handle : ContextHandle} {events : List Event}
    (h : s.create env registry e = .ok (s', handle, events)) :
    handle.serial = s.created ∧ s'.created = s.created + 1 ∧
      handle.handlers = registry.resolve e.project ∧ ∃ params, events = [.created s.created params] := by
  obtain ⟨params, -, -, -, rfl, rfl, rfl⟩ := of_create_ok h
  exact ⟨rfl, rfl, rfl, params, rfl⟩

/-- What contexts hear of a passage of a request: nothing, the opening of a batch in the context that is
there or just came, or the end of the context. -/
inductive Heard (session : Session) (w : Workspace) (p : Passage) : Prop
  | nothing {result : Except SyncError Answer} (hh : p.held = .finished result)
      (hc : p.workspace.context = w.context) (hs : p.session.created = session.created)
      (he : ∀ n, Event.callsOf n p.events = [])
  | opening {batch : OpenBatch} (hh : p.held = .closing batch)
      (hc : p.workspace.context.map (·.serial) = some batch.serial)
      (ho : w.context.map (·.serial) = some batch.serial ∧ p.session.created = session.created ∨
        w.context = none ∧ batch.serial = session.created ∧ p.session.created = session.created + 1)
      (he : ∃ mutations : List Mutation, ∀ n, Event.callsOf n p.events =
        if n = batch.serial then .startBatch :: mutations.map .mutate else [])
  | parting {handle : ContextHandle} (hh : p.held = .releasing handle) (hw : w.context = some handle)
      (hc : p.workspace.context = none) (hs : p.session.created = session.created)
      (he : ∀ n, Event.callsOf n p.events = if n = handle.serial then [.dispose] else [])

namespace Workspace

variable {setup : Setup} {env : Environment} {session : Session} {w : Workspace}

/-- The events of an evaluation's batch are its context's. -/
theorem callsOf_openEvaluation (n : Nat) {handle : ContextHandle} {fresh : Bool} {versions : Versions}
    {e : Evaluation} :
    Event.callsOf n (openEvaluation setup env session w handle fresh versions e).events =
      if n = handle.serial then
        .startBatch :: (((if fresh then
            [Mutation.setLastBuildSucceeded !setup.settings.suppressDiagnosticsUntilBuild] else []) ++
          Effect.mutations (handle.handlers.applyBoth env (w.seenRules e) (w.seenItems e)
            (session.active.activityOf w.slice)).effects).map .mutate)
      else [] := by
  unfold openEvaluation
  by_cases hn : n = handle.serial
  · subst hn
    cases fresh <;> simp [Effect.callsOf_events]
  · have hne : handle.serial ≠ n := fun h => hn h.symm
    cases fresh <;> simp [hn, Event.callsOf_context_cons_of_ne hne, Effect.callsOf_events_of_ne hne]

/-- The events of a build's batch are its context's. -/
theorem callsOf_openBuild (n : Nat) {handle : ContextHandle} {versions : Versions} {b : Build} :
    Event.callsOf n (openBuild env session w handle versions b).events =
      if n = handle.serial then
        .startBatch :: ((Mutation.setOptions b.arguments :: (Effect.mutations
            (handle.handlers.applyArguments env (.between w.baseline.arguments b.arguments)
              (session.active.activityOf w.slice)).effects ++
          [.setLastBuildSucceeded b.producedItems])).map .mutate)
      else [] := by
  unfold openBuild
  by_cases hn : n = handle.serial
  · subst hn
    simp [Event.callsOf_append, Effect.callsOf_events]
  · have hne : handle.serial ≠ n := fun h => hn h.symm
    simp [hn, Event.callsOf_context_cons_of_ne hne, Event.callsOf_append, Effect.callsOf_events_of_ne hne]

theorem callsOf_after {n : Nat} {events : List Event} {p : Passage} (h : Event.callsOf n events = []) :
    Event.callsOf n (p.after events).events = Event.callsOf n p.events := by
  simp [Passage.after, Event.callsOf_append, h]

theorem Receives.heard {u : Update} {p : Passage} (h : Receives setup env session w u p) :
    Heard session w p := by
  cases h with
  | refused _ => exact .nothing rfl rfl rfl fun _ => rfl
  | uncreated _ _ _ _ => exact .nothing rfl (enroll_context u) rfl fun n => callsOf_enroll n u
  | creates _ _ hc hs =>
    obtain ⟨hserial, hcreated, -, params, rfl⟩ := Session.create_eq hs
    have hq (n : Nat) : Event.callsOf n ((w.enroll setup u).2 ++ [.created session.created params]) = [] := by
      rw [Event.callsOf_append, callsOf_enroll]
      rfl
    exact .opening rfl rfl (.inr ⟨hc, hserial, hcreated⟩)
      ⟨_, fun n => (callsOf_after (hq n)).trans (callsOf_openEvaluation n)⟩
  | skips _ _ _ _ =>
    refine .nothing rfl (enroll_context u) rfl fun n => ?_
    rw [Event.callsOf_append, callsOf_enroll, callsOf_tell]
    rfl
  | applies _ _ hc =>
    exact .opening rfl rfl (.inl ⟨by simp [hc], rfl⟩)
      ⟨_, fun n => (callsOf_after (callsOf_enroll n u)).trans (callsOf_openEvaluation n)⟩
  | skipsBuild _ _ _ =>
    refine .nothing rfl (enroll_context u) rfl fun n => ?_
    rw [Event.callsOf_append, callsOf_enroll, callsOf_tell]
    rfl
  | misses _ _ _ => exact .nothing rfl (enroll_context u) rfl fun n => callsOf_enroll n u
  | appliesBuild _ _ hc =>
    exact .opening rfl rfl (.inl ⟨by simp [hc], rfl⟩)
      ⟨_, fun n => (callsOf_after (callsOf_enroll n u)).trans (callsOf_openBuild n)⟩

/-- The events of a write are its context's. -/
theorem callsOf_write (n : Nat) (handle : ContextHandle) (mutations : List Mutation) :
    Event.callsOf n (.context handle.serial .startBatch :: .acted handle.id ::
        mutations.map fun m => .context handle.serial (.mutate m)) =
      if n = handle.serial then .startBatch :: mutations.map .mutate else [] := by
  have hm : (mutations.map fun m => Event.context handle.serial (.mutate m)) =
      (mutations.map Effect.mutate).map (Effect.event handle.serial) := by
    rw [List.map_map]
    rfl
  have ha (l : List Event) : Event.callsOf n (.acted handle.id :: l) = Event.callsOf n l := rfl
  by_cases hn : n = handle.serial
  · subst hn
    rw [Event.callsOf_context_cons, ha, hm, Effect.callsOf_events]
    simp
  · have hne : handle.serial ≠ n := fun h => hn h.symm
    rw [Event.callsOf_context_cons_of_ne hne, ha, hm, Effect.callsOf_events_of_ne hne, if_neg hn]

theorem beginWrite_heard (mutations : List Mutation) : Heard session w (w.beginWrite session mutations) := by
  unfold beginWrite
  split
  · exact .nothing rfl rfl rfl fun _ => rfl
  · split
    · exact .nothing rfl rfl rfl fun _ => rfl
    · rename_i handle hc
      exact .opening rfl (by simp [hc]) (.inl ⟨by simp [hc], rfl⟩)
        ⟨_, fun n => callsOf_write n handle mutations⟩

theorem beginDispose_heard : Heard session w (w.beginDispose session) := by
  unfold beginDispose
  split
  · exact .nothing rfl rfl rfl fun _ => rfl
  · split
    · rename_i handle hc
      refine .parting rfl hc rfl rfl fun n => ?_
      by_cases hn : n = handle.serial
      · subst hn
        simp [Session.beginRelease]
      · have hne : handle.serial ≠ n := fun h => hn h.symm
        simp [Session.beginRelease, Event.callsOf_context_cons_of_ne hne, hn]
    · rename_i hc
      refine .nothing rfl rfl rfl fun n => ?_
      unfold unregister
      cases w.owner <;> rfl

/-- An update under the lock leaves the lock to its call. -/
theorem Receives.lock {u : Update} {p : Passage} (h : Receives setup env session w u p) :
    p.workspace.lock = w.lock := by
  cases h <;> simp [openEvaluation, openBuild, Passage.after]

/-- The closing of a batch leaves all alone but what is held and the two signals. -/
theorem close_workspace (env : Environment) (session : Session) (w : Workspace) (batch : OpenBatch) :
    ∃ baseline evaluation buildIntegrated,
      (w.close env session batch).workspace = { w with baseline, evaluation, buildIntegrated } := by
  unfold close
  dsimp only
  split
  · exact ⟨_, _, _, rfl⟩
  · cases batch.commit <;> exact ⟨_, _, _, rfl⟩

/-- The closing of a batch is heard by its context, which stays. -/
theorem close_heard (env : Environment) (session : Session) (w : Workspace) (batch : OpenBatch) :
    (w.close env session batch).session = session ∧
      (w.close env session batch).workspace.context = w.context ∧
      (∃ result, (w.close env session batch).held = .finished result) ∧
      ∀ n, Event.callsOf n (w.close env session batch).events =
        if n = batch.serial then [.endBatch] else [] := by
  have closing (n : Nat) {events : List Event} (h : Event.callsOf n events = []) :
      Event.callsOf n (.context batch.serial .endBatch :: events) =
        if n = batch.serial then [.endBatch] else [] := by
    by_cases hn : n = batch.serial
    · simp [hn, ← h]
    · have hne : batch.serial ≠ n := fun h => hn h.symm
      simp [hn, Event.callsOf_context_cons_of_ne hne, h]
  unfold close
  dsimp only
  split
  · exact ⟨rfl, rfl, ⟨_, rfl⟩, fun n => closing n rfl⟩
  · cases batch.commit with
    | write id => exact ⟨rfl, rfl, ⟨_, rfl⟩, fun n => closing n rfl⟩
    | evaluation versions rules items activity =>
      exact ⟨rfl, rfl, ⟨_, rfl⟩, fun n => closing n (callsOf_tell n versions)⟩
    | build versions arguments activity =>
      exact ⟨rfl, rfl, ⟨_, rfl⟩, fun n => closing n (callsOf_tell n versions)⟩

/-- The end of a release is heard by no context. -/
theorem finishDispose_heard (session : Session) (w : Workspace) (handle : ContextHandle) :
    (w.finishDispose session handle).session.created = session.created ∧
      (w.finishDispose session handle).workspace.context = w.context ∧
      (∃ result, (w.finishDispose session handle).held = .finished result) ∧
      ∀ n, Event.callsOf n (w.finishDispose session handle).events = [] := by
  refine ⟨rfl, rfl, ⟨_, rfl⟩, fun n => Event.callsOf_eq_nil fun e he call => ?_⟩
  simp only [finishDispose, Session.finishRelease, unregister, List.mem_append, List.mem_map,
    Option.mem_toList, Option.map_eq_some_iff] at he
  obtain ⟨_, _, rfl⟩ | ⟨_, _, rfl⟩ := he <;> nofun

end Workspace

/-- The ways a request can go on getting the lock. -/
inductive Request.Enters (setup : Setup) (env : Environment) (session : Session) (w : Workspace) :
    Request → Passage → Prop
  | receives {u : Update} {p : Passage} (h : w.Receives setup env session u p) :
      Enters setup env session w (.update u) p
  /-- The workspace accepts no writes. -/
  | refuses {mutations : List Mutation} {error : SyncError} (ha : w.admits = .error error) :
      Enters setup env session w (.write mutations) ⟨session, w, [], .finished (.error error)⟩
  /-- There is no context to write to. -/
  | lacks {mutations : List Mutation} (ha : w.admits = .ok ()) (hc : w.context = none) :
      Enters setup env session w (.write mutations) ⟨session, w, [], .finished (.error .failed)⟩
  | writes {mutations : List Mutation} {handle : ContextHandle} (ha : w.admits = .ok ())
      (hc : w.context = some handle) :
      Enters setup env session w (.write mutations)
        ⟨session, w, .context handle.serial .startBatch :: .acted handle.id ::
          mutations.map (fun m => .context handle.serial (.mutate m)),
          .closing { serial := handle.serial, failure := none, commit := .write handle.id }⟩
  /-- The workspace has been disposed of before. -/
  | gone {cause : DisposeCause} (hs : w.status = .disposed) :
      Enters setup env session w (.dispose cause) ⟨session, w, [], .finished (.ok .done)⟩
  /-- The context is given up. -/
  | releases {cause : DisposeCause} {handle : ContextHandle} (hs : w.status ≠ .disposed)
      (hc : w.context = some handle) :
      Enters setup env session w (.dispose cause)
        ⟨session, { w with status := .disposed, context := none }, Session.beginRelease handle, .releasing handle⟩
  /-- There is no context to give up. -/
  | departs {cause : DisposeCause} (hs : w.status ≠ .disposed) (hc : w.context = none) :
      Enters setup env session w (.dispose cause)
        ⟨session, { w with status := .disposed, owner := none }, w.unregister.2, .finished (.ok .done)⟩
  /-- A question is answered. -/
  | answers {request : Request} (hr : request = .status ∨ request = .whenEvaluation ∨ request = .whenBuild) :
      Enters setup env session w request ⟨session, w, [], .finished (.ok (.status w.status))⟩

/-- Every request that gets the lock goes in one of these ways. -/
theorem Request.enters (setup : Setup) (env : Environment) (session : Session) (w : Workspace) (request : Request) :
    request.Enters setup env session w (request.passage setup env session w) := by
  cases request with
  | update u => exact .receives (Workspace.receives u)
  | write mutations =>
    unfold passage Workspace.beginWrite
    cases ha : w.admits with
    | error error => exact .refuses ha
    | ok =>
      cases hc : w.context with
      | none => exact .lacks ha hc
      | some handle => exact .writes ha hc
  | dispose cause =>
    unfold passage Workspace.beginDispose
    dsimp only
    split
    · rename_i hs
      exact .gone hs
    · rename_i hs
      split
      · rename_i handle hc
        exact .releases hs hc
      · rename_i hc
        exact .departs hs hc
  | status => exact .answers (.inl rfl)
  | whenEvaluation => exact .answers (.inr (.inl rfl))
  | whenBuild => exact .answers (.inr (.inr rfl))

/-- A passage of a request leaves the lock to its call. -/
theorem Request.passage_lock (setup : Setup) (env : Environment) (session : Session) (w : Workspace)
    (request : Request) : (request.passage setup env session w).workspace.lock = w.lock := by
  have h := request.enters setup env session w
  generalize request.passage setup env session w = p at h ⊢
  cases h with
  | receives h => exact h.lock
  | _ => rfl

/-- Only teardown goes on to wait for a context to go. -/
theorem Request.passage_releasing {setup : Setup} {env : Environment} {session : Session} {w : Workspace}
    {request : Request} {handle : ContextHandle}
    (h : (request.passage setup env session w).held = .releasing handle) :
    ∃ cause, request = .dispose cause := by
  have hp := request.enters setup env session w
  generalize request.passage setup env session w = p at h hp
  cases hp with
  | releases => exact ⟨_, rfl⟩
  | receives hr => cases hr <;> cases h
  | _ => cases h

theorem Request.passage_heard (setup : Setup) (env : Environment) (session : Session) (w : Workspace)
    (request : Request) : Heard session w (request.passage setup env session w) := by
  cases request with
  | update u => exact (Workspace.receives u).heard
  | write mutations => exact Workspace.beginWrite_heard mutations
  | dispose cause => exact Workspace.beginDispose_heard
  | _ => exact .nothing rfl rfl rfl fun _ => rfl

end SliceSync
