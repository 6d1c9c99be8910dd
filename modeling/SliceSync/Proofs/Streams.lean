import SliceSync.Holdback
import SliceSync.Proofs.Plain
/-!
# Updates, one after the other

A feed takes updates in through a holdback and hands what passes to the workspace, one call at a time. A
call that nothing disturbs gets the lock, does its passage and closes its batch; what comes of it is told
here for a workspace whose context is there (`process_evaluation`, `process_build`), for one whose context
could not be created, and for the first evaluation.
-/

namespace SliceSync

theorem runAll_cons {σ α μ : Type} (step : σ → α → σ × List μ) (s : σ) (a : α) (l : List α) :
    runAll step s (a :: l) =
      ((runAll step (step s a).1 l).1, (step s a).2 ++ (runAll step (step s a).1 l).2) := rfl

theorem runAll_append {σ α μ : Type} (step : σ → α → σ × List μ) (s : σ) (l m : List α) :
    runAll step s (l ++ m) =
      ((runAll step (runAll step s l).1 m).1, (runAll step s l).2 ++ (runAll step (runAll step s l).1 m).2) := by
  induction l generalizing s with
  | nil => rfl
  | cons a rest ih => rw [List.cons_append, runAll_cons, ih, runAll_cons, List.append_assoc]

namespace Call

/-- Takes a call on by some steps, while nothing else happens. -/
def carry (setup : Setup) (env : Environment) (me : JobId) : Nat → Call → Session → Workspace → Advance
  | 0, c, session, w => ⟨session, w, [], .going c⟩
  | n + 1, c, session, w =>
    let a := c.advance setup env me session w
    match a.progress with
    | .done _ => a
    | .going next =>
      let rest := carry setup env me n next a.session a.workspace
      { rest with events := a.events ++ rest.events }

end Call

/-- A call with an update, taken as far as it gets. With nobody else at the workspace the number of the job
is of no account. -/
def Workspace.onUpdate (setup : Setup) (env : Environment) (session : Session) (w : Workspace) (u : Update) :
    Advance :=
  (Call.start (.update u)).carry setup env 0 (Call.start (.update u)).work session w

/-- What came of an update. -/
structure Processed where
  update : Update
  events : List Event
  /-- How the call ended, if it did. -/
  result : Option (Except SyncError Answer)

/-- How a call ended, if it did. -/
def Progress.result? : Progress → Option (Except SyncError Answer)
  | .going _ => none
  | .done result => some result

/-- The workspace with its session after an update. -/
def process (setup : Setup) (env : Environment) (s : Session × Workspace) (u : Update) :
    (Session × Workspace) × List Processed :=
  let a := s.2.onUpdate setup env s.1 u
  ((a.session, a.workspace), [⟨u, a.events, a.progress.result?⟩])

/-- Takes an update in: what the holdback lets pass goes to the workspace. -/
def takeIn (setup : Setup) (env : Environment) (s : Holdback × Session × Workspace) (u : Update) :
    (Holdback × Session × Workspace) × List Processed :=
  let pushed := s.1.push u
  let done := runAll (process setup env) s.2 pushed.2.1
  ((pushed.1, done.1), done.2)

/-- The holdback of a new workspace. -/
def Setup.holdback (setup : Setup) : Holdback := { threshold := setup.settings.orderingBufferWarnThreshold }

/-- A new workspace after all updates were taken in, with what came of each. -/
def feed (setup : Setup) (env : Environment) (session : Session) (slice : Slice) (updates : List Update) :
    (Holdback × Session × Workspace) × List Processed :=
  runAll (takeIn setup env) (setup.holdback, session, { slice }) updates

/-! ## What passes the holdback -/

namespace Holdback

/-- All that passes while updates are taken in. -/
def passed (h : Holdback) (updates : List Update) : List Update :=
  (runAll (fun h u => ((push h u).1, (push h u).2.1)) h updates).2

theorem passed_cons (h : Holdback) (u : Update) (rest : List Update) :
    h.passed (u :: rest) = (h.push u).2.1 ++ (h.push u).1.passed rest := rfl

theorem passed_of_passing {h : Holdback} (hp : h.passing = true) (updates : List Update) :
    h.passed updates = updates := by
  induction updates with
  | nil => rfl
  | cons u rest ih =>
    have hpush : h.push u = (h, [u], none) := by simp [push, hp]
    rw [passed_cons, hpush, List.singleton_append, ih]

/-- Nothing passes without an evaluation. With one, the first evaluation passes first, and all others pass in
the order in which they came, those of either kind by themselves. -/
theorem passed_cases {h : Holdback} (hp : h.passing = false) (hh : ∀ u ∈ h.held, u.kind = .build)
    (updates : List Update) :
    updates.filter (·.kind = .evaluation) = [] ∧ h.passed updates = [] ∨
      ∃ first rest, h.passed updates = first :: rest ∧ first.kind = .evaluation ∧
        updates.filter (·.kind = .evaluation) = first :: rest.filter (·.kind = .evaluation) ∧
        h.held ++ updates.filter (·.kind = .build) = rest.filter (·.kind = .build) := by
  induction updates generalizing h with
  | nil => exact .inl ⟨rfl, rfl⟩
  | cons u rest ih =>
    cases hu : u.kind with
    | evaluation =>
      -- what is held are builds, so it adds nothing to the evaluations that follow
      have hpush : h.push u = ({ h with held := [], passing := true }, u :: h.held, none) := by
        simp [push, hp, hu]
      have hevaluations : h.held.filter (·.kind = .evaluation) = [] := by
        refine List.filter_eq_nil_iff.2 fun v hv => ?_
        rw [hh v hv]
        decide
      have hbuilds : h.held.filter (·.kind = .build) = h.held :=
        List.filter_eq_self.2 fun v hv => by simpa using hh v hv
      refine .inr ⟨u, h.held ++ rest, ?_, hu, ?_, ?_⟩
      · rw [passed_cons, hpush, passed_of_passing rfl, List.cons_append]
      · rw [List.filter_cons_of_pos (by simpa using hu), List.filter_append, hevaluations, List.nil_append]
      · rw [List.filter_cons_of_neg (by simp [hu]), List.filter_append, hbuilds]
    | build =>
      obtain ⟨warned, warning, hpush⟩ : ∃ warned warning,
          h.push u = ({ h with held := h.held ++ [u], warned }, [], warning) := by
        simp only [push, hp, hu, Bool.false_eq_true, if_false]
        split
        · exact ⟨true, _, rfl⟩
        · exact ⟨h.warned, _, rfl⟩
      have hheld : ∀ v ∈ h.held ++ [u], v.kind = .build := by
        intro v hv
        rcases List.mem_append.1 hv with hv | hv
        · exact hh v hv
        · rw [List.mem_singleton.1 hv, hu]
      -- the build is held behind the others, where the induction finds it
      rw [passed_cons, hpush, List.nil_append, List.filter_cons_of_neg (by simp [hu]),
        List.filter_cons_of_pos (by simpa using hu)]
      have hrest := @ih { h with held := h.held ++ [u], warned } hp hheld
      rwa [List.append_assoc] at hrest

/-- What passes first is the first evaluation. -/
theorem passed_first {threshold : Nat} {updates rest : List Update} {first : Update}
    (h : passed { threshold } updates = first :: rest) :
    first.kind = .evaluation ∧ ∃ others, updates.filter (·.kind = .evaluation) = first :: others := by
  rcases passed_cases (h := { threshold }) rfl (by simp) updates with ⟨-, hp⟩ | ⟨u, others, hp, hu, hevaluations, -⟩
  · rw [hp] at h
    cases h
  · rw [hp] at h
    cases h
    exact ⟨hu, _, hevaluations⟩

/-- Without an evaluation nothing passes. -/
theorem passed_of_builds {threshold : Nat} {updates : List Update} (h : ∀ u ∈ updates, u.kind = .build) :
    passed { threshold } updates = [] := by
  rcases passed_cases (h := { threshold }) rfl (by simp) updates with ⟨-, hp⟩ | ⟨u, rest, -, hu, hevaluations, -⟩
  · exact hp
  · have hmem : u ∈ updates.filter (·.kind = .evaluation) := by simp [hevaluations]
    have hbuild := h u (List.mem_filter.1 hmem).1
    rw [hu] at hbuild
    cases hbuild

/-- With an evaluation everything passes, updates of a kind in the order in which they came. -/
theorem filter_passed {threshold : Nat} {updates : List Update} (h : ∃ u ∈ updates, u.kind = .evaluation)
    (kind : UpdateKind) :
    (passed { threshold } updates).filter (·.kind = kind) = updates.filter (·.kind = kind) := by
  rcases passed_cases (h := { threshold }) rfl (by simp) updates with ⟨hnone, -⟩ | ⟨first, rest, hp, hf, he, hb⟩
  · obtain ⟨u, hu, hkind⟩ := h
    have hmem : u ∈ updates.filter (·.kind = .evaluation) := List.mem_filter.2 ⟨hu, by simpa using hkind⟩
    rw [hnone] at hmem
    cases hmem
  · rw [hp]
    cases kind with
    | evaluation => rw [he, List.filter_cons_of_pos (by simpa using hf)]
    | build =>
      rw [List.filter_cons_of_neg (by simp [hf]), ← hb]
      rfl

end Holdback

/-- Where each kind comes in the same order the same comes. -/
theorem perm_of_kinds {α : Type} {kind : α → UpdateKind} {l m : List α}
    (h : ∀ k, l.filter (kind · = k) = m.filter (kind · = k)) : l.Perm m := by
  have hnot (a : α) : decide (kind a = .build) = !decide (kind a = .evaluation) := by cases kind a <;> rfl
  have hsplit (l : List α) : (l.filter (kind · = .evaluation) ++ l.filter (kind · = .build)).Perm l := by
    rw [show (fun a => decide (kind a = .build)) = fun a => !decide (kind a = .evaluation) from funext hnot]
    exact List.filter_append_perm _ l
  refine (hsplit l).symm.trans ?_
  rw [h .evaluation, h .build]
  exact hsplit m

theorem runAll_takeIn (setup : Setup) (env : Environment) (h : Holdback) (s : Session × Workspace)
    (updates : List Update) :
    (runAll (takeIn setup env) (h, s) updates).1.2 = (runAll (process setup env) s (h.passed updates)).1 ∧
      (runAll (takeIn setup env) (h, s) updates).2 = (runAll (process setup env) s (h.passed updates)).2 := by
  induction updates generalizing h s with
  | nil => exact ⟨rfl, rfl⟩
  | cons u rest ih =>
    obtain ⟨hstate, hdone⟩ := ih (h.push u).1 (runAll (process setup env) s (h.push u).2.1).1
    rw [runAll_cons, Holdback.passed_cons, runAll_append]
    exact ⟨hstate, congrArg (_ ++ ·) hdone⟩

/-- A new workspace gets no update before the first evaluation. -/
theorem feed_cases (setup : Setup) (env : Environment) (session : Session) (slice : Slice)
    (updates : List Update) :
    updates.filter (·.kind = .evaluation) = [] ∧
        (feed setup env session slice updates).1.2 = (session, { slice }) ∧
        (feed setup env session slice updates).2 = [] ∨
      ∃ first rest, first.kind = .evaluation ∧
        updates.filter (·.kind = .evaluation) = first :: rest.filter (·.kind = .evaluation) ∧
        updates.filter (·.kind = .build) = rest.filter (·.kind = .build) ∧
        (feed setup env session slice updates).1.2 =
          (runAll (process setup env) (process setup env (session, { slice }) first).1 rest).1 ∧
        (feed setup env session slice updates).2 = (process setup env (session, { slice }) first).2 ++
          (runAll (process setup env) (process setup env (session, { slice }) first).1 rest).2 := by
  obtain ⟨hstate, hdone⟩ := runAll_takeIn setup env setup.holdback (session, { slice }) updates
  obtain ⟨hnone, hpassed⟩ | ⟨first, rest, hpassed, hfirst, hevaluations, hbuilds⟩ :=
    Holdback.passed_cases (h := setup.holdback) rfl (fun _ hu => absurd hu List.not_mem_nil) updates
  · rw [hpassed] at hstate hdone
    exact .inl ⟨hnone, hstate, hdone⟩
  · rw [hpassed] at hstate hdone
    exact .inr ⟨first, rest, hfirst, hevaluations, hbuilds, hstate, hdone⟩

/-! ## A call that nothing disturbs -/

namespace Workspace

variable {setup : Setup} {env : Environment} {session session' session'' : Session} {w w' w'' : Workspace}
  {u : Update} {events events' : List Event} {result : Except SyncError Answer}

/-- Nobody is at the workspace, and nothing keeps updates from it. -/
structure Free (w : Workspace) : Prop where
  lock : w.lock = {}
  unload : w.unload.cause = none

/-- The workspace while a job has its lock. -/
def taken (w : Workspace) : Workspace := { w with lock := ⟨some 0, []⟩ }

theorem advance_entering (h : w.Free) (u : Update) :
    Call.advance setup env 0 ⟨.update u, .entering⟩ session w =
      Call.conclude setup ⟨.update u, .entering⟩ (w.taken.receive setup env session u) := by
  simp only [Call.advance, Call.cutShort, h.unload, Call.askLock, h.lock, Lock.request, Option.isNone_none,
    if_true]
  rfl

theorem advance_awaiting (h : w.Free) (he : w.evaluation = .integrated) (u : Update) :
    Call.advance setup env 0 ⟨.update u, .awaitingEvaluation⟩ session w =
      ⟨session, w, [], .going ⟨.update u, .entering⟩⟩ := by
  simp only [Call.advance, h.unload, he]

/-- From the entrance on, an evaluation and a build go alike. -/
theorem onUpdate_eq_carry (h : w.Free) (he : u.kind = .build → w.evaluation = .integrated) :
    w.onUpdate setup env session u = Call.carry setup env 0 3 ⟨.update u, .entering⟩ session w := by
  unfold onUpdate
  cases hu : u.payload with
  | evaluation e => simp only [Call.start, hu, Call.work]
  | build b =>
    -- a build asks first whether the evaluation is integrated, which takes one step more
    have hi := he (by rw [Update.kind, hu])
    simp only [Call.start, hu, Call.work]
    rw [Call.carry, advance_awaiting h hi]
    rfl

/-- A call that ends with its passage. -/
theorem onUpdate_of_finished (h : w.Free) (he : u.kind = .build → w.evaluation = .integrated)
    (hq : w.taken.receive setup env session u = ⟨session', w', events, .finished result⟩) :
    w.onUpdate setup env session u =
      ⟨session', { w' with lock := w'.lock.release },
        events ++ Call.report setup ⟨.update u, .entering⟩ result, .done result⟩ := by
  rw [onUpdate_eq_carry h he, Call.carry, advance_entering h, hq]
  rfl

/-- A call whose passage opens a batch. -/
theorem onUpdate_of_closing (h : w.Free) (he : u.kind = .build → w.evaluation = .integrated) {batch : OpenBatch}
    (hg : env.gateOpen = true)
    (hq : w.taken.receive setup env session u = ⟨session', w', events, .closing batch⟩)
    (hc : w'.close env session' batch = ⟨session'', w'', events', .finished result⟩) :
    w.onUpdate setup env session u =
      ⟨session'', { w'' with lock := w''.lock.release },
        events ++ (events' ++ Call.report setup ⟨.update u, .closing batch⟩ result), .done result⟩ := by
  have hclosing : Call.advance setup env 0 ⟨.update u, .closing batch⟩ session' w' =
      Call.conclude setup ⟨.update u, .closing batch⟩ (w'.close env session' batch) := by
    simp only [Call.advance, hg, if_true]
  rw [onUpdate_eq_carry h he, Call.carry, advance_entering h, hq]
  simp only [Call.conclude]
  rw [Call.carry, hclosing, hc]
  rfl

/-- A batch in which nothing failed, and which is not rejected, closes well. -/
theorem close_well {batch : OpenBatch} (hf : batch.failure = none) (hj : env.rejected = none) :
    w.close env session batch =
      ⟨session, (w.commit batch.commit).1, .context batch.serial .endBatch :: (w.commit batch.commit).2.1,
        .finished (.ok (w.commit batch.commit).2.2)⟩ := by
  simp only [close, hf, hj, Option.or_none]

/-! ## A workspace whose context is there -/

/-- Updates are accepted, and builds do not wait. -/
structure Open (w : Workspace) : Prop extends w.Free where
  status : w.status = .initialized
  evaluation : w.evaluation = .integrated

/-- The workspace after the batch of an evaluation. -/
def evaluated (env : Environment) (w : Workspace) (handle : ContextHandle) (e : Evaluation)
    (activity : Activity) : Workspace :=
  { w with
    context := some { handle with
      handlers := (handle.handlers.applyBoth env (w.seenRules e) (w.seenItems e) activity).state }
    baseline :=
      { w.baseline with
        rules := w.baseline.rules.insertAll (e.rules.mapValues fun _ c => c.after).toList
        items := w.baseline.items.insertAll
          (NameMap.ofList (e.items.toList.map fun i => (i.1, i.2.after))).toList
        activity := some activity } }

/-- What happens in the batch of an evaluation. -/
def evaluationEvents (env : Environment) (w : Workspace) (handle : ContextHandle) (versions : Versions)
    (e : Evaluation) (activity : Activity) : List Event :=
  .context handle.serial .startBatch ::
    (handle.handlers.applyBoth env (w.seenRules e) (w.seenItems e) activity).effects.map
      (Effect.event handle.serial) ++ .context handle.serial .endBatch :: w.tell versions

/-- The workspace after the batch of a build. -/
def built (env : Environment) (w : Workspace) (handle : ContextHandle) (b : Build) (activity : Activity) :
    Workspace :=
  { w with
    context := some { handle with
      handlers := (handle.handlers.applyArguments env (.between w.baseline.arguments b.arguments)
        activity).state }
    baseline :=
      { w.baseline with
        arguments := b.arguments
        lastBuildSucceeded := some !b.arguments.isEmpty
        activity := some activity }
    buildIntegrated := true }

/-- What happens in the batch of a build. -/
def buildEvents (env : Environment) (w : Workspace) (handle : ContextHandle) (versions : Versions) (b : Build)
    (activity : Activity) : List Event :=
  .context handle.serial .startBatch :: .context handle.serial (.mutate (.setOptions b.arguments)) ::
    ((handle.handlers.applyArguments env (.between w.baseline.arguments b.arguments) activity).effects.map
      (Effect.event handle.serial) ++
        [.context handle.serial (.mutate (.setLastBuildSucceeded b.producedItems))]) ++
    .context handle.serial .endBatch :: w.tell versions

theorem enroll_of_initialized (h : w.status = .initialized) (u : Update) : w.enroll setup u = (w, []) := by
  rw [enroll, h]

theorem receive_taken (h : w.status = .initialized) (u : Update) :
    w.taken.receive setup env session u =
      match u.payload with
      | .evaluation e => receiveEvaluation setup env session w.taken u.versions e
      | .build b => receiveBuild env session w.taken u.versions b := by
  have htaken : w.taken.status = .initialized := h
  rw [receive_of_admits (admits_eq_ok_iff.2 (.inr htaken)), enroll_of_initialized htaken]
  rfl

end Workspace

open Workspace (evaluated evaluationEvents built buildEvents)

section Process

variable {setup : Setup} {env : Environment} {session : Session} {w : Workspace} {u : Update} {e : Evaluation}
  {b : Build} {handle : ContextHandle}

theorem process_known (h : w.Open) (hu : u.payload = .evaluation e) (hc : w.context = some handle)
    (hk : w.Knows e (session.active.activityOf w.slice)) :
    process setup env (session, w) u = ((session, w), [⟨u, w.tell u.versions, some (.ok .done)⟩]) := by
  have hc' : w.taken.context = some handle := hc
  have hk' : w.taken.Knows e (session.active.activityOf w.taken.slice) := ⟨hk.rules, hk.items, hk.activity⟩
  have hq : w.taken.receive setup env session u =
      ⟨session, w.taken, w.tell u.versions, .finished (.ok .done)⟩ := by
    rw [Workspace.receive_taken h.status, hu]
    dsimp only
    rw [Workspace.receiveEvaluation_some hc', Workspace.evaluate_of_knows hk']
    rfl
  have hlock : ({ w.taken with lock := w.taken.lock.release } : Workspace) = w := by
    cases w
    cases h.lock
    rfl
  rw [process, Workspace.onUpdate_of_finished h.toFree (fun _ => h.evaluation) hq, hlock]
  simp [Call.report, Progress.result?]

theorem process_knownBuild (h : w.Open) (hu : u.payload = .build b)
    (hk : w.KnowsBuild b (session.active.activityOf w.slice)) :
    process setup env (session, w) u =
      ((session, { w with buildIntegrated := true }), [⟨u, w.tell u.versions, some (.ok .done)⟩]) := by
  have hk' : w.taken.KnowsBuild b (session.active.activityOf w.taken.slice) :=
    ⟨hk.arguments, hk.outcome, hk.activity⟩
  have hq : w.taken.receive setup env session u =
      ⟨session, { w.taken with buildIntegrated := true }, w.tell u.versions, .finished (.ok .done)⟩ := by
    rw [Workspace.receive_taken h.status, hu]
    dsimp only
    rw [Workspace.receiveBuild_of_knows hk']
    rfl
  have hlock : ({ w.taken with buildIntegrated := true, lock := w.taken.lock.release } : Workspace) =
      { w with buildIntegrated := true } := by
    cases w
    cases h.lock
    rfl
  rw [process, Workspace.onUpdate_of_finished h.toFree (fun _ => h.evaluation) hq]
  simp only [Call.report, Progress.result?, List.append_nil]
  exact congrArg (fun v => ((session, v), _)) hlock

theorem process_evaluation (h : w.Open) (hu : u.payload = .evaluation e) (hc : w.context = some handle)
    (hk : ¬w.Knows e (session.active.activityOf w.slice))
    (hf : (handle.handlers.applyBoth env (w.seenRules e) (w.seenItems e)
      (session.active.activityOf w.slice)).failure = none)
    (hg : env.gateOpen = true) (hj : env.rejected = none) :
    process setup env (session, w) u =
      ((session, w.evaluated env handle e (session.active.activityOf w.slice)),
        [⟨u, w.evaluationEvents env handle u.versions e (session.active.activityOf w.slice),
          some (.ok .done)⟩]) := by
  have hc' : w.taken.context = some handle := hc
  have hk' : ¬w.taken.Knows e (session.active.activityOf w.taken.slice) :=
    fun hk' => hk ⟨hk'.rules, hk'.items, hk'.activity⟩
  have hq : w.taken.receive setup env session u =
      Workspace.openEvaluation setup env session w.taken handle false u.versions e := by
    rw [Workspace.receive_taken h.status, hu]
    dsimp only
    rw [Workspace.receiveEvaluation_some hc', Workspace.evaluate_of_not_knows fun _ => hk']
  have hlock : ({ w.evaluated env handle e (session.active.activityOf w.slice) with
      lock := w.taken.lock.release, evaluation := .integrated } : Workspace) =
      w.evaluated env handle e (session.active.activityOf w.slice) := by
    cases w
    cases h.lock
    cases h.evaluation
    rfl
  rw [process, Workspace.onUpdate_of_closing h.toFree (fun _ => h.evaluation) hg hq
    (Workspace.close_well hf hj)]
  simp only [Call.report, Progress.result?, List.append_nil]
  rw [Workspace.evaluationEvents, List.cons_append]
  exact congrArg (fun v => ((session, v), _)) hlock

theorem process_build (h : w.Open) (hu : u.payload = .build b) (hc : w.context = some handle)
    (hk : ¬w.KnowsBuild b (session.active.activityOf w.slice))
    (hf : (handle.handlers.applyArguments env (.between w.baseline.arguments b.arguments)
      (session.active.activityOf w.slice)).failure = none)
    (hg : env.gateOpen = true) (hj : env.rejected = none) :
    process setup env (session, w) u =
      ((session, w.built env handle b (session.active.activityOf w.slice)),
        [⟨u, w.buildEvents env handle u.versions b (session.active.activityOf w.slice),
          some (.ok .done)⟩]) := by
  have hc' : w.taken.context = some handle := hc
  have hk' : ¬w.taken.KnowsBuild b (session.active.activityOf w.taken.slice) :=
    fun hk' => hk ⟨hk'.arguments, hk'.outcome, hk'.activity⟩
  have hq : w.taken.receive setup env session u =
      Workspace.openBuild env session w.taken handle u.versions b := by
    rw [Workspace.receive_taken h.status, hu]
    dsimp only
    rw [Workspace.receiveBuild_of_not_knows hk', hc']
  have hlock : ({ w.built env handle b (session.active.activityOf w.slice) with
      lock := w.taken.lock.release } : Workspace) = w.built env handle b (session.active.activityOf w.slice) := by
    cases w
    cases h.lock
    rfl
  rw [process, Workspace.onUpdate_of_closing h.toFree (fun _ => h.evaluation) hg hq
    (Workspace.close_well hf hj)]
  simp only [Call.report, Progress.result?, List.append_nil]
  rw [Workspace.buildEvents, List.cons_append, List.cons_append]
  exact congrArg (fun v => ((session, v), _)) hlock

/-! ## The first evaluation -/

/-- The context could not be created; no update gets through any more. -/
structure Workspace.Broken (w : Workspace) : Prop extends w.Free where
  status : w.status = .failed
  evaluation : w.evaluation = .failed

theorem process_broken (h : w.Broken) (u : Update) :
    process setup env (session, w) u = ((session, w), [⟨u, [], some (.error .failed)⟩]) := by
  cases hu : u.payload with
  | evaluation e =>
    have hq : w.taken.receive setup env session u =
        ⟨session, w.taken, [], .finished (.error .failed)⟩ := by
      have hstatus : w.taken.status = .failed := h.status
      simp only [Workspace.receive, Workspace.admits, hstatus]
    have hbuild : u.kind = .build → w.evaluation = .integrated := by
      rw [Update.kind, hu]
      nofun
    have hlock : ({ w.taken with lock := w.taken.lock.release } : Workspace) = w := by
      cases w
      cases h.lock
      rfl
    rw [process, Workspace.onUpdate_of_finished h.toFree hbuild hq, hlock]
    rfl
  | build b =>
    have hcarry : w.onUpdate setup env session u = ⟨session, w, [], .done (.error .failed)⟩ := by
      simp only [Workspace.onUpdate, Call.start, hu, Call.work, Call.carry, Call.advance, h.unload, h.evaluation]
      rfl
    rw [process, hcarry]
    rfl

/-- The context is there, its handlers are the standard ones, and the activity is the one told last. -/
structure Running (s : Session × Workspace) : Prop where
  opened : s.2.Open
  activity : s.2.baseline.activity = some (s.1.active.activityOf s.2.slice)
  context : ∃ handle k, s.2.context = some handle ∧ handle.handlers = .standard k ∧ k.Listed

/-- The call with the first evaluation ends: it has created the context, or none can be created. -/
theorem process_first (hr : setup.registry = .standard) (hg : env.gateOpen = true) (hj : env.rejected = none)
    (session : Session) (slice : Slice) (hu : u.payload = .evaluation e) :
    ((process setup env (session, { slice }) u).1.2.Broken ∨
        Running (process setup env (session, { slice }) u).1) ∧
      ∀ p ∈ (process setup env (session, { slice }) u).2, p.result.isSome := by
  have hfree : Workspace.Free { slice } := ⟨rfl, rfl⟩
  have hbuild : u.kind = .build → ({ slice } : Workspace).evaluation = .integrated := by
    rw [Update.kind, hu]
    nofun
  have hreceives : Workspace.Receives setup env session (Workspace.taken { slice }) u _ := Workspace.receives u
  obtain ⟨status, owner, henroll, hstatus⟩ : ∃ status owner, ((Workspace.taken { slice }).enroll setup u).1 =
      { Workspace.taken { slice } with status, owner } ∧ (_ → status = .initialized) := Workspace.enroll_eq _ u
  obtain rfl := hstatus rfl
  generalize hq : (Workspace.taken { slice }).receive setup env session u = q at hreceives
  -- the workspace is new: it has no context, so an evaluation can neither be skipped nor find one
  cases hreceives with
  | refused h => cases h
  | uncreated h hu' hc hf =>
    rw [process, Workspace.onUpdate_of_finished hfree hbuild hq]
    refine ⟨.inl ⟨⟨?_, ?_⟩, rfl, rfl⟩, fun p hp => ?_⟩
    · rw [henroll]
      rfl
    · rw [henroll]
      rfl
    · rw [List.mem_singleton.1 hp]
      rfl
  | @creates e' session' handle events h hu' hc hs =>
    cases hu.symm.trans hu'
    obtain ⟨-, -, hhandlers, -⟩ := Session.create_eq hs
    rw [hr, resolve_standard] at hhandlers
    rw [henroll] at hq
    obtain ⟨hstate, hfailure, -⟩ := HandlerSet.standard_applyBoth (Kept.ofProject e.project) env
      (session'.active.activityOf slice) (e.rules.mapValues (Workspace.rebased ∅))
      (e.items.mapValues (Workspace.rebased ∅))
    rw [← hhandlers] at hstate hfailure
    rw [process, Workspace.onUpdate_of_closing hfree hbuild hg hq (Workspace.close_well hfailure hj)]
    refine ⟨.inr ⟨⟨⟨rfl, rfl⟩, rfl, rfl⟩, rfl, ?_⟩, fun p hp => ?_⟩
    · exact ⟨_, _, rfl, hstate, (Kept.listed_ofProject e.project).withItems _⟩
    · rw [List.mem_singleton.1 hp]
      rfl
  | skips h hu' hc => cases hc
  | applies h hu' hc => cases hc
  | skipsBuild h hu' => cases hu.symm.trans hu'
  | misses h hu' => cases hu.symm.trans hu'
  | appliesBuild h hu' => cases hu.symm.trans hu'

end Process

end SliceSync
