import SliceSync.Proofs.Accounts
/-!
# Batches under way

A batch that waits to be closed was opened by a passage of its request at some earlier time. Since then its
call has had the lock: the workspace is as the passage left it but for lock and token, and nothing has been
heard there but of calls that were cut short.

Main statement: `World.underway`.
-/

namespace SliceSync

/-- The only ending of a step, read off its parts. -/
theorem Ending.mem_of_map_eq {l : List Ending} {place : Nat} {request : Request} {result : Except SyncError Answer}
    (h : l.map (fun e => (e.place, e.request, e.result)) = [(place, request, result)]) :
    ⟨place, request, result⟩ ∈ l := by
  obtain ⟨e, rfl, heq⟩ := List.map_eq_singleton_iff.1 h
  cases e
  cases heq
  exact List.mem_singleton_self _

/-- Where a batch under way comes from: the acts before its call got the lock, how the collaborators answered
when it did, and the acts since. -/
structure Origin where
  earlier : List Act
  env : Environment
  during : List Act
  /-- The workspace as the call found it under the lock. -/
  found : Workspace

namespace Origin

/-- All acts, with the step of a job with which the batch was opened. -/
def acts (o : Origin) (me : JobId) : List Act := o.earlier ++ .advance o.env me :: o.during

/-- The passage that opened the batch. -/
def passage (o : Origin) (setup : Setup) (request : Request) : Passage :=
  request.passage setup o.env (World.run setup o.earlier).session o.found

end Origin

/-- Nothing is heard but faults. -/
def Event.OnlyFaults (l : List Event) : Prop := ∀ e ∈ l, ∃ error severity, e = .fault error severity

namespace Event

theorem OnlyFaults.append {l m : List Event} (h : OnlyFaults l) (h' : OnlyFaults m) : OnlyFaults (l ++ m) := by
  intro e he
  rcases List.mem_append.1 he with he | he
  · exact h e he
  · exact h' e he

/-- Contexts hear nothing of faults, and no handler is called for them. -/
theorem OnlyFaults.silent {l : List Event} (h : OnlyFaults l) :
    (∀ n, callsOf n l = []) ∧ handlings l = [] := by
  constructor
  · refine fun n => callsOf_eq_nil fun e he call => ?_
    obtain ⟨error, severity, rfl⟩ := h e he
    nofun
  · refine List.filterMap_eq_nil_iff.2 fun e he => ?_
    obtain ⟨error, severity, rfl⟩ := h e he
    rfl

end Event

/-! ## The opening of a batch -/

/-- What becomes of the baseline when an update has been integrated, taken up under an activity. -/
def Update.commit (u : Update) (activity : Activity) : Commit :=
  match u.payload with
  | .evaluation e => .ofEvaluation u.versions e activity
  | .build b => .build u.versions b.arguments activity

namespace Workspace

variable {setup : Setup} {env : Environment} {session : Session} {w : Workspace} {u : Update} {p : Passage}
  {batch : OpenBatch}

/-- What an update finds that opens a batch, and what it leaves. -/
structure Opens (setup : Setup) (env : Environment) (session : Session) (w : Workspace) (u : Update) (p : Passage)
    (batch : OpenBatch) (handle : ContextHandle) : Prop where
  admits : w.admits = .ok ()
  /-- The context is there, or comes with the evaluation. -/
  context : w.context = some handle ∨
    w.context = none ∧ u.kind = .evaluation ∧ handle.handlers = setup.registry.resolve u.project
  serial : batch.serial = handle.serial
  left : p.workspace.context =
    some { handle with handlers := (w.roundOf u.payload ⟨env, session, u.versions⟩ handle.handlers).state }
  /-- A new context is told how the last build went, and so is the baseline. -/
  baseline : p.workspace.baseline = if w.context.isSome then w.baseline else
    { w.baseline with lastBuildSucceeded := some !setup.settings.suppressDiagnosticsUntilBuild }
  evaluation : p.workspace.evaluation = w.evaluation
  buildIntegrated : p.workspace.buildIntegrated = w.buildIntegrated
  failure : batch.failure = (w.roundOf u.payload ⟨env, session, u.versions⟩ handle.handlers).failure
  handlings : Event.handlings p.events =
    Effect.calls (w.roundOf u.payload ⟨env, session, u.versions⟩ handle.handlers).effects
  /-- The context hears of the outcome if it is new, and then of the payload. -/
  calls : ∀ n, Event.callsOf n p.events = if n = handle.serial then .startBatch ::
    ((if w.context.isSome then [] else
        [Mutation.setLastBuildSucceeded !setup.settings.suppressDiagnosticsUntilBuild]) ++
      u.payload.tells (Effect.mutations
        (w.roundOf u.payload ⟨env, session, u.versions⟩ handle.handlers).effects)).map .mutate else []
  commit : batch.commit = u.commit (session.active.activityOf w.slice)

theorem Receives.opens (h : w.Receives setup env session u p) (hh : p.held = .closing batch) :
    ∃ handle, Opens setup env session w u p batch handle := by
  have enrolled : Event.handlings (w.enroll setup u).2 = [] := w.handlings_enroll setup u
  cases h with
  | refused | uncreated | skips | skipsBuild | misses => cases hh
  | @creates e session' handle events ha hu hc hs =>
    cases hh
    obtain ⟨-, -, hhandlers, params, rfl⟩ := Session.create_eq hs
    obtain ⟨-, -, hactive⟩ := Session.create_live hs
    have created (l : List Event) :
        Event.handlings (.created session.created params :: l) = Event.handlings l := rfl
    have unheard (n : Nat) : Event.callsOf n ((w.enroll setup u).2 ++ [.created session.created params]) = [] := by
      rw [Event.callsOf_append, callsOf_enroll]
      rfl
    refine ⟨handle, ha, .inr ⟨hc, by simp [Update.kind, hu], ?_⟩, rfl, ?_, ?_, enroll_evaluation u,
      enroll_buildIntegrated u, ?_, ?_, fun n => ?_, ?_⟩
    · rw [hhandlers, Update.project, hu]
    · simp [hu, roundOf, seenRules, seenItems, activityOn, hactive, Passage.after, openEvaluation]
    · simp [hc, Passage.after, openEvaluation]
    · simp [hu, roundOf, seenRules, seenItems, activityOn, hactive]
    · simp [hu, roundOf, seenRules, seenItems, activityOn, hactive, Passage.after, openEvaluation, enrolled, created]
    · rw [callsOf_after (unheard n), callsOf_openEvaluation]
      simp [hu, hc, roundOf, seenRules, seenItems, activityOn, hactive, Payload.tells]
    · simp [Update.commit, hu, hactive]
  | @applies e handle ha hu hc =>
    cases hh
    refine ⟨handle, ha, .inl hc, rfl, ?_, ?_, enroll_evaluation u, enroll_buildIntegrated u, ?_, ?_, fun n => ?_, ?_⟩
    · simp [hu, roundOf, seenRules, seenItems, activityOn, Passage.after, openEvaluation]
    · simp [hc, Passage.after, openEvaluation]
    · simp [hu, roundOf, seenRules, seenItems, activityOn]
    · simp [hu, roundOf, seenRules, seenItems, activityOn, Passage.after, openEvaluation, enrolled]
    · rw [callsOf_after (callsOf_enroll ..), callsOf_openEvaluation]
      simp [hu, hc, roundOf, seenRules, seenItems, activityOn, Payload.tells]
    · simp [Update.commit, hu]
  | @appliesBuild b handle ha hu hc =>
    cases hh
    refine ⟨handle, ha, .inl hc, rfl, ?_, ?_, enroll_evaluation u, enroll_buildIntegrated u, ?_, ?_, fun n => ?_, ?_⟩
    · simp [hu, roundOf, activityOn, Passage.after, openBuild]
    · simp [hc, Passage.after, openBuild]
    · simp [hu, roundOf, activityOn]
    · simp [hu, roundOf, activityOn, Passage.after, openBuild, enrolled]
    · rw [callsOf_after (callsOf_enroll ..), callsOf_openBuild]
      simp [hu, hc, roundOf, activityOn, Payload.tells]
    · simp [Update.commit, hu]

theorem Receives.baseline {u : Update} {p : Passage} (h : w.Receives setup env session u p) :
    ∃ lastBuildSucceeded, p.workspace.baseline = { w.baseline with lastBuildSucceeded } := by
  have enrolled : (w.enroll setup u).1.baseline = w.baseline := enroll_baseline u
  cases h with
  | creates =>
    refine ⟨some !setup.settings.suppressDiagnosticsUntilBuild, ?_⟩
    simp [Passage.after, openEvaluation]
  | refused => exact ⟨_, rfl⟩
  | uncreated | skips | applies | skipsBuild | misses | appliesBuild => exact ⟨_, enrolled⟩

end Workspace

/-- Before a batch is closed nothing that was delivered changes. -/
theorem Request.passage_baseline (setup : Setup) (env : Environment) (session : Session) (w : Workspace)
    (request : Request) : ∃ lastBuildSucceeded,
      (request.passage setup env session w).workspace.baseline = { w.baseline with lastBuildSucceeded } := by
  have h := request.enters setup env session w
  generalize request.passage setup env session w = p at h ⊢
  cases h with
  | receives h => exact h.baseline
  | _ => exact ⟨_, rfl⟩

/-! ## Calls under the lock -/

/-- Who is not under the lock has no batch to close. -/
theorem Phase.not_closing {p : Phase} (h : p.holds = false) (batch : OpenBatch) : p ≠ .closing batch := by
  rintro rfl
  cases h

/-- A call ends with the result of its passage. -/
theorem Call.finished_of_done {setup : Setup} {c : Call} {p : Passage} {result : Except SyncError Answer}
    (h : (c.conclude setup p).progress = .done result) : p.held = .finished result := by
  unfold conclude at h
  cases hh : p.held <;> rw [hh] at h <;> cases h
  rfl

namespace Scene

variable {t : Terms} {i : Nat} {s s' : Scene} {past ended : List Ending} {me : JobId} {c : Call}

theorem after_workspace (s : Scene) (me : JobId) (a : Advance) : (s.after me a).workspace = a.workspace := rfl

/-- What a passage leaves stays, but for the lock. -/
theorem workspace_after_conclude (s : Scene) (setup : Setup) (me : JobId) (c : Call) (p : Passage) :
    ∃ lock, (s.after me (c.conclude setup p)).workspace = { p.workspace with lock } :=
  Call.conclude_workspace setup c p

theorem Answerable.not_disposed (h : s.Answerable t past) (hu : s.workspace.unload.cause = none) :
    s.workspace.status ≠ .disposed := by
  intro hd
  have hcause := h.torn hd
  rw [hu] at hcause
  cases hcause

/-- A call under the lock was there before, or has just begun to be. -/
theorem Orderly.holding_step (h : s.Orderly past) (hs : Step t i s s' ended) (hc : s'.calls me = some c)
    (hp : c.phase.holds = true) :
    s.calls me = some c ∨ ∃ c₀, s.calls me = some c₀ ∧ c₀.phase.holds = false := by
  cases hs with
  | rests | unloads => exact .inl hc
  | begins hnone => exact .inl ((calls_begin hnone hp).1 hc)
  | @goes env job other session he hjob =>
    by_cases hme : me = job
    · subst hme
      have hgoes := h.goes (t := t) hjob (Call.paths t.setup env me session s.workspace (h.fit hjob))
      have hgoing := after_calls_self.1 hc
      generalize other.advance t.setup env me session s.workspace = a at hgoes hgoing
      cases hgoes with
      | quiet _ _ _ hgo =>
        rcases hgo c hgoing with rfl | ⟨hbefore, -⟩
        · exact .inl hjob
        · exact .inr ⟨other, hjob, hbefore⟩
      | passes lock unload _ _ _ _ hk =>
        rcases hk with ⟨hbefore, -⟩ | ⟨batch, -, -, rfl⟩ | ⟨handle, -, -, rfl⟩
        · exact .inr ⟨other, hjob, hbefore⟩
        · rw [(Call.conclude_finished _ _ (Workspace.close_result ..)).1] at hgoing
          cases hgoing
        · cases hgoing
    · rw [after_calls_of_ne _ _ hme] at hc
      exact .inl hc

/-- While a call stays under the lock nothing happens but that others come, wait or are cut short. -/
theorem Orderly.keeps_under (h : s.Orderly past) (hs : Step t i s s' ended) (hc : s.calls me = some c)
    (hc' : s'.calls me = some c) (hp : c.phase.holds = true) :
    (∃ lock unload, s'.workspace = { s.workspace with lock, unload }) ∧
      ∃ faults, s'.log = s.log ++ faults ∧ Event.OnlyFaults faults := by
  rcases h.cases_step hs with ⟨⟨unload, hw⟩, hlog, -⟩ | ⟨env, job, other, session, a, -, hjob, hgoes, rfl, -⟩
  · exact ⟨⟨_, _, hw⟩, [], by rw [hlog, List.append_nil], fun _ he => absurd he List.not_mem_nil⟩
  · cases hgoes with
    | quiet _ hw he => exact ⟨hw, _, rfl, he⟩
    | passes lock unload hme _ _ _ hk =>
      -- the step would be its own, and would end it
      obtain rfl := hme hc hp
      obtain rfl : c = other := Option.some.inj (hc.symm.trans hjob)
      have hgoing := after_calls_self.1 hc'
      rcases hk with ⟨hbefore, -⟩ | ⟨batch, -, -, rfl⟩ | ⟨handle, -, -, rfl⟩
      · rw [hp] at hbefore
        cases hbefore
      · rw [(Call.conclude_finished _ _ (Workspace.close_result ..)).1] at hgoing
        cases hgoing
      · cases hgoing

end Scene

namespace World

variable {setup : Setup} {acts : List Act} {i : Nat} {me : JobId} {request : Request} {batch : OpenBatch}

/-- The batch that a call waits to close, after some acts, comes from there. -/
structure Underway (setup : Setup) (acts : List Act) (i : Nat) (me : JobId) (request : Request) (batch : OpenBatch)
    (o : Origin) : Prop where
  split : acts = o.acts me
  /-- The call had not got the lock before. -/
  before : ∃ c, (run setup o.earlier).callAt me = some (i, c) ∧ c.request = request ∧ c.phase.holds = false
  found : ∃ w lock unload, (run setup o.earlier).workspace? i = some w ∧ o.found = { w with lock, unload }
  held : (o.passage setup request).held = .closing batch
  /-- It has been under the lock ever since. -/
  since : ∀ part, part <+: o.during →
    (run setup (o.earlier ++ .advance o.env me :: part)).callAt me = some (i, ⟨request, .closing batch⟩)
  workspace : ∃ lock unload,
    (run setup acts).workspace? i = some { (o.passage setup request).workspace with lock, unload }
  log : ∃ faults, (run setup acts).eventsAt i =
    (run setup o.earlier).eventsAt i ++ (o.passage setup request).events ++ faults ∧ Event.OnlyFaults faults

theorem eventsAt_of_scene {w : World} {s : Scene} (hs : w.view.HasScene i s) : w.eventsAt i = s.log := hs.log.symm

theorem workspace_of_scene {w : World} {s : Scene} (hs : w.view.HasScene i s) :
    w.workspace? i = some s.workspace := by rw [← view_workspaces, hs.workspace]

/-- Who has a call under the lock has a workspace for it. -/
theorem scene_of_holds {c : Call} (hc : (run setup acts).callAt me = some (i, c)) (hp : c.phase.holds = true) :
    ∃ s past, (run setup acts).view.HasScene i s ∧ s.Orderly past ∧ s.calls me = some c := by
  rcases (plays_orderly setup acts i).2 with ⟨hv, -⟩ | ⟨s, hs, h⟩
  · obtain ⟨request, rfl⟩ := hv.calls me c hc
    rw [Call.start_holds] at hp
    cases hp
  · exact ⟨s, _, hs, h, (hs.calls me c).2 hc⟩

/-- What a step of a call leaves, as far as it is seen here. -/
theorem stepped {s : Scene} {c : Call} {env : Environment} {a : Advance}
    (hs : (run setup acts).view.HasScene i s) (hc : s.calls me = some c)
    (ha : c.advance setup env me (run setup acts).session s.workspace = a) :
    (run setup (acts ++ [.advance env me])).view.HasScene i (s.after me a) ∧
      (run setup (acts ++ [.advance env me])).session = a.session ∧
      (run setup acts).endings (.advance env me) = a.endings i c.request ∧
      (run setup (acts ++ [.advance env me])).log =
        (run setup acts).log ++ a.events.map fun event => ⟨me, i, event⟩ := by
  have hkeeps := (plays_orderly setup acts i).1
  have hfits : (freely setup).fits env := trivial
  obtain ⟨hs', hsession, hends⟩ := goes_here hkeeps hfits hs hc
  obtain ⟨slices, hv⟩ := advance_view hkeeps hfits ((hs.calls me c).1 hc) hs.workspace
  rw [run_concat, ← ha]
  refine ⟨hs', hsession, hends, ?_⟩
  rw [hkeeps.setup] at hv
  exact congrArg View.log hv

/-- A batch is opened by the step with which its call gets the lock. -/
theorem underway_opens {s : Scene} {past : List Ending} {c₀ c : Call} {env : Environment}
    (hs : (run setup acts).view.HasScene i s) (h : s.Orderly past) (hc₀ : s.calls me = some c₀)
    (hbefore : c₀.phase.holds = false) (hc : (run setup (acts ++ [.advance env me])).callAt me = some (i, c))
    (hp : c.phase = .closing batch) :
    ∃ found, Underway setup (acts ++ [.advance env me]) i me c.request batch ⟨acts, env, [], found⟩ := by
  have hgoes := h.goes (t := freely setup) hc₀
    (Call.paths setup env me (run setup acts).session s.workspace (h.fit hc₀))
  obtain ⟨a, ha⟩ : ∃ a, c₀.advance setup env me (run setup acts).session s.workspace = a := ⟨_, rfl⟩
  rw [ha] at hgoes
  have hs' := (stepped hs hc₀ ha).1
  have hgoing := Scene.after_calls_self.1 ((hs'.calls me c).2 hc)
  have holds : c.phase.holds = true := by rw [hp]; rfl
  cases hgoes with
  | quiet _ _ _ hgo =>
    rcases hgo c hgoing with rfl | ⟨-, hnot, -⟩
    · cases holds.symm.trans hbefore
    · cases holds.symm.trans hnot
  | @passes p lock unload _ _ _ _ hk =>
    obtain ⟨hkept, hrequest, ⟨other, hheld, hphase⟩ | ⟨handle, -, hphase⟩⟩ := Call.conclude_going hgoing
    · cases hp.symm.trans hphase
      rcases hk with ⟨-, hpassage⟩ | ⟨other, hclosing, -⟩ | ⟨handle, hreleasing, -⟩
      · let o : Origin := ⟨acts, env, [], { s.workspace with lock, unload }⟩
        have ho : o.passage setup c.request = p := by
          rw [hrequest, hpassage]
          rfl
        have hlog : (run setup (acts ++ [.advance env me])).eventsAt i = (run setup acts).eventsAt i ++ p.events := by
          rw [eventsAt_of_scene hs', eventsAt_of_scene hs]
          exact congrArg (s.log ++ ·) (Call.conclude_closing (freely setup).setup c₀ hheld).2
        refine ⟨o.found, rfl, ⟨c₀, (hs.calls me c₀).1 hc₀, hrequest.symm, hbefore⟩,
          ⟨s.workspace, lock, unload, workspace_of_scene hs, rfl⟩, ?_, fun part hpart => ?_,
          ⟨p.workspace.lock, p.workspace.unload, ?_⟩, [], ?_, fun _ he => absurd he List.not_mem_nil⟩
        · exact (congrArg Passage.held ho).trans hheld
        · obtain rfl := List.prefix_nil.1 hpart
          rw [hc, ← hp]
        · rw [show Origin.passage ⟨acts, env, [], o.found⟩ setup c.request = p from ho]
          exact (workspace_of_scene hs').trans (congrArg some hkept)
        · rw [List.append_nil]
          exact hlog.trans (congrArg (fun p => (run setup acts).eventsAt i ++ p.events) ho.symm)
      · simp [hclosing, Phase.holds] at hbefore
      · simp [hreleasing, Phase.holds] at hbefore
    · cases hp.symm.trans hphase

/-- A batch that stays under way comes from where it came from. -/
theorem Underway.concat {o : Origin} {s : Scene} {past : List Ending} {a : Act}
    (hu : Underway setup acts i me request batch o) (hs : (run setup acts).view.HasScene i s) (h : s.Orderly past)
    (hc : s.calls me = some ⟨request, .closing batch⟩)
    (hc' : (run setup (acts ++ [a])).callAt me = some (i, ⟨request, .closing batch⟩)) :
    Underway setup (acts ++ [a]) i me request batch { o with during := o.during ++ [a] } := by
  obtain ⟨s', hs', hstep⟩ := hs.move (perform_moves (plays_orderly setup acts i).1 (within_freely setup a))
  rw [← run_concat] at hs'
  obtain ⟨⟨lock, unload, hw⟩, faults, hlog, hfaults⟩ := h.keeps_under hstep hc ((hs'.calls me _).2 hc') rfl
  obtain ⟨lock₀, unload₀, hw₀⟩ := hu.workspace
  obtain ⟨faults₀, hlog₀, hfaults₀⟩ := hu.log
  have hacts : acts ++ [a] = Origin.acts { o with during := o.during ++ [a] } me := by
    rw [hu.split]
    simp [Origin.acts]
  refine ⟨hacts, hu.before, hu.found, hu.held, fun part hpart => ?_, ⟨lock, unload, ?_⟩, faults₀ ++ faults, ?_,
    hfaults₀.append hfaults⟩
  · rcases List.prefix_concat_iff.1 hpart with rfl | hpart
    · rw [← hc', hacts]
      rfl
    · exact hu.since part hpart
  · rw [workspace_of_scene hs] at hw₀
    rw [workspace_of_scene hs', hw, Option.some.inj hw₀]
    rfl
  · rw [eventsAt_of_scene hs', hlog, ← eventsAt_of_scene hs, hlog₀, List.append_assoc]
    rfl

/-- Every batch that waits to be closed was opened when its call got the lock. -/
theorem underway {c : Call} (hc : (run setup acts).callAt me = some (i, c)) (hp : c.phase = .closing batch) :
    ∃ o, Underway setup acts i me c.request batch o := by
  have holds : c.phase.holds = true := by rw [hp]; rfl
  induction acts using List.reverseRecOn with
  | nil => cases hc
  | append_singleton acts a ih =>
    obtain ⟨s', past, hs', -, hcall⟩ := scene_of_holds hc holds
    obtain ⟨hkeeps, ⟨hv, -⟩ | ⟨s, hs, h⟩⟩ := plays_orderly setup acts i
    · -- a workspace that has just come has nobody under the lock
      rcases hv.move (perform_moves hkeeps (within_freely setup a)) with hv' | ⟨s'', hs'', hfresh⟩
      · rw [← run_concat] at hv'
        exact absurd (hs'.workspace.symm.trans hv'.workspace) nofun
      · rw [← run_concat] at hs''
        cases hs''.unique hs'
        obtain ⟨request, rfl⟩ := hfresh.calls me c hcall
        rw [Call.start_holds] at holds
        cases holds
    · obtain ⟨s'', hs'', hstep⟩ := hs.move (perform_moves hkeeps (within_freely setup a))
      rw [← run_concat] at hs''
      cases hs''.unique hs'
      rcases h.holding_step hstep hcall holds with hsame | ⟨c₀, hc₀, hbefore⟩
      · obtain ⟨o, ho⟩ := ih ((hs.calls me c).1 hsame)
        have hself : c = ⟨c.request, .closing batch⟩ := by rw [← hp]
        rw [hself] at hsame hc
        exact ⟨_, ho.concat hs h hsame hc⟩
      · -- only its own step gives a call the lock
        obtain ⟨env, rfl⟩ : ∃ env, a = .advance env me := by
          by_contra hnot
          have hstays := callAt_perform hkeeps (within_freely setup a) ((hs.calls me c₀).1 hc₀) fun env heq =>
            hnot ⟨env, heq⟩
          rw [← run_concat, hc] at hstays
          cases hstays
          exact absurd (holds.symm.trans hbefore) nofun
        obtain ⟨found, ho⟩ := underway_opens hs h hc₀ hbefore hc hp
        exact ⟨_, ho⟩

/-- What the slice of a workspace is to the session. -/
def activityAt (w : World) (i : Nat) : Option Activity :=
  (w.workspace? i).map fun ws => w.session.active.activityOf ws.slice

/-- The batch of an update under way: what it found when it was opened, and what it left. -/
theorem Underway.opens {o : Origin} {u : Update} (hu : Underway setup acts i me (.update u) batch o) :
    ∃ handle, Workspace.Opens setup o.env (run setup o.earlier).session o.found u (o.passage setup (.update u)) batch
      handle :=
  (Workspace.receives u).opens hu.held

/-- What the context has heard of a batch under way. -/
theorem Underway.heard {o : Origin} (hu : Underway setup acts i me request batch o) :
    (o.passage setup request).workspace.context.map (·.serial) = some batch.serial ∧
      ∃ mutations : List Mutation, ∀ n, Event.callsOf n (o.passage setup request).events =
        if n = batch.serial then .startBatch :: mutations.map .mutate else [] := by
  have heard : Heard (run setup o.earlier).session o.found (o.passage setup request) :=
    request.passage_heard setup o.env (run setup o.earlier).session o.found
  have hheld := hu.held
  generalize o.passage setup request = p at heard hheld
  cases heard with
  | opening hh hc _ he =>
    cases hh.symm.trans hheld
    exact ⟨hc, he⟩
  | nothing hh | parting hh => exact absurd (hh.symm.trans hheld) nofun

/-- An update under way was taken up under the activity of that time. -/
theorem Underway.commit {o : Origin} {u : Update} {activity : Activity}
    (hu : Underway setup acts i me (.update u) batch o)
    (ha : (run setup o.earlier).activityAt i = some activity) : batch.commit = u.commit activity := by
  obtain ⟨handle, hopens⟩ := hu.opens
  obtain ⟨w, lock, unload, hw, hfound⟩ := hu.found
  rw [activityAt, hw] at ha
  cases ha
  rw [hopens.commit, hfound]

/-- Whose call ends, other than for want of a workspace, has a workspace for it. -/
theorem scene_of_ending {env : Environment} {result : Except SyncError Answer}
    (he : ⟨i, request, result⟩ ∈ (run setup acts).endings (.advance env me)) (hr : result ≠ .error .disposed) :
    ∃ s c, (run setup acts).view.HasScene i s ∧ s.calls me = some c ∧ c.request = request ∧
      (c.advance setup env me (run setup acts).session s.workspace).progress = .done result ∧
      (run setup (acts ++ [.advance env me])).view.HasScene i
        (s.after me (c.advance setup env me (run setup acts).session s.workspace)) := by
  have hkeeps := (plays_orderly setup acts i).1
  cases hc : (run setup acts).callAt me with
  | none => simp [endings_of_none hc] at he
  | some at_ =>
    obtain ⟨j, c⟩ := at_
    cases hw : (run setup acts).view.workspaces[j]? with
    | none =>
      rw [view_workspaces] at hw
      have hnone : (run setup acts).hosted[j]? = none := by simpa [workspace?] using hw
      simp only [endings, hc, advanceCall, hnone, List.mem_singleton, Ending.mk.injEq] at he
      exact absurd he.2.2 hr
    | some ws =>
      rw [endings_of_call hc hw, hkeeps.setup] at he
      obtain ⟨_, hdone, heq⟩ := Advance.mem_endings_iff.1 he
      cases heq
      obtain ⟨s, hs, rfl⟩ := View.exists_scene hw
      have hcall : s.calls me = some c := (hs.calls me c).2 hc
      exact ⟨s, c, hs, hcall, rfl, hdone, (stepped hs hcall rfl).1⟩

end World

end SliceSync
