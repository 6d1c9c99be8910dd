import SliceSync.Proofs.Redelivery
/-!
# Failed batches

An update that was taken up and whose handlers or batch failed leaves the books as they were: what is held and the
two signals say what they said when the update got the lock, but for the outcome that a new context was told. Of
its handlers those were called that come before the first to fail, and that one; the batch was closed all the same.
Until an evaluation has ended well nothing is held at all (`World.blank_run`), so that the next one is seen in full.

Main statement: `World.unintegrated`.
-/

namespace SliceSync

/-! ## How the round of an update stops -/

/-- The round of an update stops with the first handler that fails. -/
theorem Workspace.roundOf_stops (w : Workspace) (x : Payload) (o : Occasion) (handlers : HandlerSet) :
    Stops o.env (Effect.calls (w.roundOf x o handlers).effects) (w.roundOf x o handlers).failure := by
  cases x with
  | evaluation e => exact HandlerSet.applyBoth_stops
  | build b => exact .round 0 HandlerSet.callArguments_stops

/-! ## Errors of a batch -/

theorem Workspace.ofBatch_of_admits {w : Workspace} {error : SyncError} (h : w.admits = .error error) :
    error.ofBatch = false := by
  unfold admits at h
  split at h
  · cases h
    rfl
  · split at h
    · rename_i other hcheck
      cases h
      unfold UnloadToken.check at hcheck
      split at hcheck
      · rename_i cause _
        cases hcheck
        cases cause <;> rfl
      · cases hcheck
    · cases h
      rfl
  · cases h
  · cases h

/-- Before its batch is closed no request fails with it, unless the factory answers so. -/
theorem Request.ofBatch_of_passage {setup : Setup} {env : Environment} {session : Session} {w : Workspace}
    {request : Request} {error : SyncError} (hf : env.refused ≠ some error)
    (h : (request.passage setup env session w).held = .finished (.error error)) : error.ofBatch = false := by
  have hp := request.enters setup env session w
  generalize request.passage setup env session w = p at h hp
  cases hp with
  | receives hp =>
    cases hp.notified with
    | refused ha hh =>
      cases hh.symm.trans h
      exact Workspace.ofBatch_of_admits ha
    | uncreated _ hc hh =>
      cases hh.symm.trans h
      have hcreation := hc.resolve_right hf
      cases error <;> first | rfl | cases hcreation
    | misses _ _ _ hh =>
      cases hh.symm.trans h
      rfl
    | skipped hh | opened hh => exact absurd (hh.symm.trans h) nofun
  | refuses ha =>
    cases h
    exact Workspace.ofBatch_of_admits ha
  | lacks =>
    cases h
    rfl
  | writes | gone | releases | departs | answers => cases h

/-- A call that ends with the error of a batch has closed it. -/
theorem Call.Paths.closes_of_ofBatch {setup : Setup} {env : Environment} {me : JobId} {c : Call} {session : Session}
    {w : Workspace} {a : Advance} (h : c.Paths setup env me session w a) {error : SyncError}
    (hdone : a.progress = .done (.error error)) (herror : error.ofBatch = true) (hf : env.refused ≠ some error) :
    ∃ batch, c.phase = .closing batch ∧ batch.result env = .error error ∧
      a = c.conclude setup (w.close env session batch) := by
  have passed {w : Workspace}
      (hp : (c.conclude setup (c.request.passage setup env session w)).progress = .done (.error error)) : False := by
    have hnone : error.ofBatch = false := Request.ofBatch_of_passage hf (finished_of_done hp)
    exact absurd (herror.symm.trans hnone) nofun
  cases h with
  | stays | passes | queues => cases hdone
  | @yields cause =>
    cases hdone
    cases cause <;> cases herror
  | despairs =>
    cases hdone
    cases herror
  | learns => cases hdone
  | enters => exact (passed hdone).elim
  | succeeds => exact (passed hdone).elim
  | @closes batch hp hg =>
    refine ⟨batch, hp, ?_, rfl⟩
    rw [(conclude_finished _ _ (Workspace.close_result ..)).1] at hdone
    exact Progress.done.inj hdone
  | parts => cases hdone

/-! ## Before the first evaluation has ended well -/

namespace Workspace

variable {w : Workspace}

/-- Nothing is held that an update could have delivered. -/
structure Blank (w : Workspace) : Prop where
  rules : w.baseline.rules = ∅
  items : w.baseline.items = ∅
  arguments : w.baseline.arguments = []

/-- What the context was told of the outcome is of no account. -/
theorem Blank.congr {w' : Workspace} (h : w.Blank)
    (hb : ∃ lastBuildSucceeded, w'.baseline = { w.baseline with lastBuildSucceeded }) : w'.Blank := by
  obtain ⟨_, hb⟩ := hb
  exact ⟨by rw [hb]; exact h.rules, by rw [hb]; exact h.items, by rw [hb]; exact h.arguments⟩

end Workspace

namespace Scene

variable {t : Terms} {i : Nat} {s s' : Scene} {past ended : List Ending}

/-- Who closes the batch of a build has not got by without the first evaluation. -/
theorem Orderly.integrated_of_build (h : s.Orderly past) {me : JobId} {c : Call} {batch : OpenBatch}
    (hc : s.calls me = some c) (hp : c.phase = .closing batch) {versions : Versions} {arguments : List String}
    {activity : Activity} (hb : batch.commit = .build versions arguments activity) :
    s.workspace.evaluation = .integrated := by
  have hsuits := (h.fit hc).closing hp
  rw [hb] at hsuits
  cases hr : c.request with
  | update u =>
    rw [hr] at hsuits
    obtain ⟨b, hu⟩ := hsuits
    exact h.awaited hc (by rw [hr]; simp [Request.awaits, hu]) (by simp [hp])
  | _ =>
    rw [hr] at hsuits
    cases hsuits

/-- Nothing is held as long as no evaluation has ended well. -/
theorem Orderly.blank_step (h : s.Orderly past) (hs : Step t i s s' ended)
    (hb : s.workspace.evaluation ≠ .integrated → s.workspace.Blank) :
    s'.workspace.evaluation ≠ .integrated → s'.workspace.Blank := by
  rcases h.workspace_step hs with ⟨lock, unload, hw⟩ | ⟨env, me, c, session, lock, unload, p, last, hc, hp, hk, hw⟩
  · rw [hw]
    exact fun he => (hb he).congr ⟨_, rfl⟩
  · rw [hw]
    intro he
    suffices hblank : p.workspace.Blank from hblank.congr ⟨_, rfl⟩
    have hbefore : s.workspace.evaluation ≠ .integrated := by
      intro hi
      rcases hp.evaluation with hsame | ⟨hpending, -⟩ | ⟨-, hnow, -⟩
      · exact he (hsame.trans hi)
      · exact absurd (hi.symm.trans hpending) nofun
      · exact he hnow
    have hblank := hb hbefore
    rcases hk with rfl | ⟨batch, hphase, rfl⟩ | ⟨handle, -, rfl⟩
    · exact hblank.congr (Request.passage_baseline t.setup env session _ c.request)
    · unfold Workspace.close at he ⊢
      cases hresult : batch.failure.or env.rejected with
      | some error => exact hblank
      | none =>
        rw [hresult] at he
        cases hcommit : batch.commit with
        | evaluation versions rules items activity =>
          rw [hcommit] at he
          exact absurd rfl he
        | build versions arguments activity =>
          exact absurd (h.integrated_of_build hc hphase hcommit) hbefore
        | write id => exact hblank
    · exact hblank.congr ⟨_, rfl⟩

end Scene

/-- In every run nothing is held until an evaluation has ended well. -/
theorem World.blank_run {setup : Setup} {acts : List Act} {i : Nat} {w : Workspace}
    (hw : (run setup acts).workspace? i = some w) (he : w.evaluation ≠ .integrated) : w.Blank := by
  have hplays : (run setup acts).Keeps (freely setup) ∧ (run setup acts).view.Plays i
      (fun s past => s.Orderly past ∧ (s.workspace.evaluation ≠ .integrated → s.workspace.Blank))
      ((history setup acts).filter (·.place = i)) := by
    refine plays_run (fun hf hp => ⟨Scene.orderly_fresh hf hp, fun _ => ?_⟩)
      (fun h hst => ⟨h.1.step hst, h.1.blank_step hst h.2⟩) fun a _ => within_freely setup a
    obtain ⟨slice, hslice⟩ := hf.workspace
    rw [hslice]
    exact ⟨rfl, rfl, rfl⟩
  rcases hplays.2 with ⟨hv, -⟩ | ⟨s, hs, -, hb⟩
  · rw [← view_workspaces, hv.workspace] at hw
    cases hw
  · rw [← view_workspaces, hs.workspace] at hw
    cases hw
    exact hb he

/-! ## What a failed batch leaves -/

namespace Evaluation

/-- The changes of rules, seen from nothing. -/
def rulesAfresh (e : Evaluation) : NameMap Change := e.rules.mapValues fun _ change => change.rebase .empty

/-- The changes of items, seen from nothing. -/
def itemsAfresh (e : Evaluation) : Listing String Change := e.items.mapValues fun _ change => change.rebase .empty

end Evaluation

/-- An evaluation of which nothing is held is applied in full. -/
theorem Workspace.Blank.receive {setup : Setup} {env : Environment} {session : Session} {w : Workspace}
    {handle : ContextHandle} (h : w.Blank) (ha : w.baseline.activity = none) (hs : w.status = .initialized)
    (hc : w.context = some handle) (versions : Versions) (e : Evaluation) :
    let activity := session.active.activityOf w.slice
    let round := handle.handlers.applyBoth env e.rulesAfresh e.itemsAfresh activity
    w.receive setup env session ⟨versions, .evaluation e⟩ =
      ⟨session, w.withHandlers handle round.state,
        .context handle.serial .startBatch :: round.effects.map (Effect.event handle.serial),
        .closing ⟨handle.serial, round.failure, .ofEvaluation versions e activity⟩⟩ := by
  have hrules : w.seenRules e = e.rulesAfresh := by
    rw [seenRules, h.rules]
    rfl
  have hitems : w.seenItems e = e.itemsAfresh := by
    rw [seenItems, h.items]
    rfl
  have hunknown : ¬w.Knows e (session.active.activityOf w.slice) := by
    intro hk
    cases ha.symm.trans hk.activity
  rw [receive_of_admits (admits_eq_ok_iff.2 (.inr hs)), enroll_of_initialized hs]
  dsimp only
  rw [receiveEvaluation_some hc, evaluate_of_not_knows fun _ => hunknown, openEvaluation, hrules, hitems]
  rfl

namespace World

variable {setup : Setup} {acts : List Act} {i : Nat} {me : JobId} {u : Update} {env : Environment} {w : Workspace}
  {error : SyncError}

/-- The first evaluation is still to come: builds wait for it, and whichever comes to the lock is applied in full. -/
structure Outset (setup : Setup) (acts : List Act) (i : Nat) (w : Workspace) : Prop where
  waits : ∀ me c, (run setup acts).callAt me = some (i, c) → c.request.isBuild = true →
    c.phase = .awaitingEvaluation ∧ ∀ env,
      c.advance setup env me (run setup acts).session w = ⟨(run setup acts).session, w, [], .going c⟩
  applied : ∀ me c env versions e, (run setup acts).callAt me = some (i, c) →
    c.request = .update ⟨versions, .evaluation e⟩ →
    c.phase = .entering ∧ w.lock.holder = none ∨ c.phase = .queued ∧ w.lock.holder = some me →
      ∃ handle, w.context = some handle ∧
        let activity := (run setup acts).session.active.activityOf w.slice
        let round := handle.handlers.applyBoth env e.rulesAfresh e.itemsAfresh activity
        let batch : OpenBatch := ⟨handle.serial, round.failure, .ofEvaluation versions e activity⟩
        (run setup (acts ++ [.advance env me])).callAt me = some (i, ⟨c.request, .closing batch⟩) ∧
          (run setup (acts ++ [.advance env me])).eventsAt i = (run setup acts).eventsAt i ++
            .context handle.serial .startBatch :: round.effects.map (Effect.event handle.serial)

/-- A workspace with its context that has not come to its first evaluation is at the outset. -/
theorem outset_of_pending (hw : (run setup acts).workspace? i = some w) (hu : w.unload.cause = none)
    (hp : w.evaluation = .pending) (hid : w.contextId.isSome) : Outset setup acts i w := by
  obtain ⟨s, hs, rfl, -⟩ := orderly_run setup acts (i := i) (by rwa [view_workspaces])
  have h := audited_run hs
  have hstatus : s.workspace.status = .initialized ∧ s.workspace.context.isSome := by
    have hlive := h.not_disposed hu
    cases hc : s.workspace.context with
    | none =>
      rw [h.regular.nameless hc hlive] at hid
      cases hid
    | some handle =>
      refine ⟨?_, rfl⟩
      cases hst : s.workspace.status with
      | initialized => rfl
      | uninitialized => exact absurd (hc.symm.trans (h.regular.uninitialized hst).2.1) nofun
      | failed => exact absurd (hc.symm.trans (h.regular.failed hst).1) nofun
      | disposed => exact absurd hst hlive
  obtain ⟨hstatus, hcontext⟩ := hstatus
  obtain ⟨handle, hhandle⟩ := Option.isSome_iff_exists.1 hcontext
  have hpending : s.workspace.evaluation ≠ .integrated := by rw [hp]; nofun
  have hactivity : s.workspace.baseline.activity = none := by
    cases ha : s.workspace.baseline.activity with
    | none => rfl
    | some activity => exact absurd (h.regular.held (by rw [ha]; rfl)) hpending
  constructor
  case waits =>
    intro me c hcall hbuild
    have hawaits : c.request.awaits = true := by
      cases hr : c.request with
      | update u => cases hx : u.payload <;> simp [hr, hx, Request.isBuild, Update.kind, Request.awaits] at hbuild ⊢
      | _ => simp [hr, Request.isBuild] at hbuild
    have hphase : c.phase = .awaitingEvaluation := by
      by_contra hnot
      exact hpending (h.awaited ((hs.calls me c).2 hcall) hawaits hnot)
    exact ⟨hphase, fun env => by simp only [Call.advance, hphase, hu, hp]⟩
  case applied =>
    intro me c env versions e hcall hrequest hlock
    have hc := (hs.calls me c).2 hcall
    obtain ⟨lock, ha⟩ := (Call.paths setup env me (run setup acts).session s.workspace (h.fit hc)).at_lock hrequest hu
      hlock
    have hblank : Workspace.Blank { s.workspace with lock } := (blank_run hw hpending).congr ⟨_, rfl⟩
    rw [hblank.receive hactivity hstatus hhandle versions e] at ha
    obtain ⟨hs', -, -, -⟩ := stepped hs hc ha
    refine ⟨handle, hhandle, (hs'.calls me _).1 (Scene.after_calls_self.2 rfl), ?_⟩
    rw [eventsAt_of_scene hs', eventsAt_of_scene hs]
    rfl

/-- What an update leaves that was taken up and whose batch failed. It got the lock as the origin says, finding `old`,
and leaves `new`. -/
structure Unintegrated (setup : Setup) (acts : List Act) (env : Environment) (me : JobId) (i : Nat) (u : Update)
    (error : SyncError) (o : Origin) (handle : ContextHandle) (old new : Workspace) : Prop where
  taken : acts = o.acts me
  /-- Before it got the lock it had done nothing. -/
  before : ∃ c, (run setup o.earlier).callAt me = some (i, c) ∧ c.request = .update u ∧ c.phase.holds = false
  found : (run setup o.earlier).workspace? i = some old
  left : (run setup (acts ++ [.advance env me])).workspace? i = some new
  /-- The context was there, or came with it. -/
  context : new.context.map (·.serial) = some handle.serial ∧
    (old.context = some handle ∨ old.context = none ∧ u.kind = .evaluation)
  /-- One batch was opened and closed, in this context and in no other. The handlers that were called stop with the
  first that fails, and its failure counts before that of the batch. -/
  batch : ∃ (events : List Event) (mutations : List Mutation) (failure : Option SyncError),
    (run setup (acts ++ [.advance env me])).eventsAt i = (run setup o.earlier).eventsAt i ++ events ∧
    (∀ n, Event.callsOf n events =
      if n = handle.serial then .startBatch :: mutations.map .mutate ++ [.endBatch] else []) ∧
    Stops o.env (Event.handlings events) failure ∧ failure.or env.rejected = some error
  status : new.status = .initialized
  /-- What is held is what was held, but for what a new context is told of the last build. -/
  baseline : new.baseline = if old.context.isSome then old.baseline else
    { old.baseline with lastBuildSucceeded := some !setup.settings.suppressDiagnosticsUntilBuild }
  evaluation : new.evaluation = old.evaluation
  buildIntegrated : new.buildIntegrated = old.buildIntegrated
  /-- If the context came with it, all is to be done again as long as no evaluation ends well. -/
  outset : old.context = none → ∀ more w,
    (∀ e ∈ endingsFrom (run setup (acts ++ [.advance env me])) more, e.place = i → e.request.isEvaluation = true →
      ∃ error, e.result = .error error) →
    (run setup (acts ++ [.advance env me] ++ more)).workspace? i = some w → w.unload.cause = none →
      Outset setup (acts ++ [.advance env me] ++ more) i w

/-- Where the first evaluation has not come, and the context is known, it stays so until an evaluation ends well. -/
theorem outset_along (hw : (run setup acts).workspace? i = some w) (hp : w.evaluation ≠ .integrated)
    (hid : w.contextId.isSome) {more : List Act} {w' : Workspace}
    (hfails : ∀ e ∈ endingsFrom (run setup acts) more, e.place = i → e.request.isEvaluation = true →
      ∃ error, e.result = .error error)
    (hw' : (run setup (acts ++ more)).workspace? i = some w') (hu : w'.unload.cause = none) :
    Outset setup (acts ++ more) i w' := by
  obtain ⟨later, hlater, hremains⟩ := later_run (R := fun w w' => Scene.Remains w w') (fun w => .refl w)
    (fun h h' => h.trans h') (fun h hst => h.remains hst) hw more
  cases hlater.symm.trans hw'
  have hknown : w'.contextId.isSome := by simpa [hu] using hremains.known (.inl hid)
  obtain ⟨s, hs, rfl, h⟩ := orderly_run setup acts (i := i) (by rwa [view_workspaces])
  obtain ⟨s', hs', rfl, -⟩ := orderly_run setup (acts ++ more) (i := i) (by rwa [view_workspaces])
  have h' := audited_run hs'
  refine outset_of_pending hw' hu ?_ hknown
  have hlive := h'.not_disposed hu
  cases he : s'.workspace.evaluation with
  | pending => rfl
  | failed =>
    -- a workspace that has failed never had a context
    have hf := (h'.regular.barred he).resolve_right hlive
    rw [h'.regular.nameless (h'.regular.failed hf).1 hlive] at hknown
    cases hknown
  | integrated =>
    obtain ⟨e, hmem, hkind, answer, hok⟩ := h'.evaluated.1 he
    obtain ⟨hmem, hi⟩ := List.mem_filter.1 hmem
    rw [history, endingsFrom_append] at hmem
    rcases List.mem_append.1 hmem with hmem | hmem
    · exact absurd (h.evaluated.2 ⟨e, List.mem_filter.2 ⟨hmem, hi⟩, hkind, answer, hok⟩) hp
    · obtain ⟨error, herror⟩ := hfails e hmem (by simpa using hi) hkind
      cases herror.symm.trans hok

/-- A batch under way that is closed has been opened and closed once, in its context and in no other, and its handlers
stop with the first that fails. -/
theorem Underway.heard_closed {o : Origin} {batch : OpenBatch} {handle : ContextHandle}
    (ho : Underway setup acts i me (.update u) batch o)
    (hopens : Workspace.Opens setup o.env (run setup o.earlier).session o.found u (o.passage setup (.update u)) batch
      handle) (c : Call) (result : Except SyncError Answer) :
    ∃ (events : List Event) (mutations : List Mutation),
      (run setup acts).eventsAt i ++ .context batch.serial .endBatch :: c.report setup result =
        (run setup o.earlier).eventsAt i ++ events ∧
      (∀ n, Event.callsOf n events =
        if n = handle.serial then .startBatch :: mutations.map .mutate ++ [.endBatch] else []) ∧
      Stops o.env (Event.handlings events) batch.failure := by
  obtain ⟨-, mutations, hcalls⟩ := ho.heard
  obtain ⟨faults, hlog, hfaults⟩ := ho.log
  obtain ⟨hquiet, hcallless⟩ := hfaults.silent
  refine ⟨(o.passage setup (.update u)).events ++ faults ++
    .context batch.serial .endBatch :: c.report setup result, mutations, ?_, fun n => ?_, ?_⟩
  · rw [← List.append_assoc, ← List.append_assoc, ← hlog]
  · rw [Event.callsOf_append, Event.callsOf_append, hcalls, hquiet, List.append_nil, ← hopens.serial]
    by_cases hn : n = batch.serial
    · rw [if_pos hn, if_pos hn, hn, Event.callsOf_context_cons, Call.callsOf_report]
    · rw [if_neg hn, if_neg hn, Event.callsOf_context_cons_of_ne (Ne.symm hn), Call.callsOf_report, List.nil_append]
  · rw [Event.handlings_append, Event.handlings_append, hcallless, Event.handlings_context_cons,
      Call.handlings_report, List.append_nil, List.append_nil, hopens.handlings, hopens.failure]
    exact o.found.roundOf_stops u.payload ⟨o.env, _, u.versions⟩ handle.handlers

/-- An update that was taken up without a context leaves the first evaluation to come, for none had come before. -/
theorem Underway.evaluation_of_new {o : Origin} {batch : OpenBatch} {handle : ContextHandle}
    (ho : Underway setup acts i me (.update u) batch o)
    (hopens : Workspace.Opens setup o.env (run setup o.earlier).session o.found u (o.passage setup (.update u)) batch
      handle) (hnone : o.found.context = none) :
    (o.passage setup (.update u)).workspace.evaluation ≠ .integrated := by
  obtain ⟨old, lock, unload, hold, hfound⟩ := ho.found
  obtain ⟨s, -, rfl, h⟩ := orderly_run setup o.earlier (i := i) (by rwa [view_workspaces])
  have hregular : o.found.Regular := hfound ▸ h.regular.with_lock lock unload
  rw [hopens.evaluation, hregular.pending hopens.admits hnone]
  nofun

/-- An update that fails with the error of a handler or of its batch, and not with one of the factory, leaves the books
as they were. -/
theorem unintegrated (setup : Setup) (acts : List Act) (env : Environment) (me : JobId) (i : Nat) (u : Update)
    (error : SyncError) (hended : ⟨i, .update u, .error error⟩ ∈ (run setup acts).endings (.advance env me))
    (herror : error.ofBatch = true) (hfactory : env.refused ≠ some error) :
    ∃ o handle old new, Unintegrated setup acts env me i u error o handle old new := by
  obtain ⟨s, c, hs, hc, hr, hdone, hs'⟩ := scene_of_ending hended (by rintro ⟨⟩; cases herror)
  have h := audited_run hs
  obtain ⟨batch, hphase, hresult, ha⟩ :=
    (Call.paths setup env me (run setup acts).session s.workspace (h.fit hc)).closes_of_ofBatch hdone herror hfactory
  obtain ⟨o, ho⟩ := underway ((hs.calls me c).1 hc) hphase
  rw [hr] at ho
  obtain ⟨handle, hopens⟩ := ho.opens
  obtain ⟨old, lock, unload, hold, hfound⟩ := ho.found
  obtain ⟨lock', unload', hkept⟩ := ho.workspace
  rw [workspace_of_scene hs, Option.some.injEq] at hkept
  have hfailed : batch.failure.or env.rejected = some error := by
    unfold OpenBatch.result at hresult
    split at hresult
    · rename_i other hother
      cases hresult
      exact hother
    · cases hresult
  rw [Workspace.close_badly hfailed] at ha
  rw [ha] at hs'
  have hleft := workspace_of_scene hs'
  obtain ⟨events, mutations, hevents, hcalls, hstops⟩ := ho.heard_closed hopens c (.error error)
  refine ⟨o, handle, old, _, ho.split, ho.before, hold, hleft, ⟨?_, ?_⟩, ?_, (h.closing hc hphase).1, ?_, ?_, ?_,
    fun hnone more w hfails hw hu => outset_along hleft ?_ ?_ hfails hw hu⟩
  · show s.workspace.context.map (·.serial) = _
    rw [hkept, ← hopens.serial]
    exact ho.heard.1
  · rw [hfound] at hopens
    exact hopens.context.imp_right fun hnew => ⟨hnew.1, hnew.2.1⟩
  · refine ⟨events, mutations, batch.failure, ?_, hcalls, hstops, hfailed⟩
    rw [eventsAt_of_scene hs', ← hevents, eventsAt_of_scene hs]
    rfl
  · show s.workspace.baseline = _
    rw [hkept, hopens.baseline, hfound]
  · show s.workspace.evaluation = _
    rw [hkept, hopens.evaluation, hfound]
  · show s.workspace.buildIntegrated = _
    rw [hkept, hopens.buildIntegrated, hfound]
  · show s.workspace.evaluation ≠ _
    rw [hkept]
    exact ho.evaluation_of_new hopens (by rw [hfound]; exact hnone)
  · show s.workspace.contextId.isSome = true
    obtain ⟨live, hlive⟩ := Option.isSome_iff_exists.1 (h.closing hc hphase).2
    rw [h.regular.identity live hlive]
    rfl

set_option maxRecDepth 100000 in
/-- The first evaluation creates the context; the first of two handlers fails, and the batch is rejected as well. -/
theorem unintegrated_first :
    let registry := (Registry.standard.registerItems (.external "spy")).registerItems (.external "late")
    let setup : Setup := { registry }
    let env : Environment := { reply := fun _ => { failure := some "broken" }, rejection := some "full" }
    let acts := [.addWorkspace .empty, .call 0 (.update (Sample.evaluation ["a.cs"])), .advance env 0]
    let error := SyncError.handler "spy" "broken"
    ⟨0, .update (Sample.evaluation ["a.cs"]), .error error⟩ ∈ (run setup acts).endings (.advance env 0) ∧
      ∃ o handle old new,
        Unintegrated setup acts env 0 0 (Sample.evaluation ["a.cs"]) error o handle old new := by
  intro registry setup env acts error
  have h : ((run setup acts).endings (.advance env 0)).map (fun e => (e.place, e.request, e.result)) =
      [(0, .update (Sample.evaluation ["a.cs"]), .error error)] := by decide +kernel
  have hended := Ending.mem_of_map_eq h
  exact ⟨hended, unintegrated setup acts env 0 0 _ error hended rfl nofun⟩

end World

end SliceSync
