import SliceSync.Proofs.Places
/-!
# What a turn does to a context

A turn of a workspace does one of a few things to its context and to the baseline: an update opens its
batch, the batch closes, an update is skipped, the context goes, or nothing happens. `Turn.deed` reads
them off the passages, so that invariants of contexts are proved deed by deed.
-/

namespace SliceSync

/-- The update that a call ended well with. -/
def Ending.integrated? (e : Ending) : Option Update :=
  match e.request, e.result with
  | .update u, .ok _ => some u
  | _, _ => none

/-- The updates that ended well, in order. -/
def integrated (ended : List Ending) : List Update := ended.filterMap Ending.integrated?

theorem integrated_append (l m : List Ending) : integrated (l ++ m) = integrated l ++ integrated m :=
  List.filterMap_append

theorem integrated_of_errors {l : List Ending} (h : ∀ e ∈ l, ∀ u, e.request = .update u →
    ∃ error, e.result = .error error) : integrated l = [] := by
  refine List.filterMap_eq_nil_iff.2 fun e he => ?_
  unfold Ending.integrated?
  split
  · rename_i u answer hu hr
    obtain ⟨error, herror⟩ := h e he u hu
    rw [herror] at hr
    cases hr
  · rfl

/-- The update that a request is. -/
def Request.updates : Request → List Update
  | .update u => [u]
  | _ => []

/-- No batch is open. -/
def Place.Idle (p : Place) : Prop := ∀ request batch, p.inside ≠ some ⟨request, .closing batch⟩

theorem Place.idle_of_none {p : Place} (h : p.inside = none) : p.Idle := by
  intro request batch hi
  rw [h] at hi
  cases hi

/-- What a turn does to the context of a workspace and to what the context was last given, with the
updates that end well. -/
inductive Deed (t : Terms) (p p' : Place) : List Update → Prop
  | nothing (hc : p'.workspace.context = p.workspace.context)
      (hb : p'.workspace.baseline = p.workspace.baseline) (hr : p'.received = p.received)
      (hi : p'.inside = p.inside ∨ p.Idle ∧ p'.Idle)
      (hd : p.workspace.status = .disposed → p'.workspace.status = .disposed) : Deed t p p' []
  /-- An update is skipped: what it says is held. -/
  | skips {u : Update} {activity : Activity} (ha : p.workspace.status ≠ .disposed)
      (hk : match u.payload with
        | .evaluation e => p.workspace.context.isSome ∧ p.workspace.Knows e activity
        | .build b => p.workspace.KnowsBuild b activity)
      (hc : p'.workspace.context = p.workspace.context)
      (hb : p'.workspace.baseline = p.workspace.baseline) (hr : p'.received = p.received)
      (hi : p.inside = none) (hi' : p'.inside = none) : Deed t p p' [u]
  /-- An evaluation opens its batch, in the context that it creates if it is `fresh`. -/
  | evaluates {env : Environment} {u : Update} {e : Evaluation} {activity : Activity} {handle : ContextHandle}
      {fresh : Bool} (hu : u.payload = .evaluation e) (ha : p.workspace.status ≠ .disposed)
      (ho : if fresh then p.workspace.context = none ∧ handle.handlers = t.setup.registry.resolve e.project
        else p.workspace.context = some handle)
      (hi : p.inside = none)
      (hc : p'.workspace.context = some { handle with
        handlers := (handle.handlers.applyBoth env (p.workspace.seenRules e) (p.workspace.seenItems e)
          activity).state })
      (hb : p'.workspace.baseline =
        if fresh then
          { p.workspace.baseline with
            lastBuildSucceeded := some !t.setup.settings.suppressDiagnosticsUntilBuild }
        else p.workspace.baseline)
      (hr : p'.received = p.received ++ .startBatch ::
        (((if fresh then
            [Mutation.setLastBuildSucceeded !t.setup.settings.suppressDiagnosticsUntilBuild] else []) ++
          Effect.mutations (handle.handlers.applyBoth env (p.workspace.seenRules e) (p.workspace.seenItems e)
            activity).effects).map .mutate))
      (hi' : p'.inside = some ⟨.update u, .closing
        { serial := handle.serial
          failure := (handle.handlers.applyBoth env (p.workspace.seenRules e) (p.workspace.seenItems e)
            activity).failure
          commit := .ofEvaluation u.versions e activity }⟩) : Deed t p p' []
  /-- A build opens its batch. -/
  | builds {env : Environment} {u : Update} {b : Build} {activity : Activity} {handle : ContextHandle}
      (hu : u.payload = .build b) (ho : p.workspace.context = some handle) (hi : p.inside = none)
      (hc : p'.workspace.context = some { handle with
        handlers := (handle.handlers.applyArguments env
          (.between p.workspace.baseline.arguments b.arguments) activity).state })
      (hb : p'.workspace.baseline = p.workspace.baseline)
      (hr : p'.received = p.received ++ .startBatch :: ((Mutation.setOptions b.arguments ::
        (Effect.mutations (handle.handlers.applyArguments env
            (.between p.workspace.baseline.arguments b.arguments) activity).effects ++
          [.setLastBuildSucceeded b.producedItems])).map .mutate))
      (hi' : p'.inside = some ⟨.update u, .closing
        { serial := handle.serial
          failure := (handle.handlers.applyArguments env
            (.between p.workspace.baseline.arguments b.arguments) activity).failure
          commit := .build u.versions b.arguments activity }⟩) : Deed t p p' []
  /-- A write opens its batch. -/
  | writes {handle : ContextHandle} {mutations : List Mutation} (hw : t.writes)
      (ho : p.workspace.context = some handle) (hi : p.inside = none)
      (hc : p'.workspace.context = some handle) (hb : p'.workspace.baseline = p.workspace.baseline)
      (hr : p'.received = p.received ++ .startBatch :: mutations.map .mutate)
      (hi' : p'.inside = some ⟨.write mutations, .closing
        { serial := handle.serial, failure := none, commit := .write handle.id }⟩) : Deed t p p' []
  /-- A batch closes well. -/
  | commits {request : Request} {batch : OpenBatch} (hf : batch.failure = none)
      (hi : p.inside = some ⟨request, .closing batch⟩)
      (hc : p'.workspace.context = p.workspace.context)
      (hb : p'.workspace.baseline = (p.workspace.commit batch.commit).1.baseline)
      (hr : ∀ handle, p.workspace.context = some handle → handle.serial = batch.serial →
        p'.received = p.received ++ [.endBatch])
      (hi' : p'.inside = none) :
      Deed t p p' request.updates
  /-- A batch closes after a failure, or is rejected. -/
  | fails {env : Environment} {request : Request} {batch : OpenBatch} (he : t.fits env)
      (hf : batch.failure ≠ none ∨ env.rejected ≠ none)
      (hi : p.inside = some ⟨request, .closing batch⟩)
      (hc : p'.workspace.context = p.workspace.context)
      (hb : p'.workspace.baseline = p.workspace.baseline)
      (hr : ∀ handle, p.workspace.context = some handle → handle.serial = batch.serial →
        p'.received = p.received ++ [.endBatch])
      (hi' : p'.inside = none) : Deed t p p' []
  /-- The context goes. -/
  | parts (hi : p.inside = none) (hc : p'.workspace.context = none) (hs : p'.workspace.status = .disposed)
      (hr : p'.received = []) (hi' : p'.Idle) : Deed t p p' []

namespace Turn

variable {t : Terms} {i : Nat} {p : Place}

theorem not_disposed {w : Workspace} (h : w.admits = .ok ()) : w.status ≠ .disposed := by
  rcases Workspace.admits_eq_ok_iff.1 h with hs | hs <;> rw [hs] <;> nofun

/-- Where no context hears anything and the context stays, nothing is received. -/
theorem received_quiet (hq : p.Quiet) {request : Request} {q : Passage} {last : Lock}
    (hc : q.workspace.context = p.workspace.context) (he : ∀ n, Event.callsOf n q.events = []) :
    (p.after request q last).received = p.received := by
  unfold Place.after
  dsimp only
  split
  · rename_i hn
    exact (hq (hc ▸ hn)).symm
  · rw [he, List.append_nil]

/-- A passage that neither opens nor closes anything. -/
theorem deed_of_quiet (hq : p.Quiet) {request : Request} {q : Passage} {last : Lock}
    {result : Except SyncError Answer} (hi : p.inside = none) (hh : q.held = .finished result)
    (hc : q.workspace.context = p.workspace.context) (hb : q.workspace.baseline = p.workspace.baseline)
    (hd : p.workspace.status = .disposed → q.workspace.status = .disposed)
    (he : ∀ n, Event.callsOf n q.events = [])
    (hr : ∀ u, request = .update u → ∃ error, result = .error error) :
    Deed t p (p.after request q last) (integrated (q.endings i request)) := by
  have hends : integrated (q.endings i request) = [] := by
    refine integrated_of_errors fun e hmem u hu => ?_
    rw [Passage.endings, hh] at hmem
    cases List.mem_singleton.1 hmem
    exact hr u hu
  rw [hends]
  refine .nothing hc hb (received_quiet hq hc he) (.inl ?_) hd
  rw [hi]
  simp [Place.after, hh, Held.inside]

/-- What the context has received after a passage, of which it heard `calls`. -/
theorem received_after {request : Request} {q : Passage} {last : Lock} {handle : ContextHandle}
    {calls : List ContextCall} (hc : q.workspace.context = some handle)
    (he : Event.callsOf handle.serial q.events = calls) :
    (p.after request q last).received = p.received ++ calls := by
  simp [Place.after, hc, he]

theorem deed_of_openEvaluation {env : Environment} {session : Session} {w : Workspace} {u : Update}
    {e : Evaluation} {handle : ContextHandle} {fresh : Bool} {events : List Event} {last : Lock}
    (hu : u.payload = .evaluation e) (ha : p.workspace.status ≠ .disposed) (hi : p.inside = none)
    (ho : if fresh then p.workspace.context = none ∧ handle.handlers = t.setup.registry.resolve e.project
      else p.workspace.context = some handle)
    (hb : w.baseline = p.workspace.baseline) (he : ∀ n, Event.callsOf n events = []) :
    Deed t p
      (p.after (.update u)
        ((Workspace.openEvaluation t.setup env session w handle fresh u.versions e).after events) last) [] := by
  have hrules : w.seenRules e = p.workspace.seenRules e := by simp only [Workspace.seenRules, hb]
  have hitems : w.seenItems e = p.workspace.seenItems e := by simp only [Workspace.seenItems, hb]
  have hcalls : Event.callsOf handle.serial
      ((Workspace.openEvaluation t.setup env session w handle fresh u.versions e).after events).events = _ :=
    (Workspace.callsOf_after (he _)).trans (Workspace.callsOf_openEvaluation _)
  rw [if_pos rfl, hrules, hitems] at hcalls
  refine .evaluates hu ha ho hi ?_ ?_ (received_after rfl hcalls) ?_
  · rw [← hrules, ← hitems]
    rfl
  · rw [← hb]
    rfl
  · rw [← hrules, ← hitems]
    rfl

theorem deed_of_openBuild {env : Environment} {session : Session} {w : Workspace} {u : Update} {b : Build}
    {handle : ContextHandle} {events : List Event} {last : Lock} (hu : u.payload = .build b)
    (hi : p.inside = none) (ho : p.workspace.context = some handle)
    (hb : w.baseline = p.workspace.baseline) (he : ∀ n, Event.callsOf n events = []) :
    Deed t p
      (p.after (.update u) ((Workspace.openBuild env session w handle u.versions b).after events) last) [] := by
  have hcalls : Event.callsOf handle.serial
      ((Workspace.openBuild env session w handle u.versions b).after events).events = _ :=
    (Workspace.callsOf_after (he _)).trans (Workspace.callsOf_openBuild _)
  rw [if_pos rfl, hb] at hcalls
  refine .builds hu ho hi ?_ hb (received_after rfl hcalls) ?_
  · rw [← hb]
    rfl
  · rw [← hb]
    rfl

/-- The deed of a skipped update. -/
theorem deed_of_skip (hq : p.Quiet) {u : Update} (activity : Activity) {session : Session} {w : Workspace}
    {events : List Event} {last : Lock} (ha : p.workspace.status ≠ .disposed)
    (hk : match u.payload with
      | .evaluation e => p.workspace.context.isSome ∧ p.workspace.Knows e activity
      | .build b => p.workspace.KnowsBuild b activity)
    (hc : w.context = p.workspace.context) (hb : w.baseline = p.workspace.baseline)
    (hi : p.inside = none) (he : ∀ n, Event.callsOf n events = []) :
    Deed t p (p.after (.update u) ⟨session, w, events, .finished (.ok .done)⟩ last) [u] :=
  .skips ha hk hc hb (received_quiet hq hc he) hi rfl

/-- The deed of an update that gets the lock of a workspace with the context and the baseline of the
place. -/
theorem deed_of_receives (hq : p.Quiet) {env : Environment} {session : Session} {u : Update} {q : Passage}
    {w : Workspace} {last : Lock} (h : Workspace.Receives t.setup env session w u q)
    (hwc : w.context = p.workspace.context) (hwb : w.baseline = p.workspace.baseline)
    (hws : w.status = p.workspace.status) (hi : p.inside = none) :
    Deed t p (p.after (.update u) q last) (integrated (q.endings i (.update u))) := by
  have live (ha : w.admits = .ok ()) : p.workspace.status ≠ .disposed := hws ▸ not_disposed ha
  have hc : (w.enroll t.setup u).1.context = p.workspace.context := (Workspace.enroll_context u).trans hwc
  have hb : (w.enroll t.setup u).1.baseline = p.workspace.baseline :=
    (Workspace.enroll_baseline u).trans hwb
  have quiet (n : Nat) : Event.callsOf n (w.enroll t.setup u).2 = [] := Workspace.callsOf_enroll n u
  -- enrolling changes status and owner only, so the passage finds the context and the baseline of the place
  cases h with
  | refused ha =>
    exact deed_of_quiet hq hi rfl hwc hwb (fun hs => hws.trans hs) (fun _ => rfl) fun _ _ => ⟨_, rfl⟩
  | uncreated ha hu hn hf =>
    exact deed_of_quiet hq hi rfl hc hb (fun hs => absurd hs (live ha)) quiet fun _ _ => ⟨_, rfl⟩
  | creates ha hu hn hs =>
    obtain ⟨-, -, hhandlers, params, rfl⟩ := Session.create_eq hs
    refine deed_of_openEvaluation hu (live ha) hi (by simpa using ⟨hwc ▸ hn, hhandlers⟩) hb fun n => ?_
    rw [Event.callsOf_append, quiet]
    rfl
  | skips ha hu hn hk =>
    refine deed_of_skip hq (session.active.activityOf w.slice) (live ha) ?_ hc hb hi fun n => ?_
    · rw [hu]
      refine ⟨?_, ?_⟩
      · rw [← hwc, hn]
        rfl
      · exact ⟨by simpa [Workspace.seenRules, ← hwb] using hk.rules,
          by simpa [Workspace.seenItems, ← hwb] using hk.items, hwb ▸ hk.activity⟩
    · rw [Event.callsOf_append, quiet, Workspace.callsOf_tell]
      rfl
  | applies ha hu hn => exact deed_of_openEvaluation hu (live ha) hi (by simpa using hwc ▸ hn) hb quiet
  | skipsBuild ha hu hk =>
    refine deed_of_skip hq (session.active.activityOf w.slice) (live ha) ?_ hc hb hi fun n => ?_
    · rw [hu]
      exact ⟨hwb ▸ hk.arguments, hwb ▸ hk.outcome, hwb ▸ hk.activity⟩
    · rw [Event.callsOf_append, quiet, Workspace.callsOf_tell]
      rfl
  | misses ha hu hn =>
    exact deed_of_quiet hq hi rfl hc hb (fun hs => absurd hs (live ha)) quiet fun _ _ => ⟨_, rfl⟩
  | appliesBuild ha hu hn => exact deed_of_openBuild hu hi (hwc ▸ hn) hb quiet

theorem deed_of_write (hq : p.Quiet) {session : Session} (w : Workspace) {mutations : List Mutation}
    {last : Lock} (hwc : w.context = p.workspace.context) (hwb : w.baseline = p.workspace.baseline)
    (hws : w.status = p.workspace.status) (hi : p.inside = none) (hw : t.writes) :
    Deed t p (p.after (.write mutations) (w.beginWrite session mutations) last)
      (integrated ((w.beginWrite session mutations).endings i (.write mutations))) := by
  unfold Workspace.beginWrite
  split
  · exact deed_of_quiet hq hi rfl hwc hwb (fun hs => hws.trans hs) (fun _ => rfl) nofun
  · split
    · exact deed_of_quiet hq hi rfl hwc hwb (fun hs => hws.trans hs) (fun _ => rfl) nofun
    · rename_i handle hc
      refine .writes hw (hwc ▸ hc) hi hc hwb ?_ rfl
      refine received_after hc ?_
      exact (Workspace.callsOf_write _ handle mutations).trans (if_pos rfl)

theorem deed_of_dispose (hq : p.Quiet) {session : Session} (w : Workspace) {cause : DisposeCause}
    {last : Lock} (hwc : w.context = p.workspace.context) (hwb : w.baseline = p.workspace.baseline)
    (hi : p.inside = none) :
    Deed t p (p.after (.dispose cause) (w.beginDispose session) last)
      (integrated ((w.beginDispose session).endings i (.dispose cause))) := by
  unfold Workspace.beginDispose
  split
  · rename_i hs
    exact deed_of_quiet hq hi rfl hwc hwb (fun _ => hs) (fun _ => rfl) nofun
  · split
    · refine .parts hi rfl rfl rfl ?_
      intro request batch h
      cases h
    · rename_i hc
      refine deed_of_quiet hq hi rfl hwc hwb (fun _ => rfl) (fun n => ?_) nofun
      unfold Workspace.unregister
      cases w.owner <;> rfl

/-- The deed of a batch that closes. -/
theorem deed_of_close {env : Environment} {session : Session} {request : Request} {batch : OpenBatch}
    {last : Lock} (he : t.fits env) (hi : p.inside = some ⟨request, .closing batch⟩) :
    Deed t p (p.after request (p.workspace.close env session batch) last)
      (integrated ((p.workspace.close env session batch).endings i request)) := by
  obtain ⟨-, hc, -, hcalls⟩ := Workspace.close_heard env session p.workspace batch
  have hr : ∀ handle, p.workspace.context = some handle → handle.serial = batch.serial →
      (p.after request (p.workspace.close env session batch) last).received = p.received ++ [.endBatch] := by
    intro handle hhandle hserial
    refine received_after (hc.trans hhandle) ?_
    rw [hcalls, if_pos hserial]
  revert hr
  unfold Workspace.close
  cases hf : batch.failure.or env.rejected with
  | some error =>
    -- whichever of the two failed, the baseline stays
    intro hr
    have hends : integrated (Passage.endings i request
        ⟨session, p.workspace, [.context batch.serial .endBatch], .finished (.error error)⟩) = [] := by
      refine integrated_of_errors fun e hmem _ _ => ?_
      cases List.mem_singleton.1 hmem
      exact ⟨error, rfl⟩
    have hfailed : batch.failure ≠ none ∨ env.rejected ≠ none := by
      by_contra hno
      rw [not_or, not_not, not_not] at hno
      rw [hno.1, hno.2] at hf
      cases hf
    rw [hends]
    exact .fails he hfailed hi rfl rfl hr rfl
  | none =>
    intro hr
    have hnone : batch.failure = none := (Option.or_eq_none_iff.1 hf).1
    have hends : integrated (Passage.endings i request
        ⟨session, (p.workspace.commit batch.commit).1,
          .context batch.serial .endBatch :: (p.workspace.commit batch.commit).2.1,
          .finished (.ok (p.workspace.commit batch.commit).2.2)⟩) = request.updates := by
      cases request <;> rfl
    rw [hends]
    refine .commits hnone hi ?_ rfl hr rfl
    cases batch.commit <;> rfl

end Turn

/-- Every turn does one deed. -/
theorem Turn.deed {t : Terms} {i : Nat} {p p' : Place} {ended : List Ending} (h : Turn t i p p' ended)
    (hq : p.Quiet) : Deed t p p' (integrated ended) := by
  cases h with
  | aside he =>
    rw [integrated_of_errors he]
    exact .nothing rfl rfl rfl (.inl rfl) id
  | @enters env session request lock last unload he hr hi =>
    cases request with
    | update u =>
      have hr : Workspace.Receives t.setup env session { p.workspace with lock, unload } u _ :=
        Workspace.receives u
      exact deed_of_receives hq hr rfl rfl rfl hi
    | write mutations => exact deed_of_write hq { p.workspace with lock, unload } rfl rfl rfl hi (hr rfl)
    | dispose cause => exact deed_of_dispose hq { p.workspace with lock, unload } rfl rfl hi
    | _ => exact deed_of_quiet hq hi rfl rfl rfl id (fun _ => rfl) nofun
  | closes he hg hi => exact deed_of_close he hi
  | @parts session cause handle last hi =>
    obtain ⟨-, hc, -, hcalls⟩ := Workspace.finishDispose_heard session p.workspace handle
    -- the context has gone before, when the release began; its end brings nothing more
    refine .nothing hc rfl (received_quiet hq hc hcalls) (.inr ⟨?_, ?_⟩) id
    · intro request' batch hi'
      cases hi.symm.trans hi'
    · intro request' batch hi'
      cases hi'

end SliceSync
