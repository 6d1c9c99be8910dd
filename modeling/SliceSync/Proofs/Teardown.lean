import SliceSync.Proofs.Chronicle
import SliceSync.Proofs.Fairness
import SliceSync.Proofs.Stages
/-!
# Teardown

What follows once unload of a workspace is requested, by a teardown or otherwise: who waits or comes later
ends with the error of the first cause, nothing new is opened, what is under the lock ends as it would have;
then the context goes, once, with its handlers and its id, and progress is followed no more. If every call on
the workspace is taken ahead again and again, every call ends, teardowns in particular.

Main statement: `World.torn_down`.
-/

namespace SliceSync

/-! ## Under the lock -/

/-- What a call that waits to close a batch is going to answer. -/
def Commit.answer : Commit → Answer
  | .evaluation .. | .build .. => .done
  | .write id => .wrote id

/-- How the closing of a batch ends its call: the failure of a handler counts before a rejection. -/
def OpenBatch.result (batch : OpenBatch) (env : Environment) : Except SyncError Answer :=
  match batch.failure.or env.rejected with
  | some error => .error error
  | none => .ok batch.commit.answer

theorem Workspace.close_result (env : Environment) (session : Session) (w : Workspace) (batch : OpenBatch) :
    (w.close env session batch).held = .finished (batch.result env) := by
  unfold close OpenBatch.result
  cases batch.failure.or env.rejected with
  | some error => rfl
  | none => cases batch.commit <;> rfl

namespace Call.Paths

variable {setup : Setup} {env : Environment} {me : JobId} {c : Call} {session : Session} {w : Workspace}
  {a : Advance}

/-- A batch closes when it can. -/
theorem closed (h : c.Paths setup env me session w a) {batch : OpenBatch} (hp : c.phase = .closing batch)
    (hg : env.gateOpen = true) : a = c.conclude setup (w.close env session batch) := by
  cases h with
  | stays hs => simp [isStuck, hp, hg] at hs
  | closes hp' =>
    cases hp.symm.trans hp'
    rfl
  | despairs hp' | passes hp' | queues hp' | enters hp' | succeeds hp' | parts hp' =>
    cases hp.symm.trans hp'
  | yields _ hp' => simp [hp, Phase.holds] at hp'
  | learns hp' => simp [hp, Phase.holds] at hp'

/-- A context goes when it can. -/
theorem parted (h : c.Paths setup env me session w a) {handle : ContextHandle} (hp : c.phase = .releasing handle)
    (hd : env.disposalOpen = true) : a = c.conclude setup (w.finishDispose session handle) := by
  cases h with
  | stays hs => simp [isStuck, hp, hd] at hs
  | parts hp' =>
    cases hp.symm.trans hp'
    rfl
  | despairs hp' | passes hp' | queues hp' | enters hp' | succeeds hp' | closes hp' =>
    cases hp.symm.trans hp'
  | yields _ hp' => simp [hp, Phase.holds] at hp'
  | learns hp' => simp [hp, Phase.holds] at hp'

end Call.Paths

/-- Where the context is gone already a passage waits for none to go. -/
theorem Request.passage_parting_of_disposed {setup : Setup} {env : Environment} {session : Session} {w : Workspace}
    {request : Request} (h : w.status = .disposed) : (request.passage setup env session w).held.parting = none := by
  cases hh : (request.passage setup env session w).held with
  | releasing handle =>
    obtain ⟨cause, rfl⟩ := Request.passage_releasing hh
    simp [passage, Workspace.beginDispose, h] at hh
  | _ => rfl

/-- A teardown that ends at once finds, or leaves, the workspace torn down. -/
theorem Workspace.beginDispose_status (session : Session) (w : Workspace) :
    (w.beginDispose session).workspace.status = .disposed := by
  unfold beginDispose
  split
  · assumption
  · split <;> rfl

namespace Scene

variable {t : Terms} {i : Nat} {s s' : Scene} {past ended : List Ending}

/-- The workspace is torn down, and no teardown is waiting for the context to go. -/
def Gone (s : Scene) : Prop :=
  s.workspace.status = .disposed ∧ ∀ me c handle, s.calls me = some c → c.phase ≠ .releasing handle

/-- What is gone stays gone. -/
theorem Gone.step (h : s.Gone) (ho : s.Orderly past) (hs : Step t i s s' ended) : s'.Gone := by
  obtain ⟨hstatus, hnone⟩ := h
  have hstatus' : s'.workspace.status = .disposed := by
    rcases (ho.leads hs).cases_head with heq | ⟨_, hnext, -⟩
    · exact heq.symm.trans hstatus
    · rw [hstatus] at hnext
      cases hnext
  refine ⟨hstatus', ?_⟩
  cases hs with
  | rests | unloads => exact hnone
  | begins hc hr => exact fun job c handle hjob hp => hnone job c handle ((calls_begin hc (by rw [hp]; rfl)).1 hjob) hp
  | @goes env me c session he hc =>
    have hgoes : Goes t env s me c session _ := ho.goes hc (Call.paths t.setup env me session s.workspace (ho.fit hc))
    generalize c.advance t.setup env me session s.workspace = a at hgoes ⊢
    intro job c' handle hjob hp
    cases hgoes with
    | quiet _ _ _ hgo hdone _ =>
      refine hnone job c' handle ((after_calls_of_quiet hc (fun c' hgoing => ?_) (fun result hresult => ?_)
        (by rw [hp]; rfl)).1 hjob) hp
      · exact (hgo c' hgoing).imp_right fun h => ⟨h.1, h.2.1⟩
      · exact (hdone result hresult).1
    | @passes p lock unload hme _ _ _ hk =>
      have hparting : p.held.parting = some handle := (releasing_conclude hme).2 ⟨job, c', hjob, hp⟩
      rcases hk with ⟨-, rfl⟩ | ⟨batch, -, -, rfl⟩ | ⟨other, hphase, -⟩
      · have hnothing : (c.request.passage t.setup env session { s.workspace with lock, unload }).held.parting = none :=
          Request.passage_parting_of_disposed hstatus
        exact absurd (hparting.symm.trans hnothing) nofun
      · rw [Workspace.close_result] at hparting
        cases hparting
      · exact hnone me c other hc hphase

/-- The end of a teardown leaves the workspace gone. -/
theorem Orderly.gone_of_dispose (h : s.Orderly past) (hs : Step t i s s' ended) {e : Ending} (hmem : e ∈ ended)
    {cause : DisposeCause} (hr : e.request = .dispose cause) {answer : Answer} (ha : e.result = .ok answer) :
    s'.Gone := by
  rcases h.cases_step hs with ⟨-, -, rfl⟩ | ⟨env, me, c, session, a, -, hc, hgoes, rfl, rfl⟩
  · cases hmem
  · cases hgoes with
    | quiet _ _ _ _ _ ho =>
      obtain ⟨result, hresult, rfl⟩ := Advance.mem_endings_iff.1 hmem
      obtain rfl : result = .ok answer := ha
      have hr : c.request = .dispose cause := hr
      have hheeds := (ho _ hresult).2
      rw [hr] at hheeds
      cases hheeds
    | @passes p lock unload hme _ _ _ hk =>
      obtain ⟨result, hheld, rfl⟩ := Call.mem_endings_conclude.1 hmem
      obtain rfl : result = .ok answer := ha
      have hr : c.request = .dispose cause := hr
      have hstatus : p.workspace.status = .disposed := by
        rcases hk with ⟨-, rfl⟩ | ⟨batch, hphase, -, rfl⟩ | ⟨handle, hphase, -, rfl⟩
        · rw [hr]
          exact Workspace.beginDispose_status ..
        · exact absurd (hr ▸ (h.fit hc).closing hphase) Commit.not_suits_dispose
        · exact h.releasing hc hphase
      obtain ⟨last, hw⟩ := Call.conclude_workspace t.setup c p
      refine ⟨(congrArg Workspace.status hw).trans hstatus, fun job c' handle hjob hp => ?_⟩
      have hparting : p.held.parting = some handle := (releasing_conclude hme).2 ⟨job, c', hjob, hp⟩
      rw [hheld] at hparting
      cases hparting

end Scene

/-! ## Runs -/

namespace World

variable {t : Terms} {setup : Setup} {acts : List Act} {i : Nat} {w : World} {s : Scene}

/-- Where a teardown has ended the workspace is gone. -/
theorem gone_run (hs : (run setup acts).view.HasScene i s) {e : Ending} (he : e ∈ history setup acts)
    (hi : e.place = i) {cause : DisposeCause} (hr : e.request = .dispose cause) {answer : Answer}
    (ha : e.result = .ok answer) : s.Gone := by
  have hplays : (run setup acts).Keeps (freely setup) ∧
      (run setup acts).view.Plays i (fun s past => s.Orderly past ∧
        ∀ e ∈ past, ∀ cause, e.request = .dispose cause → ∀ answer, e.result = .ok answer → s.Gone)
        ((history setup acts).filter (·.place = i)) := by
    refine plays_run (fun hf hp => ⟨Scene.orderly_fresh hf hp, fun e he _ _ answer ha => ?_⟩)
      (fun ⟨ho, hgone⟩ hst => ⟨ho.step hst, fun e he cause hr answer ha => ?_⟩) fun a _ => within_freely setup a
    · obtain ⟨error, herror⟩ := hp e he
      exact absurd (herror.symm.trans ha) nofun
    · rcases List.mem_append.1 he with he | he
      · exact (hgone e he cause hr answer ha).step ho hst
      · exact ho.gone_of_dispose hst he hr ha
  obtain ⟨-, ⟨hv, -⟩ | ⟨s', hs', -, h⟩⟩ := hplays
  · exact absurd (hv.workspace.symm.trans hs.workspace) nofun
  · cases hs.unique hs'
    exact h e (List.mem_filter.2 ⟨he, by simpa using hi⟩) cause hr answer ha

/-- What happened to a workspace, in order. -/
def eventsAt (w : World) (i : Nat) : List Event := (w.log.filter (·.workspace = i)).map (·.event)

/-- Nothing is left of a workspace: it has no context and no registration, bears no id, and what came to it
went again, each once: the registration, the context, what the handlers made for it remembered. -/
structure Gone (w : World) (i : Nat) : Prop where
  workspace : ∃ ws, w.workspace? i = some ws ∧ ws.status = .disposed ∧ ws.context = none ∧ ws.owner = none
  id : ∀ id, ¬w.view.Bears i id
  once : ∃ owner,
    Event.milestones (w.eventsAt i) = Event.following owner ++ Event.leaving owner ∨
      ∃ serial params, ∃ e : Evaluation, e.creationParams = .ok params ∧
        Event.milestones (w.eventsAt i) = Event.following owner ++
          Event.lifetime serial params (w.setup.registry.resolve e.project).members ++ Event.leaving owner

theorem gone_of_scene (hs : (run setup acts).view.HasScene i s) (h : s.Gone) : (run setup acts).Gone i := by
  obtain ⟨hstatus, hnone⟩ := h
  obtain ⟨s', hs', -, ho⟩ := orderly_run setup acts hs.workspace
  cases hs.unique hs'
  have hcontext := ho.regular.disposed hstatus
  obtain ⟨parting, hparting, hstory⟩ := told_run setup acts hs
  have hsetup : (run setup acts).setup = setup := (plays_orderly setup acts i).1.setup
  have hevents : (run setup acts).eventsAt i = s.log := hs.log.symm
  refine ⟨⟨s.workspace, by rw [← view_workspaces, hs.workspace], hstatus, hcontext, ?_⟩, fun id hid => ?_, ?_⟩
  · refine (ho.owner hstatus).resolve_right ?_
    rintro ⟨me, c, handle, hc, hp⟩
    exact hnone me c handle hc hp
  · rcases (hs.bears id).1 hid with ⟨handle, hhandle, -⟩ | ⟨me, c, handle, hc, hp, -⟩
    · exact absurd (hcontext.symm.trans hhandle) nofun
    · exact hnone me c handle hc hp
  · rw [hevents, hsetup]
    generalize Event.milestones s.log = l at hstory ⊢
    cases hstory with
    | early hs => exact absurd (hstatus.symm.trans hs) nofun
    | bare hs => rcases hs with hs | hs <;> exact absurd (hstatus.symm.trans hs) nofun
    | housed hs => exact absurd (hstatus.symm.trans hs) nofun
    | @parting handle =>
      obtain ⟨me, c, hc, hp⟩ := (hparting handle).1 rfl
      exact absurd hp (hnone me c handle hc)
    | @past owner => exact ⟨owner, .inl rfl⟩
    | @gone owner handle params _ hm =>
      obtain ⟨e, he, hmembers⟩ := hm.members
      exact ⟨owner, .inr ⟨handle.serial, params, e, he, by rw [hmembers]⟩⟩

/-- A teardown that is taken ahead for the first time requests unload, for its own cause if it is the first. -/
theorem requests_unload {ws : Workspace} {me : JobId} {c : Call} {env : Environment} {cause : DisposeCause}
    (hw : (run setup acts).workspace? i = some ws) (hc : (run setup acts).callAt me = some (i, c))
    (hp : c.phase = .entering) (hr : c.request = .dispose cause) :
    ∃ ws', (run setup (acts ++ [.advance env me])).workspace? i = some ws' ∧
      ws'.unload.cause = some (ws.unload.cause.getD cause) := by
  obtain ⟨s, hs, rfl, h⟩ := orderly_run setup acts (i := i) (by rwa [view_workspaces])
  have hcall : s.calls me = some c := (hs.calls me c).2 hc
  have hpaths := Call.paths setup env me (run setup acts).session s.workspace (h.fit hcall)
  have hkeeps := (plays_orderly setup acts i).1
  obtain ⟨hs', -⟩ := goes_here hkeeps (show (freely setup).fits env from trivial) hs hcall
  refine ⟨_, ?_, hpaths.requests hp hr⟩
  rw [run_concat, ← view_workspaces]
  exact hs'.workspace

/-- What holds of a workspace from the first request to unload it on. -/
structure TornDown (setup : Setup) (acts : List Act) (i : Nat) (cause : DisposeCause) : Prop where
  /-- The first cause stays, whoever asks for unload after. -/
  stays : ∃ w, (run setup acts).workspace? i = some w ∧ w.unload.cause = some cause
  /-- Who waits or comes later, and is not under the lock, ends with its error as soon as it is taken ahead. -/
  cut : ∀ me c env, (run setup acts).callAt me = some (i, c) → c.request.heeds = true → c.phase.holds = false →
    (run setup acts).endings (.advance env me) = [⟨i, c.request, .error cause.error⟩]
  /-- No batch opens. -/
  unopened : ∀ a, ∃ gained, (run setup (acts ++ [a])).log = (run setup acts).log ++ gained ∧
    ∀ e ∈ gained, e.workspace = i → ∀ n, e.event ≠ .context n .startBatch
  /-- Who has a batch to close still has the context, and ends as the batch does. -/
  finishes : ∀ me c batch env, (run setup acts).callAt me = some (i, c) → c.phase = .closing batch →
    (∃ w, (run setup acts).workspace? i = some w ∧ w.status = .initialized ∧ w.context.isSome) ∧
      (env.gateOpen = true →
        (run setup acts).endings (.advance env me) = [⟨i, c.request, batch.result env⟩])
  /-- The id of the context that goes is taken until it is gone, and free then. -/
  frees : ∀ me c handle env, (run setup acts).callAt me = some (i, c) → c.phase = .releasing handle →
    (run setup acts).session.isLive handle.id = true ∧
      (env.disposalOpen = true → (run setup (acts ++ [.advance env me])).session.isLive handle.id = false)
  /-- When a teardown has ended the workspace is gone. -/
  gone : ∀ e ∈ history setup acts, e.place = i → ∀ other, e.request = .dispose other →
    ∀ answer, e.result = .ok answer → (run setup acts).Gone i
  /-- If the calls here are taken ahead again and again they all end, and teardowns end well. -/
  ends : ∀ later : Nat → Act, (run setup acts).Fair i later → ∀ n me c,
    ((run setup acts).follow later n).callAt me = some (i, c) → (run setup acts).Ends later i me c.request n

/-- Once unload of a workspace has been requested it is torn down in order, whatever calls mix. -/
theorem torn_down (setup : Setup) (acts : List Act) (i : Nat) (w : Workspace) (cause : DisposeCause)
    (hw : (run setup acts).workspace? i = some w) (hc : w.unload.cause = some cause) (more : List Act) :
    TornDown setup (acts ++ more) i cause := by
  obtain ⟨w', hw', hcause⟩ := later_run
    (R := fun w w' => w.unload.cause = some cause → w'.unload.cause = some cause) (fun _ => id)
    (fun h h' => h' ∘ h) (fun h hst => h.keeps_cause hst) hw more
  have hu := hcause hc
  generalize acts ++ more = acts at hw' hu
  obtain ⟨s, hs, rfl, h⟩ := orderly_run setup acts (i := i) (by rwa [view_workspaces])
  have hkeeps := (plays_orderly setup acts i).1
  have calls {me : JobId} {c : Call} (hcall : (run setup acts).callAt me = some (i, c)) : s.calls me = some c :=
    (hs.calls me c).2 hcall
  have step (env : Environment) {me : JobId} {c : Call} (hcall : s.calls me = some c) :=
    goes_here hkeeps (show (freely setup).fits env from trivial) hs hcall
  have paths (env : Environment) {me : JobId} {c : Call} (hcall : s.calls me = some c) :=
    Call.paths setup env me (run setup acts).session s.workspace (h.fit hcall)
  constructor
  case stays => exact ⟨s.workspace, hw', hu⟩
  case cut =>
    intro me c env hcall hr hp
    obtain ⟨lock, ha, -⟩ := (paths env (calls hcall)).yielded hu hr hp
    refine (step env (calls hcall)).2.2.trans ?_
    exact Advance.endings_of_done (congrArg Advance.progress ha) ..
  case unopened =>
    intro a
    have hm := perform_moves hkeeps (within_freely setup a)
    obtain ⟨s', hs', hstep⟩ := hs.move hm
    obtain ⟨more, hmore, hnone⟩ := h.opens_nothing hstep hu
    obtain ⟨gained, hgained, hevents⟩ := hs.log_move hs' hm hmore
    refine ⟨gained, by rwa [run_concat], fun e he hi n hevent => ?_⟩
    exact hnone n (Event.mem_callsOf.2 (hevent ▸ hevents e he hi))
  case finishes =>
    intro me c batch env hcall hp
    refine ⟨⟨s.workspace, hw', h.closing (calls hcall) hp⟩, fun hgate => ?_⟩
    refine (step env (calls hcall)).2.2.trans ?_
    have ha := (paths env (calls hcall)).closed hp hgate
    refine Advance.endings_of_done ((congrArg Advance.progress ha).trans ?_) ..
    rw [Call.conclude, Workspace.close_result]
  case frees =>
    intro me c handle env hcall hp
    have hborne : (run setup acts).view.Bears i handle.id := .inr ⟨me, c, handle, hcall, hp, rfl⟩
    have hlive : handle.id ∈ (run setup acts).session.live := (borne_run setup acts).live.2 ⟨i, hborne⟩
    refine ⟨by simpa [Session.isLive] using hlive, fun hdisposal => ?_⟩
    have ha := (paths env (calls hcall)).parted hp hdisposal
    have hsession : (run setup (acts ++ [.advance env me])).session =
        ((run setup acts).session.finishRelease handle).1 := by
      rw [run_concat]
      exact (step env (calls hcall)).2.1.trans (congrArg Advance.session ha)
    rw [hsession]
    simp [Session.isLive, Session.finishRelease]
  case gone => exact fun e he hi other hr answer ha => gone_of_scene hs (gone_run hs he hi hr ha)
  case ends =>
    intro later hf n me c hcall
    exact Unloading.ends ⟨hkeeps, s, hs, h.toLined, hu⟩ hf hcall

set_option maxRecDepth 100000 in
/-- With a batch of a build open, a call that waits for the build and two teardowns with different causes in line,
the cause is the one that came first. -/
theorem torn_down_amid_build :
    let acts := Sample.twoCalls (Sample.evaluation ["a.cs"]) (Sample.build ["/r:a.dll"]) ++
      [.call 0 .whenBuild, .call 0 (.dispose .unload), .advance {} 3,
        .call 0 (.dispose .activeConfigurationChanged), .advance {} 4]
    ∃ w, (run {} acts).workspace? 0 = some w ∧ w.unload.cause = some .unload ∧ w.lock.waiting = [3, 4] ∧
      ∀ more, TornDown {} (acts ++ more) 0 .unload := by
  intro acts
  have h : ((run {} acts).workspace? 0).map (fun w => (w.unload.cause, w.lock.waiting)) =
      some (some .unload, [3, 4]) := by decide +kernel
  obtain ⟨w, hw, hstate⟩ := Option.map_eq_some_iff.1 h
  obtain ⟨hcause, hwaiting⟩ := Prod.ext_iff.1 hstate
  exact ⟨w, hw, hcause, hwaiting, torn_down _ _ _ w _ hw hcause⟩

end World

end SliceSync
