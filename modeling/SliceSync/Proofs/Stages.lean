import SliceSync.Proofs.Live
import SliceSync.Proofs.Milestones
import SliceSync.Proofs.Plain
/-!
# The stages of a workspace

What can be said of status, registration, context and signals of a workspace after any run, whatever calls
mix and whatever fails: where the status can go, what is there at each stage, when the signals turn, and that
neither options nor a context come before an evaluation.

Main statement: `World.staged`.
-/

namespace SliceSync

/-! ## What reaches a context -/

/-- No handler from outside sets the options of a context. -/
def Environment.SparesOptions (env : Environment) : Prop :=
  ∀ call, ∀ m ∈ (env.reply call).mutations, m.part ≠ .options

theorem Effect.mem_mutations {m : Mutation} {effects : List Effect} :
    m ∈ mutations effects ↔ .mutate m ∈ effects := by
  induction effects with
  | nil => simp
  | cons e rest ih => cases e <;> simp_all [mutations]

namespace HandlerSet

variable {s : HandlerSet} {env : Environment} {rules : NameMap Change} {items : Listing String Change}
  {activity : Activity}

/-- The handlers that follow an evaluation set no options. -/
theorem applyBoth_spares (he : env.SparesOptions) {m : Mutation}
    (hm : .mutate m ∈ (s.applyBoth env rules items activity).effects) : m.part ≠ .options := by
  have first (hm : .mutate m ∈ (s.applyEvaluation env rules activity).effects) : m.part ≠ .options := by
    obtain ⟨k, h, -, -, hm⟩ := mem_effects hm
    rcases mem_callEvaluation hm with (hp | hp) | ⟨call, hm⟩
    · rw [hp]
      nofun
    · rw [hp]
      nofun
    · exact he call m hm
  cases hf : (s.applyEvaluation env rules activity).failure with
  | some error =>
    rw [applyBoth_of_failure hf] at hm
    exact first hm
  | none =>
    rw [applyBoth_of_none hf] at hm
    rcases List.mem_append.1 hm with hm | hm
    · exact first hm
    · obtain ⟨k, h, -, -, hm⟩ := mem_effects hm
      rcases mem_callItems hm with ⟨name, files, -, hp⟩ | ⟨call, hm⟩
      · rw [hp]
        nofun
      · exact he call m hm

end HandlerSet

namespace Workspace

variable {setup : Setup} {env : Environment} {session : Session} {w : Workspace}

theorem openEvaluation_spares (he : env.SparesOptions) {handle : ContextHandle} {fresh : Bool}
    {versions : Versions} {e : Evaluation} {n : Nat} {m : Mutation}
    (hm : .mutate m ∈ Event.callsOf n (openEvaluation setup env session w handle fresh versions e).events) :
    m.part ≠ .options := by
  rw [callsOf_openEvaluation] at hm
  split at hm
  · simp only [List.mem_cons, reduceCtorEq, List.mem_map, ContextCall.mutate.injEq, exists_eq_right, false_or,
      List.mem_append] at hm
    rcases hm with hm | hm
    · cases fresh with
      | false => cases hm
      | true =>
        rw [List.mem_singleton.1 hm]
        nofun
    · exact HandlerSet.applyBoth_spares he (Effect.mem_mutations.1 hm)
  · cases hm

/-- An evaluation sets no options. -/
theorem Receives.spares {u : Update} {p : Passage} (h : w.Receives setup env session u p)
    (he : env.SparesOptions) {e : Evaluation} (hu : u.payload = .evaluation e) {n : Nat} {m : Mutation}
    (hm : .mutate m ∈ Event.callsOf n p.events) : m.part ≠ .options := by
  have quiet {l : List Event} (hl : Event.callsOf n l = []) :
      Event.callsOf n ((w.enroll setup u).2 ++ l) = [] := by
    rw [Event.callsOf_append, callsOf_enroll, hl]
    rfl
  cases h with
  | refused => cases hm
  | uncreated =>
    rw [callsOf_enroll] at hm
    cases hm
  | creates ha hu' hc hs =>
    obtain ⟨-, -, -, params, rfl⟩ := Session.create_eq hs
    rw [callsOf_after (quiet rfl)] at hm
    exact openEvaluation_spares he hm
  | skips =>
    rw [quiet (callsOf_tell ..)] at hm
    cases hm
  | applies ha hu' hc =>
    rw [callsOf_after (callsOf_enroll ..)] at hm
    exact openEvaluation_spares he hm
  | skipsBuild ha hu' | misses ha hu' | appliesBuild ha hu' => exact absurd (hu.symm.trans hu') nofun

end Workspace

/-- Who does not wait for the first evaluation sets no options. -/
theorem Request.passage_spares {setup : Setup} {env : Environment} {session : Session} {w : Workspace}
    {request : Request} (he : env.SparesOptions) (hr : request.awaits = false) {n : Nat} {m : Mutation}
    (hm : .mutate m ∈ Event.callsOf n (request.passage setup env session w).events) : m.part ≠ .options := by
  have hp := request.enters setup env session w
  generalize request.passage setup env session w = p at hm hp
  cases hp with
  | @receives u p hp =>
    cases hu : u.payload with
    | evaluation e => exact hp.spares he hu hm
    | build b => simp [awaits, hu] at hr
  | refuses | lacks | writes => cases hr
  | releases => simp [Session.beginRelease, Event.mem_callsOf] at hm
  | departs =>
    unfold Workspace.unregister at hm
    cases how : w.owner <;> simp [how, Event.mem_callsOf] at hm
  | gone | answers => cases hm

namespace Workspace

variable {setup : Setup} {env : Environment} {session : Session} {w : Workspace}

theorem mem_enroll {u : Update} {e : Event} (he : e ∈ (w.enroll setup u).2) : ∃ owner, e = .registered owner := by
  unfold enroll at he
  split at he
  · split at he
    · exact ⟨_, List.mem_singleton.1 he⟩
    · cases he
  · cases he

theorem enroll_contextId (u : Update) : (w.enroll setup u).1.contextId = w.contextId := by
  obtain ⟨_, _, h, -⟩ := enroll_eq w u
  rw [h]

theorem close_contextId (env : Environment) (session : Session) (w : Workspace) (batch : OpenBatch) :
    (w.close env session batch).workspace.contextId = w.contextId := by
  obtain ⟨_, _, _, h⟩ := w.close_workspace env session batch
  rw [h]

/-- A build creates no context. -/
theorem Receives.creates_nothing {u : Update} {p : Passage} (h : w.Receives setup env session u p) {b : Build}
    (hu : u.payload = .build b) :
    p.workspace.contextId = w.contextId ∧ ∀ n params, .created n params ∉ p.events := by
  refine ⟨?_, fun n params hmem => ?_⟩
  · cases h with
    | refused => rfl
    | uncreated ha hu' | creates ha hu' | skips ha hu' | applies ha hu' => exact absurd (hu.symm.trans hu') nofun
    | skipsBuild | misses | appliesBuild => exact enroll_contextId u
  · have hmem := Event.mem_milestones.2 ⟨hmem, rfl⟩
    rcases h.milestones with ⟨-, -, he⟩ | ⟨-, he⟩ <;> rw [he] at hmem
    · cases hmem
    · have hmem : .created n params ∈ (w.enroll setup u).2 := by
        cases hc : w.context <;> simpa [hc, hu] using hmem
      obtain ⟨owner, ho⟩ := mem_enroll hmem
      cases ho

end Workspace

/-- What is not an evaluation creates no context. -/
theorem Request.passage_creates {setup : Setup} {env : Environment} {session : Session} {w : Workspace}
    {request : Request} (hr : request.isEvaluation = false) :
    (request.passage setup env session w).workspace.contextId = w.contextId ∧
      ∀ n params, .created n params ∉ (request.passage setup env session w).events := by
  have hp := request.enters setup env session w
  generalize request.passage setup env session w = p at hp ⊢
  cases hp with
  | @receives u p hp =>
    cases hu : u.payload with
    | evaluation e => simp [isEvaluation, Update.kind, hu] at hr
    | build b => exact hp.creates_nothing hu
  | writes => exact ⟨rfl, fun n params hmem => by simp at hmem⟩
  | releases => exact ⟨rfl, fun n params hmem => by simp [Session.beginRelease] at hmem⟩
  | departs =>
    unfold Workspace.unregister
    exact ⟨rfl, fun n params hmem => by cases ho : w.owner <;> simp [ho] at hmem⟩
  | refuses | lacks | gone | answers => exact ⟨rfl, fun n params hmem => by cases hmem⟩

/-! ## What is told of the status -/

theorem Workspace.close_not_status (env : Environment) (session : Session) (w : Workspace) (batch : OpenBatch)
    (status : Status) : (w.close env session batch).held ≠ .finished (.ok (.status status)) := by
  unfold close
  dsimp only
  split
  · nofun
  · cases batch.commit <;> nofun

/-- The status is told as it is. -/
theorem Request.passage_status {setup : Setup} {env : Environment} {session : Session} {w : Workspace}
    {request : Request} {status : Status}
    (h : (request.passage setup env session w).held = .finished (.ok (.status status))) :
    (request.passage setup env session w).workspace = w ∧ w.status = status := by
  have hp := request.enters setup env session w
  generalize request.passage setup env session w = p at h hp ⊢
  cases hp with
  | receives hr => cases hr <;> cases h
  | answers =>
    cases h
    exact ⟨rfl, rfl⟩
  | _ => cases h

/-! ## Steps -/

namespace Scene

variable {t : Terms} {i : Nat} {s s' : Scene} {past ended : List Ending}

/-- A step changes nothing but the token and who has begun a call, or it is a step of a call. -/
theorem Orderly.cases_step (h : s.Orderly past) (hs : Step t i s s' ended) :
    (∃ unload, s'.workspace = { s.workspace with unload }) ∧ s'.log = s.log ∧ ended = [] ∨
      ∃ env me c session a, t.fits env ∧ s.calls me = some c ∧ Goes t env s me c session a ∧
        s' = s.after me a ∧ ended = a.endings i c.request := by
  cases hs with
  | rests => exact .inl ⟨⟨_, rfl⟩, rfl, rfl⟩
  | unloads cause => exact .inl ⟨⟨_, rfl⟩, rfl, rfl⟩
  | begins hc hr => exact .inl ⟨⟨_, rfl⟩, rfl, rfl⟩
  | @goes env me c session he hc =>
    have hpaths := Call.paths t.setup env me session s.workspace (h.fit hc)
    exact .inr ⟨env, me, c, session, _, he, hc, h.goes hc hpaths, rfl, rfl⟩

/-- What a step leaves of the workspace: all but the lock and the token, or what a passage of a call brings about. -/
theorem Orderly.workspace_step (h : s.Orderly past) (hs : Step t i s s' ended) :
    (∃ lock unload, s'.workspace = { s.workspace with lock, unload }) ∨
      ∃ env me c session lock unload p last, s.calls me = some c ∧ p.Lawful { s.workspace with lock, unload } c.request ∧
        (p = c.request.passage t.setup env session { s.workspace with lock, unload } ∨
          (∃ batch, c.phase = .closing batch ∧ p = s.workspace.close env session batch) ∨
          ∃ handle, c.phase = .releasing handle ∧ p = s.workspace.finishDispose session handle) ∧
        s'.workspace = { p.workspace with lock := last } := by
  rcases h.cases_step hs with ⟨⟨unload, hw⟩, -⟩ | ⟨env, me, c, session, a, -, hc, hgoes, rfl, -⟩
  · exact .inl ⟨s.workspace.lock, unload, hw⟩
  · cases hgoes with
    | quiet _ hw => exact .inl hw
    | @passes p lock unload _ hp _ _ hk =>
      obtain ⟨last, hw⟩ := Call.conclude_workspace t.setup c p
      refine .inr ⟨env, me, c, session, lock, unload, p, last, hc, hp, ?_, hw⟩
      rcases hk with ⟨-, hpasses⟩ | ⟨batch, hphase, -, hcloses⟩ | ⟨handle, hphase, -, hparts⟩
      · exact .inl hpasses
      · exact .inr (.inl ⟨batch, hphase, hcloses⟩)
      · exact .inr (.inr ⟨handle, hphase, hparts⟩)

/-- The status moves along the stages of the workspace's life. -/
theorem Orderly.leads (h : s.Orderly past) (hs : Step t i s s' ended) :
    s.workspace.status.Leads s'.workspace.status := by
  rcases h.workspace_step hs with ⟨lock, unload, hw⟩ | ⟨env, me, c, session, lock, unload, p, last, -, hp, -, hw⟩
  · rw [hw]
    exact .refl _
  · rw [hw]
    exact hp.status

/-- The signal of the first evaluation turns once. -/
theorem Orderly.settled (h : s.Orderly past) (hs : Step t i s s' ended) (he : s.workspace.evaluation ≠ .pending) :
    s'.workspace.evaluation = s.workspace.evaluation := by
  rcases h.workspace_step hs with ⟨lock, unload, hw⟩ | ⟨env, me, c, session, lock, unload, p, last, -, hp, -, hw⟩
  · rw [hw]
  · rw [hw]
    rcases hp.evaluation with hsame | ⟨hpending, -⟩ | ⟨hfailed, hnow, -⟩
    · exact hsame
    · exact absurd hpending he
    · cases hbefore : s.workspace.evaluation with
      | pending => exact absurd hbefore he
      | integrated => exact hnow
      | failed => exact absurd hbefore hfailed

/-- The first evaluation that ends well closes a batch. -/
theorem Orderly.first (h : s.Orderly past) (hs : Step t i s s' ended)
    (he : s.workspace.evaluation ≠ .integrated) {e : Ending} (hmem : e ∈ ended)
    (hr : e.request.isEvaluation = true) {answer : Answer} (ha : e.result = .ok answer) :
    ∃ me c batch, s.calls me = some c ∧ c.request = e.request ∧ c.phase = .closing batch := by
  rcases h.cases_step hs with ⟨-, -, rfl⟩ | ⟨env, me, c, session, a, -, hc, hgoes, -, rfl⟩
  · cases hmem
  · cases hgoes with
    | quiet _ _ _ _ hdone _ =>
      obtain ⟨result, hresult, rfl⟩ := Advance.mem_endings_iff.1 hmem
      rw [((hdone result hresult).2 answer ha).1] at hr
      cases hr
    | @passes p lock unload _ hp _ _ hk =>
      obtain ⟨result, hheld, rfl⟩ := Call.mem_endings_conclude.1 hmem
      obtain rfl : result = .ok answer := ha
      rcases hk with ⟨-, rfl⟩ | ⟨batch, hphase, -⟩ | ⟨handle, hphase, -⟩
      · -- without a batch it would have been skipped
        exact absurd ((h.regular.with_lock lock unload).integrated_of_skip hr hheld) he
      · exact ⟨me, c, batch, hc, rfl, hphase⟩
      · obtain ⟨cause, hrequest⟩ := (h.fit hc).releasing hphase
        rw [hrequest] at hr
        cases hr

/-- Who is told that the workspace is disposed of can rely on it. -/
theorem Orderly.told (h : s.Orderly past) (hs : Step t i s s' ended) {e : Ending} (hmem : e ∈ ended)
    (ha : e.result = .ok (.status .disposed)) :
    s'.workspace.status = .disposed ∧ s'.workspace.context = none ∧ s'.workspace.owner = none := by
  have h' := h.step hs
  rcases h.cases_step hs with ⟨-, -, rfl⟩ | ⟨env, me, c, session, a, -, hc, hgoes, rfl, rfl⟩
  · cases hmem
  · cases hgoes with
    | quiet _ _ _ _ _ ho =>
      obtain ⟨result, hresult, rfl⟩ := Advance.mem_endings_iff.1 hmem
      obtain rfl : result = .ok (.status .disposed) := ha
      cases (ho _ hresult).1
    | @passes p lock unload hme _ _ _ hk =>
      obtain ⟨result, hheld, rfl⟩ := Call.mem_endings_conclude.1 hmem
      obtain rfl : result = .ok (.status .disposed) := ha
      rcases hk with ⟨hholds, rfl⟩ | ⟨batch, -, -, rfl⟩ | ⟨handle, -, -, rfl⟩
      · obtain ⟨hsame, hstatus⟩ := Request.passage_status hheld
        generalize c.request.passage t.setup env session { s.workspace with lock, unload } = p at hsame hheld h' ⊢
        obtain ⟨last, hw⟩ := Call.conclude_workspace t.setup c p
        have hdisposed : (s.after me (c.conclude t.setup p)).workspace.status = .disposed := by
          rw [show (s.after me (c.conclude t.setup p)).workspace = _ from hw, hsame]
          exact hstatus
        refine ⟨hdisposed, h'.regular.disposed hdisposed, (h'.owner hdisposed).resolve_right ?_⟩
        -- nobody was under the lock, and the call has ended
        rintro ⟨job, c', handle, hjob, hp⟩
        have hholds' : c'.phase.holds = true := by rw [hp]; rfl
        by_cases hne : job = me
        · subst hne
          rw [after_calls_self, Call.conclude, hheld] at hjob
          cases hjob
        · rw [after_calls_of_ne _ _ hne] at hjob
          exact hne (hme hjob hholds')
      · exact absurd hheld (Workspace.close_not_status env session s.workspace batch .disposed)
      · cases hheld

/-- Options are set after the first evaluation, if those from outside leave them alone. -/
theorem Orderly.options (h : s.Orderly past) (hs : Step t i s s' ended)
    (hspares : ∀ env, t.fits env → env.SparesOptions) :
    ∃ more, s'.log = s.log ++ more ∧ ∀ n m, .mutate m ∈ Event.callsOf n more → m.part = .options →
      s.workspace.evaluation = .integrated := by
  rcases h.cases_step hs with ⟨-, hlog, -⟩ | ⟨env, me, c, session, a, hfits, hc, hgoes, rfl, -⟩
  · exact ⟨[], by rw [hlog, List.append_nil], nofun⟩
  · refine ⟨a.events, rfl, fun n m hm hpart => ?_⟩
    cases hgoes with
    | quiet _ _ hfaults =>
      obtain ⟨error, severity, he⟩ := hfaults _ (Event.mem_callsOf.1 hm)
      cases he
    | @passes p lock unload _ _ hr _ hk =>
      rw [Call.callsOf_conclude] at hm
      rcases hk with ⟨-, rfl⟩ | ⟨batch, hphase, -, rfl⟩ | ⟨handle, hphase, -, rfl⟩
      · cases hawaits : c.request.awaits with
        | true => exact h.awaited hc hawaits (hr hawaits)
        | false => exact absurd hpart (Request.passage_spares (hspares env hfits) hawaits hm)
      · obtain ⟨-, -, -, hheard⟩ := Workspace.close_heard env session s.workspace batch
        rw [hheard] at hm
        split at hm <;> simp at hm
      · obtain ⟨-, -, -, hheard⟩ := Workspace.finishDispose_heard session s.workspace handle
        rw [hheard] at hm
        cases hm

/-- Where no call is an evaluation no context is created. -/
theorem Orderly.creates_nothing (h : s.Orderly past) (hs : Step t i s s' ended)
    (hr : ∀ {me c}, s.calls me = some c → c.request.isEvaluation = false) :
    s'.workspace.contextId = s.workspace.contextId ∧
      ∃ more, s'.log = s.log ++ more ∧ ∀ n params, .created n params ∉ more := by
  rcases h.cases_step hs with ⟨⟨unload, hw⟩, hlog, -⟩ | ⟨env, me, c, session, a, -, hc, hgoes, rfl, -⟩
  · rw [hw]
    exact ⟨rfl, [], by rw [hlog, List.append_nil], nofun⟩
  · cases hgoes with
    | quiet _ hw hfaults =>
      obtain ⟨lock, unload, hw⟩ := hw
      refine ⟨by rw [show (s.after me a).workspace = _ from hw], a.events, rfl, fun n params hmem => ?_⟩
      obtain ⟨error, severity, he⟩ := hfaults _ hmem
      cases he
    | @passes p lock unload _ _ _ _ hk =>
      obtain ⟨last, hw⟩ := Call.conclude_workspace t.setup c p
      have hp : p.workspace.contextId = s.workspace.contextId ∧
          ∀ n params, .created n params ∉ Event.milestones p.events := by
        rcases hk with ⟨-, rfl⟩ | ⟨batch, hphase, -, rfl⟩ | ⟨handle, hphase, -, rfl⟩
        · obtain ⟨hid, hnone⟩ := Request.passage_creates (hr hc)
          exact ⟨hid, fun n params hmem => hnone n params (Event.mem_of_mem_milestones hmem)⟩
        · rw [Workspace.milestones_close]
          exact ⟨Workspace.close_contextId .., nofun⟩
        · rw [Workspace.milestones_finishDispose]
          refine ⟨rfl, fun n params hmem => ?_⟩
          cases ho : s.workspace.owner <;> simp [ho] at hmem
      refine ⟨(congrArg Workspace.contextId hw).trans hp.1, _, rfl, fun n params hmem => ?_⟩
      have hmem := Event.mem_milestones.2 ⟨hmem, rfl⟩
      rw [Call.milestones_conclude] at hmem
      exact hp.2 n params hmem

end Scene

/-! ## Runs -/

/-- What happens here is what the log gains here. -/
theorem View.HasScene.log_move {t : Terms} {v v' : View} {i : Nat} {s s' : Scene} {ended : List Ending}
    (hs : v.HasScene i s) (hs' : v'.HasScene i s') (hm : Move t v v' ended) {more : List Event}
    (hmore : s'.log = s.log ++ more) :
    ∃ gained, v'.log = v.log ++ gained ∧ ∀ e ∈ gained, e.workspace = i → e.event ∈ more := by
  obtain ⟨gained, hlog⟩ : ∃ gained, v'.log = v.log ++ gained := by
    cases hm with
    | steps => exact ⟨_, rfl⟩
    | _ => exact ⟨[], (List.append_nil _).symm⟩
  refine ⟨gained, hlog, fun e he hi => ?_⟩
  rw [hs.log, hs'.log, hlog, List.filter_append, List.map_append] at hmore
  rw [← List.append_cancel_left hmore]
  exact List.mem_map_of_mem (List.mem_filter.2 ⟨he, by simpa using hi⟩)

namespace World

/-- The terms under which nobody from outside sets options. -/
def sparing (setup : Setup) : Terms := ⟨setup, True, Environment.SparesOptions⟩

variable {setup : Setup} {acts : List Act} {i : Nat} {w : Workspace}

theorem view_workspaces (w : World) (i : Nat) : w.view.workspaces[i]? = w.workspace? i :=
  List.getElem?_map

/-- A workspace stays, and what every step does to it holds of all that comes later. -/
theorem later_run {R : Workspace → Workspace → Prop} (refl : ∀ w, R w w)
    (trans : ∀ {w w' w''}, R w w' → R w' w'' → R w w'')
    (step : ∀ {s s' : Scene} {past ended}, s.Orderly past → Scene.Step (freely setup) i s s' ended →
      R s.workspace s'.workspace)
    (hw : (run setup acts).workspace? i = some w) (more : List Act) :
    ∃ w', (run setup (acts ++ more)).workspace? i = some w' ∧ R w w' := by
  induction more using List.reverseRecOn with
  | nil => exact ⟨w, by rwa [List.append_nil], refl w⟩
  | append_singleton more a ih =>
    obtain ⟨w', hw', hR⟩ := ih
    rw [← view_workspaces] at hw'
    obtain ⟨s, hs, rfl, h⟩ := orderly_run setup (acts ++ more) hw'
    obtain ⟨s', hs', hstep⟩ := hs.move (perform_moves (plays_orderly setup _ i).1 (within_freely setup a))
    refine ⟨s'.workspace, ?_, trans hR (step h hstep)⟩
    rw [← List.append_assoc, run_concat, ← view_workspaces]
    exact hs'.workspace

/-- Without a call that is an evaluation no context comes to be. -/
theorem uncreated_run
    (hr : ∀ before, before <+: acts → ∀ me c, (run setup before).callAt me = some (i, c) →
      c.request.isEvaluation = false) :
    (∀ w, (run setup acts).workspace? i = some w → w.contextId = none) ∧
      ∀ e ∈ (run setup acts).log, e.workspace = i → ∀ n params, e.event ≠ .created n params := by
  induction acts using List.reverseRecOn with
  | nil => exact ⟨fun w hw => (by cases hw), fun e he => absurd he List.not_mem_nil⟩
  | append_singleton acts a ih =>
    obtain ⟨hid, hlog⟩ := ih fun before hb => hr before (hb.trans (List.prefix_append acts [a]))
    have hnow := hr acts (List.prefix_append acts [a])
    obtain ⟨hkeeps, hplays⟩ := plays_orderly setup acts i
    have hm := perform_moves hkeeps (within_freely setup a)
    rw [run_concat]
    obtain ⟨hv, -⟩ | ⟨s, hs, h⟩ := hplays
    · -- a workspace that has just come has nothing yet
      rcases hv.move hm with hv' | ⟨s', hs', hfresh⟩
      · refine ⟨fun w hw => ?_, fun e he hi => absurd hi (hv'.log e he)⟩
        rw [← view_workspaces, hv'.workspace] at hw
        cases hw
      · refine ⟨fun w hw => ?_, fun e he hi => ?_⟩
        · rw [← view_workspaces, hs'.workspace] at hw
          cases hw
          obtain ⟨slice, hslice⟩ := hfresh.workspace
          rw [hslice]
        · have : e.event ∈ s'.log := by
            rw [hs'.log]
            exact List.mem_map_of_mem (List.mem_filter.2 ⟨he, by simpa using hi⟩)
          rw [hfresh.log] at this
          cases this
    · obtain ⟨s', hs', hstep⟩ := hs.move hm
      obtain ⟨hsame, more, hmore, hnone⟩ := h.creates_nothing hstep fun {me c} hc =>
        hnow me c ((hs.calls me c).1 hc)
      obtain ⟨gained, hgained, hevents⟩ := hs.log_move hs' hm hmore
      constructor
      · intro w hw
        rw [← view_workspaces, hs'.workspace] at hw
        cases hw
        exact hsame.trans (hid _ (by rw [← view_workspaces, hs.workspace]))
      · intro e he hi n params hcreated
        have he : e ∈ (run setup acts).log ++ gained := hgained ▸ he
        rcases List.mem_append.1 he with he | he
        · exact hlog e he hi n params hcreated
        · exact hnone n params (hcreated ▸ hevents e he hi)

/-- What can be said of a workspace after a run. -/
structure Staged (setup : Setup) (acts : List Act) (i : Nat) (w : Workspace) : Prop where
  /-- The status goes from stage to stage only. -/
  leads : ∀ more w', (run setup (acts ++ more)).workspace? i = some w' → w.status.Leads w'.status
  uninitialized : w.status = .uninitialized →
    w.owner = none ∧ w.context = none ∧ w.evaluation = .pending ∧ w.buildIntegrated = false
  failed : w.status = .failed → w.context = none ∧ w.evaluation = .failed
  /-- Progress is followed at most until the teardown that is under way, and has the lock, ends. -/
  disposed : w.status = .disposed → w.context = none ∧ (w.owner = none ∨
    ∃ me c handle, (run setup acts).callAt me = some (i, c) ∧ c.phase = .releasing handle ∧
      w.lock.holder = some me)
  /-- Who is told that it is disposed of finds it so. -/
  told : ∀ a, ∀ e ∈ (run setup acts).endings a, e.place = i → e.result = .ok (.status .disposed) →
    ∀ w', (run setup (acts ++ [a])).workspace? i = some w' →
      w'.status = .disposed ∧ w'.context = none ∧ w'.owner = none
  /-- The id of the context is known, and taken. -/
  live : ∀ handle, w.context = some handle →
    w.contextId = some handle.id ∧ (run setup acts).session.isLive handle.id = true
  /-- The signal of the first evaluation turns once. -/
  settled : w.evaluation ≠ .pending → ∀ more w', (run setup (acts ++ more)).workspace? i = some w' →
    w'.evaluation = w.evaluation
  integrated : w.evaluation = .integrated ↔
    ∃ e ∈ history setup acts, e.place = i ∧ e.request.isEvaluation = true ∧ ∃ answer, e.result = .ok answer
  /-- The first evaluation that ends well is not skipped: it has a batch to close. -/
  first : w.evaluation ≠ .integrated → ∀ a, ∀ e ∈ (run setup acts).endings a, e.place = i →
    e.request.isEvaluation = true → ∀ answer, e.result = .ok answer →
      ∃ me c batch, (run setup acts).callAt me = some (i, c) ∧ c.request = e.request ∧
        c.phase = .closing batch
  built : w.buildIntegrated = true → w.evaluation = .integrated ∧
    ∃ e ∈ history setup acts, e.place = i ∧ e.request.isBuild = true ∧ ∃ answer, e.result = .ok answer
  /-- No options are set before the first evaluation has ended well. -/
  options : ∀ a : Act, a.Within (sparing setup) → ∃ gained,
    (run setup (acts ++ [a])).log = (run setup acts).log ++ gained ∧
      ∀ e ∈ gained, e.workspace = i → ∀ n arguments, e.event = .context n (.mutate (.setOptions arguments)) →
        w.evaluation = .integrated
  /-- Without an evaluation there is no context, and none has been created. -/
  uncreated :
    (∀ before, before <+: acts → ∀ me c, (run setup before).callAt me = some (i, c) →
      c.request.isEvaluation = false) →
      w.context = none ∧ w.contextId = none ∧
        ∀ e ∈ (run setup acts).log, e.workspace = i → ∀ n params, e.event ≠ .created n params

/-- A workspace goes through its stages as it should, whatever calls mix and whatever fails. -/
theorem staged (setup : Setup) (acts : List Act) (i : Nat) (w : Workspace)
    (hw : (run setup acts).workspace? i = some w) : Staged setup acts i w := by
  have hscene := orderly_run setup acts (i := i) (by rwa [view_workspaces])
  obtain ⟨s, hs, rfl, h⟩ := hscene
  have hkeeps := (plays_orderly setup acts i).1
  constructor
  case leads =>
    intro more w' hw'
    obtain ⟨w'', hw'', hleads⟩ := later_run (R := fun w w' => w.status.Leads w'.status) (fun w => .refl _)
      (fun h h' => h.trans h') (fun h hst => h.leads hst) hw more
    cases hw'.symm.trans hw''
    exact hleads
  case uninitialized => exact h.regular.uninitialized
  case failed => exact h.regular.failed
  case disposed =>
    intro hd
    refine ⟨h.regular.disposed hd, (h.owner hd).imp_right ?_⟩
    rintro ⟨me, c, handle, hc, hp⟩
    exact ⟨me, c, handle, (hs.calls me c).1 hc, hp, h.line.holds ⟨c, hc, by rw [hp]; rfl⟩⟩
  case told =>
    intro a e hmem hi hanswer w' hw'
    obtain ⟨s', hs', hstep⟩ := hs.move (perform_moves hkeeps (within_freely setup a))
    rw [run_concat, ← view_workspaces, hs'.workspace] at hw'
    cases hw'
    exact h.told hstep (List.mem_filter.2 ⟨hmem, by simpa using hi⟩) hanswer
  case live =>
    intro handle hctx
    refine ⟨h.regular.identity handle hctx, ?_⟩
    have hborne : (run setup acts).view.Bears i handle.id := .inl ⟨_, handle, hs.workspace, hctx, rfl⟩
    have hlive : handle.id ∈ (run setup acts).session.live := (borne_run setup acts).live.2 ⟨i, hborne⟩
    simpa [Session.isLive] using hlive
  case settled =>
    intro he more w' hw'
    obtain ⟨w'', hw'', hsettled⟩ := later_run
      (R := fun w w' => w.evaluation ≠ .pending → w'.evaluation = w.evaluation) (fun w _ => rfl)
      (fun h h' he => (h' (by rwa [h he])).trans (h he)) (fun h hst => h.settled hst) hw more
    cases hw'.symm.trans hw''
    exact hsettled he
  case integrated =>
    rw [h.evaluated]
    constructor
    · rintro ⟨e, he, hr⟩
      obtain ⟨he, hi⟩ := List.mem_filter.1 he
      exact ⟨e, he, by simpa using hi, hr⟩
    · rintro ⟨e, he, hi, hr⟩
      exact ⟨e, List.mem_filter.2 ⟨he, by simpa using hi⟩, hr⟩
  case first =>
    intro he a e hmem hi hr answer hanswer
    obtain ⟨s', hs', hstep⟩ := hs.move (perform_moves hkeeps (within_freely setup a))
    obtain ⟨me, c, batch, hc, hrequest, hp⟩ :=
      h.first hstep he (List.mem_filter.2 ⟨hmem, by simpa using hi⟩) hr hanswer
    exact ⟨me, c, batch, (hs.calls me c).1 hc, hrequest, hp⟩
  case built =>
    intro hb
    refine ⟨h.regular.built hb, ?_⟩
    obtain ⟨e, he, hr⟩ := h.built hb
    obtain ⟨he, hi⟩ := List.mem_filter.1 he
    exact ⟨e, he, by simpa using hi, hr⟩
  case options =>
    intro a ha
    have hm := perform_moves (t := sparing setup) ⟨hkeeps.setup, hkeeps.fresh, fun _ _ _ => trivial⟩ ha
    obtain ⟨s', hs', hstep⟩ := hs.move hm
    obtain ⟨more, hmore, hoptions⟩ := h.options hstep fun _ he => he
    obtain ⟨gained, hgained, hevents⟩ := hs.log_move hs' hm hmore
    refine ⟨gained, by rwa [run_concat], fun e he hi n arguments hevent => ?_⟩
    have hmem := hevents e he hi
    rw [hevent] at hmem
    exact hoptions n _ (Event.mem_callsOf.2 hmem) rfl
  case uncreated =>
    intro hr
    obtain ⟨hid, hlog⟩ := uncreated_run hr
    have hnone := hid _ hw
    refine ⟨?_, hnone, hlog⟩
    cases hctx : s.workspace.context with
    | none => rfl
    | some handle => cases hnone.symm.trans (h.regular.identity handle hctx)

set_option maxRecDepth 100000 in
/-- After an evaluation, with the batch of a build open, the context is there and only the first signal has
turned. -/
theorem staged_midway :
    ∃ w, (run {} (Sample.twoCalls (Sample.evaluation ["a.cs"]) (Sample.build ["/r:a.dll"]))).workspace? 0 = some w ∧
      (w.status, w.evaluation, w.buildIntegrated, w.context.isSome) = (.initialized, .integrated, false, true) ∧
      Staged {} (Sample.twoCalls (Sample.evaluation ["a.cs"]) (Sample.build ["/r:a.dll"])) 0 w := by
  have h : ((run {} (Sample.twoCalls (Sample.evaluation ["a.cs"]) (Sample.build ["/r:a.dll"]))).workspace? 0).map
      (fun w => (w.status, w.evaluation, w.buildIntegrated, w.context.isSome)) =
        some (.initialized, .integrated, false, true) := by decide +kernel
  obtain ⟨w, hw, hstate⟩ := Option.map_eq_some_iff.1 h
  exact ⟨w, hw, hstate, staged _ _ _ w hw⟩

end World

end SliceSync
