import Mathlib.Logic.Relation
import SliceSync.Proofs.Lines
import SliceSync.Proofs.Rounds
import SliceSync.Proofs.Batches
/-!
# The life of a workspace

Status, registration, context, the two signals and the baseline of a workspace change at different points of
its calls. They fit together after every step (`Workspace.Regular`), although calls stop halfway, batches
fail and contexts cannot be created: what a passage under the lock does is summed up in `Passage.Lawful`, and
`Scene.Orderly` adds the calls that stand between two passages.

Main statements: `Workspace.Regular.passage`, `Scene.Orderly.step`.
-/

namespace SliceSync

/-- From one stage of a workspace's life to the next. -/
inductive Status.Next : Status → Status → Prop
  | begins : Next .uninitialized .initialized
  | fails : Next .initialized .failed
  | ends : Next .initialized .disposed
  | endsEarly : Next .uninitialized .disposed
  | endsFailed : Next .failed .disposed

/-- From one stage to a later one. -/
def Status.Leads : Status → Status → Prop := Relation.ReflTransGen Status.Next

theorem Status.Leads.refl (s : Status) : s.Leads s := Relation.ReflTransGen.refl

theorem Status.Leads.trans {s s' s'' : Status} (h : s.Leads s') (h' : s'.Leads s'') : s.Leads s'' :=
  Relation.ReflTransGen.trans h h'

/-- Teardown is open to every stage. -/
theorem Status.leads_disposed (s : Status) : s.Leads .disposed := by
  cases s with
  | disposed => exact .refl _
  | uninitialized => exact .single .endsEarly
  | initialized => exact .single .ends
  | failed => exact .single .endsFailed

/-- Whether a request is an evaluation. -/
def Request.isEvaluation (request : Request) : Bool :=
  match request with
  | .update u => u.kind = .evaluation
  | _ => false

/-- Whether a request is a build. -/
def Request.isBuild (request : Request) : Bool :=
  match request with
  | .update u => u.kind = .build
  | _ => false

namespace Workspace

/-- Status, context, signals and baseline fit together. -/
structure Regular (w : Workspace) : Prop where
  uninitialized : w.status = .uninitialized →
    w.owner = none ∧ w.context = none ∧ w.evaluation = .pending ∧ w.buildIntegrated = false
  failed : w.status = .failed → w.context = none ∧ w.evaluation = .failed
  disposed : w.status = .disposed → w.context = none
  integrated : w.evaluation = .integrated →
    w.status = .initialized ∧ w.context.isSome ∨ w.status = .disposed
  barred : w.evaluation = .failed → w.status = .failed ∨ w.status = .disposed
  /-- Nothing is held before the first evaluation has reached the context. -/
  held : w.baseline.activity.isSome → w.evaluation = .integrated
  built : w.buildIntegrated = true → w.evaluation = .integrated
  identity : ∀ handle, w.context = some handle → w.contextId = some handle.id
  nameless : w.context = none → w.status ≠ .disposed → w.contextId = none

theorem regular_new (slice : Slice) : Regular { slice } := by
  constructor <;> simp

variable {setup : Setup} {env : Environment} {session : Session} {w : Workspace} {u : Update}

/-- Lock and token are of no account. -/
theorem Regular.with_lock (h : w.Regular) (lock : Lock) (unload : UnloadToken) :
    Regular { w with lock, unload } :=
  { h with }

/-- A workspace that accepts updates and has no context has not come to its first evaluation. -/
theorem Regular.pending (h : w.Regular) (ha : w.admits = .ok ()) (hc : w.context = none) :
    w.evaluation = .pending := by
  have hstatus := admits_eq_ok_iff.1 ha
  cases he : w.evaluation with
  | pending => rfl
  | integrated =>
    rcases h.integrated he with ⟨-, hsome⟩ | hd
    · simp [hc] at hsome
    · simp [hd] at hstatus
  | failed =>
    rcases h.barred he with hs | hs <;> simp [hs] at hstatus

/-- Following progress is the first thing to happen to a workspace. -/
theorem Regular.enroll (h : w.Regular) (setup : Setup) (ha : w.admits = .ok ()) (u : Update) :
    (w.enroll setup u).1.Regular ∧ (w.enroll setup u).1.status = .initialized ∧
      w.status.Leads .initialized := by
  obtain ⟨status, owner, henroll, hstatus⟩ : ∃ status owner, (w.enroll setup u).1 = { w with status, owner } ∧
    (w.admits = .ok () → status = .initialized) := enroll_eq w u
  obtain rfl := hstatus ha
  rw [henroll]
  rcases admits_eq_ok_iff.1 ha with hs | hs
  · obtain ⟨-, hc, he, hb⟩ := h.uninitialized hs
    refine ⟨?_, rfl, hs ▸ .single .begins⟩
    constructor
    case held => exact h.held
    case nameless => exact fun _ _ => h.nameless hc (by rw [hs]; nofun)
    all_goals simp [hc, he, hb]
  · refine ⟨?_, rfl, hs ▸ .refl _⟩
    constructor
    case integrated => exact fun he => hs ▸ h.integrated he
    case barred => exact fun he => hs ▸ h.barred he
    case held => exact h.held
    case built => exact h.built
    case identity => exact h.identity
    case nameless => exact fun hc _ => h.nameless hc (by rw [hs]; nofun)
    all_goals nofun

theorem enroll_evaluation (u : Update) : (w.enroll setup u).1.evaluation = w.evaluation := by
  obtain ⟨_, _, h, -⟩ := enroll_eq w u
  rw [h]

theorem enroll_buildIntegrated (u : Update) : (w.enroll setup u).1.buildIntegrated = w.buildIntegrated := by
  obtain ⟨_, _, h, -⟩ := enroll_eq w u
  rw [h]

/-- The handlers of the context change, and the baseline says nothing new of the activity. -/
theorem Regular.rehandle (h : w.Regular) {handle handle' : ContextHandle} {baseline : Baseline}
    (hs : w.status = .initialized) (hc : w.context = some handle) (hid : handle'.id = handle.id)
    (hb : baseline.activity = w.baseline.activity) :
    Regular { w with context := some handle', baseline } := by
  constructor
  case uninitialized => exact fun hu => absurd (hs.symm.trans hu) nofun
  case failed => exact fun hf => absurd (hs.symm.trans hf) nofun
  case disposed => exact fun hd => absurd (hs.symm.trans hd) nofun
  case integrated => exact fun _ => .inl ⟨hs, rfl⟩
  case barred => exact h.barred
  case held => exact fun ha => h.held (by rwa [← hb])
  case built => exact h.built
  case identity =>
    rintro _ ⟨⟩
    exact (h.identity handle hc).trans (congrArg some hid.symm)
  case nameless => nofun

end Workspace

/-! ## Passages -/

/-- What a passage of a request does to the life of a workspace. -/
structure Passage.Lawful (w : Workspace) (request : Request) (p : Passage) : Prop where
  regular : p.workspace.Regular
  status : w.status.Leads p.workspace.status
  /-- The signal leaves `pending` when the context cannot be created or when the first evaluation ends well. -/
  evaluation : p.workspace.evaluation = w.evaluation ∨
    w.evaluation = .pending ∧ p.workspace.evaluation = .failed ∨
    w.evaluation ≠ .failed ∧ p.workspace.evaluation = .integrated ∧ request.isEvaluation = true ∧
      ∃ answer, p.held = .finished (.ok answer)
  evaluated : request.isEvaluation = true → ∀ answer, p.held = .finished (.ok answer) →
    p.workspace.evaluation = .integrated
  built : p.workspace.buildIntegrated = true → w.buildIntegrated = true ∨
    request.isBuild = true ∧ ∃ answer, p.held = .finished (.ok answer)
  closing : ∀ batch, p.held = .closing batch → p.workspace.status = .initialized ∧ p.workspace.context.isSome
  releasing : ∀ handle, p.held = .releasing handle → p.workspace.status = .disposed
  owner : p.workspace.status = .disposed → p.workspace.owner = none ∨
    (w.status = .disposed ∧ p.workspace.owner = w.owner) ∨ ∃ handle, p.held = .releasing handle

namespace Workspace

variable {setup : Setup} {env : Environment} {session : Session} {w : Workspace} {u : Update}

/-- A passage that leaves the workspace as it was. -/
theorem Regular.idle (h : w.Regular) {session : Session} {events : List Event} {request : Request}
    {result : Except SyncError Answer}
    (hr : request.isEvaluation = true → ∀ answer, result = .ok answer → w.evaluation = .integrated) :
    Passage.Lawful w request ⟨session, w, events, .finished result⟩ where
  regular := h
  status := .refl _
  evaluation := .inl rfl
  evaluated := fun he answer ha => hr he answer (by cases ha; rfl)
  built := .inl
  closing := nofun
  releasing := nofun
  owner := fun hd => .inr (.inl ⟨hd, rfl⟩)

/-- A passage of a workspace that accepts updates, and still does. -/
theorem Regular.lawful (ha : w.admits = .ok ()) {request : Request} {p : Passage}
    (hregular : p.workspace.Regular) (hstatus : p.workspace.status = .initialized)
    (hevaluation : p.workspace.evaluation = w.evaluation)
    (hopen : ∀ batch, p.held = .closing batch → p.workspace.context.isSome)
    (hparts : ∀ handle, p.held ≠ .releasing handle)
    (hskip : ∀ answer, p.held = .finished (.ok answer) → w.evaluation = .integrated)
    (hbuilt : p.workspace.buildIntegrated = true → w.buildIntegrated = true ∨
      request.isBuild = true ∧ ∃ answer, p.held = .finished (.ok answer)) : Passage.Lawful w request p where
  regular := hregular
  status := by
    rw [hstatus]
    rcases admits_eq_ok_iff.1 ha with hs | hs <;> rw [hs]
    · exact .single .begins
    · exact .refl _
  evaluation := .inl hevaluation
  evaluated := fun _ answer ha => hevaluation.trans (hskip answer ha)
  built := hbuilt
  closing := fun batch hb => ⟨hstatus, hopen batch hb⟩
  releasing := fun handle hr => absurd hr (hparts handle)
  owner := fun hd => absurd (hstatus.symm.trans hd) nofun

/-- What an update does to the life of a workspace. -/
theorem Receives.lawful {p : Passage} (h : w.Regular) (hp : w.Receives setup env session u p) :
    Passage.Lawful w (.update u) p := by
  have evaluation : (w.enroll setup u).1.evaluation = w.evaluation := enroll_evaluation u
  have built : (w.enroll setup u).1.buildIntegrated = w.buildIntegrated := enroll_buildIntegrated u
  have still {P : Prop} (hb : (w.enroll setup u).1.buildIntegrated = true) : w.buildIntegrated = true ∨ P :=
    .inl (built.symm.trans hb)
  cases hp with
  | refused ha => exact h.idle nofun
  | uncreated ha hu hc hf =>
    obtain ⟨hregular, hstatus, hleads⟩ := h.enroll setup ha u
    have hpending := h.pending ha hc
    have hcontext : (w.enroll setup u).1.context = none := (enroll_context u).trans hc
    have hbuilt : w.buildIntegrated ≠ true := fun hb => absurd (hpending.symm.trans (h.built hb)) nofun
    constructor
    case regular =>
      constructor
      case held =>
        intro ha
        have := hregular.held ha
        rw [evaluation, hpending] at this
        cases this
      case nameless => exact fun _ _ => hregular.nameless hcontext (by rw [hstatus]; nofun)
      all_goals simp [hc, built, hbuilt]
    case status => exact hleads.tail .fails
    case evaluation => exact .inr (.inl ⟨hpending, rfl⟩)
    case built => exact still
    all_goals nofun
  | @creates e session' handle events ha hu hc hs =>
    obtain ⟨hregular, hstatus, -⟩ := h.enroll setup ha u
    have hname : (w.enroll setup u).1.contextId = none :=
      hregular.nameless ((enroll_context u).trans hc) (by rw [hstatus]; nofun)
    refine Regular.lawful ha ?_ hstatus evaluation (fun _ _ => rfl) nofun nofun still
    constructor
    case uninitialized => exact fun hn => absurd (hstatus.symm.trans hn) nofun
    case failed => exact fun hn => absurd (hstatus.symm.trans hn) nofun
    case disposed => exact fun hn => absurd (hstatus.symm.trans hn) nofun
    case integrated => exact fun _ => .inl ⟨hstatus, rfl⟩
    case barred => exact hregular.barred
    case held => exact hregular.held
    case built => exact hregular.built
    case identity =>
      rintro _ ⟨⟩
      show (w.enroll setup u).1.contextId.or (some handle.id) = some handle.id
      rw [hname]
      rfl
    case nameless => nofun
  | skips ha hu hc hk =>
    obtain ⟨hregular, hstatus, -⟩ := h.enroll setup ha u
    exact Regular.lawful ha hregular hstatus evaluation nofun nofun
      (fun _ _ => h.held (by rw [hk.activity]; rfl)) still
  | applies ha hu hc =>
    obtain ⟨hregular, hstatus, -⟩ := h.enroll setup ha u
    exact Regular.lawful ha (hregular.rehandle hstatus ((enroll_context u).trans hc) rfl rfl) hstatus evaluation
      (fun _ _ => rfl) nofun nofun still
  | skipsBuild ha hu hk =>
    obtain ⟨hregular, hstatus, -⟩ := h.enroll setup ha u
    have hintegrated : w.evaluation = .integrated := h.held (by rw [hk.activity]; rfl)
    refine Regular.lawful ha ?_ hstatus evaluation nofun nofun (fun _ _ => hintegrated)
      fun _ => .inr ⟨by simp [Request.isBuild, Update.kind, hu], _, rfl⟩
    exact
      { hregular with
        uninitialized := fun hn => absurd (hstatus.symm.trans hn) nofun
        built := fun _ => evaluation.trans hintegrated }
  | misses ha hu hc =>
    obtain ⟨hregular, hstatus, -⟩ := h.enroll setup ha u
    exact Regular.lawful ha hregular hstatus evaluation nofun nofun nofun still
  | appliesBuild ha hu hc =>
    obtain ⟨hregular, hstatus, -⟩ := h.enroll setup ha u
    exact Regular.lawful ha (hregular.rehandle hstatus ((enroll_context u).trans hc) rfl rfl) hstatus evaluation
      (fun _ _ => rfl) nofun nofun still

theorem beginDispose_lawful (h : w.Regular) (session : Session) (cause : DisposeCause) :
    Passage.Lawful w (.dispose cause) (w.beginDispose session) := by
  -- a workspace that is torn down keeps its signals, and what it holds is of no more account
  have torn (owner : Option String) : Regular { w with status := .disposed, owner, context := none } :=
    { uninitialized := nofun
      failed := nofun
      disposed := fun _ => rfl
      integrated := fun _ => .inr rfl
      barred := fun _ => .inr rfl
      held := h.held
      built := h.built
      identity := nofun
      nameless := fun _ hd => absurd rfl hd }
  unfold beginDispose
  split
  · exact h.idle nofun
  · split
    · rename_i handle hc
      exact ⟨torn w.owner, w.status.leads_disposed, .inl rfl, nofun, .inl, nofun, fun _ _ => rfl,
        fun _ => .inr (.inr ⟨handle, rfl⟩)⟩
    · rename_i hc
      refine ⟨?_, w.status.leads_disposed, .inl rfl, nofun, .inl, nofun, nofun, fun _ => .inl rfl⟩
      have := torn none
      rwa [← hc] at this

theorem beginWrite_lawful (h : w.Regular) (session : Session) (mutations : List Mutation) :
    Passage.Lawful w (.write mutations) (w.beginWrite session mutations) := by
  unfold beginWrite
  split
  · exact h.idle nofun
  · rename_i ha
    split
    · exact h.idle nofun
    · rename_i handle hc
      have hintegrates : w.status = .initialized := by
        rcases admits_eq_ok_iff.1 ha with hs | hs
        · exact absurd (hc.symm.trans (h.uninitialized hs).2.1) nofun
        · exact hs
      exact Regular.lawful ha h hintegrates rfl (fun _ _ => by simp [hc]) nofun nofun .inl

/-- Every request that gets the lock keeps to the life of the workspace. -/
theorem Regular.passage (h : w.Regular) (setup : Setup) (env : Environment) (session : Session)
    (request : Request) : Passage.Lawful w request (request.passage setup env session w) := by
  cases request with
  | update u => exact (receives u).lawful h
  | write mutations => exact beginWrite_lawful h session mutations
  | dispose cause => exact beginDispose_lawful h session cause
  | status | whenEvaluation | whenBuild => exact h.idle nofun

/-- An evaluation that ends well without a batch is not the first to do so. -/
theorem Regular.integrated_of_skip (h : w.Regular) {request : Request} (hr : request.isEvaluation = true)
    {answer : Answer} (hp : (request.passage setup env session w).held = .finished (.ok answer)) :
    w.evaluation = .integrated := by
  cases request with
  | update u =>
    have hreceives : w.Receives setup env session u (w.receive setup env session u) := receives u
    change (w.receive setup env session u).held = _ at hp
    generalize w.receive setup env session u = p at hp hreceives
    cases hreceives with
    | skips _ _ _ hk => exact h.held (by rw [hk.activity]; rfl)
    | skipsBuild _ hu => simp [Request.isEvaluation, Update.kind, hu] at hr
    | _ => cases hp
  | _ => cases hr

/-- The closing of a batch keeps to the life of the workspace. -/
theorem Regular.close (h : w.Regular) (env : Environment) (session : Session) {request : Request}
    {batch : OpenBatch} (hs : w.status = .initialized) (hc : w.context.isSome)
    (hb : batch.commit.Suits request) (he : request.isBuild = true → w.evaluation = .integrated) :
    Passage.Lawful w request (w.close env session batch) := by
  have hfailed : w.evaluation ≠ .failed := by
    intro he
    rcases h.barred he with hd | hd <;> rw [hs] at hd <;> cases hd
  unfold Workspace.close
  dsimp only
  split
  · exact h.idle nofun
  · generalize hcommit : batch.commit = commit at hb
    cases commit with
    | evaluation versions rules items activity =>
      -- only an evaluation comes with such a commit
      have hr : request.isEvaluation = true := by
        cases request <;> try contradiction
        obtain ⟨e, hu⟩ := hb
        simp [Request.isEvaluation, Update.kind, hu]
      constructor
      case regular =>
        constructor
        case integrated => exact fun _ => .inl ⟨hs, hc⟩
        case identity => exact h.identity
        case nameless => exact h.nameless
        all_goals simp [commit, hs]
      case status => exact .refl _
      case evaluation => exact .inr (.inr ⟨hfailed, rfl, hr, _, rfl⟩)
      case evaluated => exact fun _ _ _ => rfl
      case built => exact .inl
      case owner => exact fun hd => absurd (hs.symm.trans hd) nofun
      all_goals nofun
    | build versions arguments activity =>
      have hr : request.isBuild = true ∧ request.isEvaluation = false := by
        cases request <;> try contradiction
        obtain ⟨b, hu⟩ := hb
        simp [Request.isBuild, Request.isEvaluation, Update.kind, hu]
      have hintegrated := he hr.1
      constructor
      case regular =>
        exact
          { h with
            uninitialized := fun hn => absurd (hs.symm.trans hn) nofun
            held := fun _ => hintegrated
            built := fun _ => hintegrated }
      case status => exact .refl _
      case evaluation => exact .inl rfl
      case evaluated => exact fun he => absurd (hr.2.symm.trans he) nofun
      case built => exact fun _ => .inr ⟨hr.1, _, rfl⟩
      case owner => exact fun hd => absurd (hs.symm.trans hd) nofun
      all_goals nofun
    | write id =>
      have hr : request.isEvaluation = false := by
        cases request <;> try contradiction
        rfl
      exact h.idle fun he => absurd (hr.symm.trans he) nofun

/-- The end of a release keeps to the life of the workspace. -/
theorem Regular.finishDispose (h : w.Regular) (session : Session) (handle : ContextHandle) (cause : DisposeCause)
    (hs : w.status = .disposed) : Passage.Lawful w (.dispose cause) (w.finishDispose session handle) :=
  ⟨{ h with uninitialized := fun hu => absurd (hs.symm.trans hu) nofun }, .refl _, .inl rfl, nofun, .inl, nofun, nofun,
    fun _ => .inl rfl⟩

end Workspace

namespace Call

/-- The end of a passage changes nothing but the lock. -/
theorem conclude_workspace (setup : Setup) (c : Call) (p : Passage) :
    ∃ lock, (c.conclude setup p).workspace = { p.workspace with lock } := by
  unfold conclude
  cases p.held with
  | finished result => exact ⟨_, rfl⟩
  | closing batch => exact ⟨p.workspace.lock, rfl⟩
  | releasing handle => exact ⟨p.workspace.lock, rfl⟩

/-- A call ends with the passage that finishes. -/
theorem mem_endings_conclude {setup : Setup} {c : Call} {p : Passage} {i : Nat} {e : Ending} :
    e ∈ (c.conclude setup p).endings i c.request ↔
      ∃ result, p.held = .finished result ∧ e = ⟨i, c.request, result⟩ := by
  unfold conclude
  cases p.held <;> simp [Advance.endings]

end Call

/-! ## Scenes -/

namespace Scene

/-- The workspace, the calls on it and those that ended fit together. -/
structure Orderly (s : Scene) (past : List Ending) : Prop extends s.Lined where
  regular : s.workspace.Regular
  closing : ∀ {me c batch}, s.calls me = some c → c.phase = .closing batch →
    s.workspace.status = .initialized ∧ s.workspace.context.isSome
  releasing : ∀ {me c handle}, s.calls me = some c → c.phase = .releasing handle →
    s.workspace.status = .disposed
  /-- After teardown progress is not followed any more. -/
  owner : s.workspace.status = .disposed →
    s.workspace.owner = none ∨ ∃ me c handle, s.calls me = some c ∧ c.phase = .releasing handle
  /-- What waits for the first evaluation does not get by without it. -/
  awaited : ∀ {me c}, s.calls me = some c → c.request.awaits = true → c.phase ≠ .awaitingEvaluation →
    s.workspace.evaluation = .integrated
  evaluated : s.workspace.evaluation = .integrated ↔
    ∃ e ∈ past, e.request.isEvaluation = true ∧ ∃ answer, e.result = .ok answer
  built : s.workspace.buildIntegrated = true →
    ∃ e ∈ past, e.request.isBuild = true ∧ ∃ answer, e.result = .ok answer

variable {t : Terms} {i : Nat} {s s' : Scene} {past ended : List Ending}

theorem orderly_fresh (h : s.Fresh) (hpast : ∀ e ∈ past, ∃ error, e.result = .error error) : s.Orderly past := by
  obtain ⟨slice, hslice⟩ := h.workspace
  have started {me : JobId} {c : Call} (hc : s.calls me = some c) : c.phase.holds = false := by
    obtain ⟨request, rfl⟩ := h.calls me c hc
    exact Call.start_holds request
  constructor
  case toLined => exact lined_fresh h
  case regular => exact hslice ▸ Workspace.regular_new slice
  case closing => exact fun hc hp => absurd (started hc) (by simp [hp, Phase.holds])
  case releasing => exact fun hc hp => absurd (started hc) (by simp [hp, Phase.holds])
  case owner => exact fun _ => .inl (by rw [hslice])
  case awaited =>
    intro me c hc hr hp
    obtain ⟨request, rfl⟩ := h.calls me c hc
    cases request with
    | update u => cases hu : u.payload <;> simp [Call.start, hu, Request.awaits] at hr hp
    | _ => simp [Call.start, Request.awaits] at hr hp
  case evaluated =>
    rw [hslice]
    refine iff_of_false (by rintro ⟨⟩) ?_
    rintro ⟨e, he, -, answer, ha⟩
    obtain ⟨error, herror⟩ := hpast e he
    cases herror.symm.trans ha
  case built =>
    rw [hslice]
    rintro ⟨⟩

/-- A call that begins is not under the lock, and those under it are the ones before. -/
theorem calls_begin {me : JobId} {request : Request} (hc : s.calls me = none) {job : JobId} {c : Call}
    (hp : c.phase.holds = true) :
    Function.update s.calls me (some (.start request)) job = some c ↔ s.calls job = some c := by
  by_cases hme : job = me
  · subst hme
    rw [Function.update_self, hc]
    refine iff_of_false ?_ nofun
    rintro ⟨⟩
    simp [Call.start_holds] at hp
  · rw [Function.update_of_ne hme]

/-- A step outside the lock leaves those under it where they were. -/
theorem after_calls_of_quiet {me : JobId} {c : Call} {a : Advance} (hc : s.calls me = some c)
    (hgo : ∀ c', a.progress = .going c' → c' = c ∨ c.phase.holds = false ∧ c'.phase.holds = false)
    (hdone : ∀ result, a.progress = .done result → c.phase.holds = false) {job : JobId} {c' : Call}
    (hp : c'.phase.holds = true) : (s.after me a).calls job = some c' ↔ s.calls job = some c' := by
  by_cases hjob : job = me
  · subst hjob
    rw [after_calls_self, hc]
    constructor
    · intro hgoing
      rcases hgo c' hgoing with rfl | ⟨-, hp'⟩
      · rfl
      · simp [hp] at hp'
    · rintro ⟨⟩
      cases ha : a.progress with
      | going c' =>
        rcases hgo c' ha with rfl | ⟨hp', -⟩
        · rfl
        · simp [hp] at hp'
      | done result => simp [hdone result ha] at hp
  · rw [after_calls_of_ne _ _ hjob]

/-- A step that leaves everything but lock and token to others. -/
theorem Orderly.quiet (h : s.Orderly past) {me : JobId} {c : Call} {a : Advance} (hc : s.calls me = some c)
    (hl : (s.after me a).Lined) (hw : ∃ lock unload, a.workspace = { s.workspace with lock, unload })
    (hgo : ∀ c', a.progress = .going c' → c' = c ∨ c.phase.holds = false ∧ c'.phase.holds = false ∧
      (c'.request.awaits = true → s.workspace.evaluation = .integrated))
    (hdone : ∀ result, a.progress = .done result → c.phase.holds = false ∧ ∀ answer, result = .ok answer →
      c.request.isEvaluation = false ∧ c.request.isBuild = false) :
    (s.after me a).Orderly (past ++ a.endings i c.request) := by
  obtain ⟨lock, unload, hw⟩ := hw
  have hworkspace : (s.after me a).workspace = { s.workspace with lock, unload } := hw
  have under {job : JobId} {c' : Call} (hp : c'.phase.holds = true) :
      (s.after me a).calls job = some c' ↔ s.calls job = some c' :=
    after_calls_of_quiet hc (fun c' hgoing => (hgo c' hgoing).imp_right fun h => ⟨h.1, h.2.1⟩)
      (fun result hresult => (hdone result hresult).1) hp
  have hends : ∀ e ∈ a.endings i c.request, ∀ answer, e.result = .ok answer →
      e.request.isEvaluation = false ∧ e.request.isBuild = false := by
    intro e he answer hanswer
    obtain ⟨result, hresult, rfl⟩ := Advance.mem_endings_iff.1 he
    exact (hdone result hresult).2 answer hanswer
  constructor
  case toLined => exact hl
  case regular => exact hworkspace ▸ h.regular.with_lock lock unload
  case closing =>
    intro job c' batch hjob hp
    rw [hworkspace]
    exact h.closing ((under (by simp [hp, Phase.holds])).1 hjob) hp
  case releasing =>
    intro job c' handle hjob hp
    rw [hworkspace]
    exact h.releasing ((under (by simp [hp, Phase.holds])).1 hjob) hp
  case owner =>
    intro hd
    rw [hworkspace] at hd ⊢
    refine (h.owner hd).imp_right ?_
    rintro ⟨job, c', handle, hjob, hp⟩
    exact ⟨job, c', handle, (under (by simp [hp, Phase.holds])).2 hjob, hp⟩
  case awaited =>
    intro job c' hjob hr hp
    rw [hworkspace]
    by_cases hme : job = me
    · subst hme
      rcases hgo c' (after_calls_self.1 hjob) with rfl | ⟨-, -, he⟩
      · exact h.awaited hc hr hp
      · exact he hr
    · rw [after_calls_of_ne _ _ hme] at hjob
      exact h.awaited hjob hr hp
  case evaluated =>
    rw [hworkspace]
    refine h.evaluated.trans ⟨?_, ?_⟩
    · rintro ⟨e, he, hr⟩
      exact ⟨e, List.mem_append_left _ he, hr⟩
    · rintro ⟨e, he, hr, answer, hanswer⟩
      rcases List.mem_append.1 he with he | he
      · exact ⟨e, he, hr, answer, hanswer⟩
      · simp [(hends e he answer hanswer).1] at hr
  case built =>
    rw [hworkspace]
    intro hb
    obtain ⟨e, he, hr⟩ := h.built hb
    exact ⟨e, List.mem_append_left _ he, hr⟩

/-- A passage under the lock, or the end of one. -/
theorem Orderly.conclude (h : s.Orderly past) {setup : Setup} {me : JobId} {c : Call} {p : Passage} {lock : Lock}
    {unload : UnloadToken} (hc : s.calls me = some c) (hl : (s.after me (c.conclude setup p)).Lined)
    (hme : ∀ {job c'}, s.calls job = some c' → c'.phase.holds = true → job = me)
    (hp : p.Lawful { s.workspace with lock, unload } c.request)
    (hr : c.request.awaits = true → c.phase ≠ .awaitingEvaluation)
    (ho : ∀ handle, c.phase = .releasing handle → p.workspace.owner = none) :
    (s.after me (c.conclude setup p)).Orderly (past ++ (c.conclude setup p).endings i c.request) := by
  have hworkspace : ∃ lock, (s.after me (c.conclude setup p)).workspace = { p.workspace with lock } :=
    Call.conclude_workspace ..
  have hends (e : Ending) : e ∈ (c.conclude setup p).endings i c.request ↔ _ := Call.mem_endings_conclude
  have hgoing {job : JobId} {c' : Call} (hjob : (s.after me (c.conclude setup p)).calls job = some c')
      (hholds : c'.phase.holds = true) : c'.request = c.request ∧
        ((∃ batch, p.held = .closing batch ∧ c'.phase = .closing batch) ∨
          ∃ handle, p.held = .releasing handle ∧ c'.phase = .releasing handle) := by
    by_cases hme' : job = me
    · subst hme'
      exact (Call.conclude_going (after_calls_self.1 hjob)).2
    · rw [after_calls_of_ne _ _ hme'] at hjob
      exact absurd (hme hjob hholds) hme'
  -- the signal stays integrated once it is
  have hstays : s.workspace.evaluation = .integrated → p.workspace.evaluation = .integrated := by
    intro he
    rcases hp.evaluation with hsame | ⟨hpending, -⟩ | ⟨-, hnow, -⟩
    · exact hsame.trans he
    · cases he.symm.trans hpending
    · exact hnow
  obtain ⟨last, hworkspace⟩ := hworkspace
  constructor
  case toLined => exact hl
  case regular => exact hworkspace ▸ hp.regular.with_lock last p.workspace.unload
  case closing =>
    intro job c' batch hjob hphase
    rw [hworkspace]
    obtain ⟨-, ⟨batch', hheld, -⟩ | ⟨handle, -, hphase'⟩⟩ := hgoing hjob (by simp [hphase, Phase.holds])
    · exact hp.closing batch' hheld
    · cases hphase.symm.trans hphase'
  case releasing =>
    intro job c' handle hjob hphase
    rw [hworkspace]
    obtain ⟨-, ⟨batch', -, hphase'⟩ | ⟨handle', hheld, -⟩⟩ := hgoing hjob (by simp [hphase, Phase.holds])
    · cases hphase.symm.trans hphase'
    · exact hp.releasing handle' hheld
  case owner =>
    rw [hworkspace]
    intro hd
    rcases hp.owner hd with hnone | ⟨hbefore, hsame⟩ | ⟨handle, hheld⟩
    · exact .inl hnone
    · rcases h.owner hbefore with hnone | ⟨job, c', handle, hjob, hphase⟩
      · exact .inl (hsame.trans hnone)
      · obtain rfl := hme hjob (by simp [hphase, Phase.holds])
        cases hc.symm.trans hjob
        exact .inl (ho handle hphase)
    · refine .inr ⟨me, { c with phase := .releasing handle }, handle, ?_, rfl⟩
      rw [after_calls_self, Call.conclude, hheld]
  case awaited =>
    intro job c' hjob hawaits hphase
    rw [hworkspace]
    refine hstays ?_
    by_cases hme' : job = me
    · subst hme'
      obtain ⟨-, hrequest, -⟩ := Call.conclude_going (after_calls_self.1 hjob)
      rw [hrequest] at hawaits
      exact h.awaited hc hawaits (hr hawaits)
    · rw [after_calls_of_ne _ _ hme'] at hjob
      exact h.awaited hjob hawaits hphase
  case evaluated =>
    rw [hworkspace]
    constructor
    · intro he
      rcases hp.evaluation with hsame | ⟨-, hfailed⟩ | ⟨-, -, hkind, answer, hheld⟩
      · obtain ⟨e, hmem, hok⟩ := h.evaluated.1 (hsame.symm.trans he)
        exact ⟨e, List.mem_append_left _ hmem, hok⟩
      · cases he.symm.trans hfailed
      · exact ⟨_, List.mem_append_right _ ((hends _).2 ⟨_, hheld, rfl⟩), hkind, answer, rfl⟩
    · rintro ⟨e, hmem, hkind, answer, hok⟩
      rcases List.mem_append.1 hmem with hmem | hmem
      · exact hstays (h.evaluated.2 ⟨e, hmem, hkind, answer, hok⟩)
      · obtain ⟨result, hheld, rfl⟩ := (hends e).1 hmem
        exact hp.evaluated hkind answer (by rw [hheld]; exact congrArg Held.finished hok)
  case built =>
    rw [hworkspace]
    intro hb
    rcases hp.built hb with hbefore | ⟨hkind, answer, hheld⟩
    · obtain ⟨e, hmem, hok⟩ := h.built hbefore
      exact ⟨e, List.mem_append_left _ hmem, hok⟩
    · exact ⟨_, List.mem_append_right _ ((hends _).2 ⟨_, hheld, rfl⟩), hkind, answer, rfl⟩

/-- The ways a step of a call can concern the life of its workspace. -/
inductive Goes (t : Terms) (env : Environment) (s : Scene) (me : JobId) (c : Call) (session : Session) :
    Advance → Prop
  /-- It comes closer to the lock, waits on, or ends without it. -/
  | quiet {a : Advance} (hs : a.session = session)
      (hw : ∃ lock unload, a.workspace = { s.workspace with lock, unload })
      (he : ∀ e ∈ a.events, ∃ error severity, e = .fault error severity)
      (hgo : ∀ c', a.progress = .going c' → c' = c ∨ c.phase.holds = false ∧ c'.phase.holds = false ∧
        (c'.request.awaits = true → s.workspace.evaluation = .integrated))
      (hdone : ∀ result, a.progress = .done result → c.phase.holds = false ∧ ∀ answer, result = .ok answer →
        c.request.isEvaluation = false ∧ c.request.isBuild = false)
      (ho : ∀ answer, a.progress = .done (.ok answer) → answer = .done ∧ c.request.heeds = true) :
      Goes t env s me c session a
  /-- It has the lock, alone. -/
  | passes {p : Passage} (lock : Lock) (unload : UnloadToken)
      (hme : ∀ {job c'}, s.calls job = some c' → c'.phase.holds = true → job = me)
      (hp : p.Lawful { s.workspace with lock, unload } c.request)
      (hr : c.request.awaits = true → c.phase ≠ .awaitingEvaluation)
      (ho : ∀ handle, c.phase = .releasing handle → p.workspace.owner = none)
      (hk : c.phase.holds = false ∧
          p = c.request.passage t.setup env session { s.workspace with lock, unload } ∨
        (∃ batch, c.phase = .closing batch ∧ env.gateOpen = true ∧ p = s.workspace.close env session batch) ∨
        ∃ handle, c.phase = .releasing handle ∧ env.disposalOpen = true ∧
          p = s.workspace.finishDispose session handle) :
      Goes t env s me c session (c.conclude t.setup p)

theorem report_fault {setup : Setup} {c : Call} {result : Except SyncError Answer} {e : Event}
    (he : e ∈ c.report setup result) : ∃ error severity, e = .fault error severity := by
  unfold Call.report at he
  split at he
  · split at he
    · exact ⟨_, _, List.mem_singleton.1 he⟩
    · cases he
  · cases he

/-- With the lock free, or passed to a call in line, nobody waits under it. -/
theorem Lined.nobody_holds (h : s.Lined) {me : JobId} {c : Call} (hc : s.calls me = some c)
    (hp : c.phase.holds = false) (hl : s.workspace.lock.holder = none ∨ s.workspace.lock.holder = some me)
    {job : JobId} {c' : Call} (hjob : s.calls job = some c') : c'.phase.holds = false := by
  cases hp' : c'.phase.holds with
  | false => rfl
  | true =>
    have hholder := h.line.holds ⟨c', hjob, hp'⟩
    rw [hholder] at hl
    rcases hl with hl | hl
    · cases hl
    · cases hl
      cases hc.symm.trans hjob
      exact hp'.symm.trans hp

/-- Every step of a call concerns the life of its workspace in one of these ways. -/
theorem Orderly.goes (h : s.Orderly past) {env : Environment} {me : JobId} {c : Call} {session : Session}
    {a : Advance} (hc : s.calls me = some c) (ha : c.Paths t.setup env me session s.workspace a) :
    Goes t env s me c session a := by
  have alone {job : JobId} {c' : Call} (hp : c.phase.holds = true) (hjob : s.calls job = some c')
      (hp' : c'.phase.holds = true) : job = me := by
    have hholder := h.line.holds ⟨c, hc, hp⟩
    exact Option.some.inj ((h.line.holds ⟨c', hjob, hp'⟩).symm.trans hholder)
  -- before the lock only the questions for the signals are answered
  cases ha with
  | stays hs =>
    refine .quiet rfl ⟨_, _, rfl⟩ (fun e he => by cases he) (fun c' hgo => ?_) (by simp) (by simp)
    cases hgo
    exact .inl rfl
  | yields hr hp hu hl =>
    refine .quiet rfl ⟨_, _, rfl⟩ (fun e he => report_fault he) (fun c' hgo => by cases hgo)
      (fun result hresult => ?_) (fun answer ho => by cases ho)
    cases hresult
    exact ⟨hp, by simp⟩
  | despairs hp hu he =>
    refine .quiet rfl ⟨_, _, rfl⟩ (fun e he => report_fault he) (fun c' hgo => by cases hgo)
      (fun result hresult => ?_) (fun answer ho => by cases ho)
    cases hresult
    exact ⟨by rw [hp]; rfl, by simp⟩
  | learns hp hu hr =>
    refine .quiet rfl ⟨_, _, rfl⟩ (fun e he => report_fault he) (fun c' hgo => by cases hgo)
      (fun result hresult => ⟨hp.1, fun _ _ => ?_⟩)
      fun answer ho => ⟨by cases ho; rfl, by rcases hr with ⟨hr, -⟩ | ⟨hr, -⟩ <;> rw [hr] <;> rfl⟩
    rcases hr with ⟨hr, -⟩ | ⟨hr, -⟩ <;> rw [hr] <;> exact ⟨rfl, rfl⟩
  | passes hp hu he hr =>
    refine .quiet rfl ⟨_, _, rfl⟩ (fun e he => by cases he) (fun c' hgo => .inr ?_) (by simp) (by simp)
    cases hgo
    exact ⟨by rw [hp]; rfl, rfl, fun _ => he⟩
  | queues hp hl hu =>
    refine .quiet rfl ⟨_, _, rfl⟩ (fun e he => by cases he) (fun c' hgo => .inr ?_) (by simp) (by simp)
    cases hgo
    exact ⟨by rw [hp]; rfl, rfl, fun hawaits => h.awaited hc hawaits (by simp [hp])⟩
  | enters hp hl hu =>
    have holds : c.phase.holds = false := by rw [hp]; rfl
    refine .passes _ _ (fun hjob hp' => ?_) ((h.regular.with_lock _ _).passage t.setup env session c.request)
      (fun _ => by simp [hp]) (fun handle hr => by cases hp.symm.trans hr) (.inl ⟨holds, rfl⟩)
    exact absurd (h.nobody_holds hc holds (.inl hl) hjob) (by simp [hp'])
  | succeeds hp hl hu =>
    have holds : c.phase.holds = false := by rw [hp]; rfl
    refine .passes s.workspace.lock s.workspace.unload (fun hjob hp' => ?_)
      (h.regular.passage t.setup env session c.request)
      (fun _ => by simp [hp]) (fun handle hr => by cases hp.symm.trans hr) (.inl ⟨holds, rfl⟩)
    exact absurd (h.nobody_holds hc holds (.inr hl) hjob) (by simp [hp'])
  | closes hp hg =>
    obtain ⟨hstatus, hcontext⟩ := h.closing hc hp
    have hintegrated (hb : c.request.isBuild = true) : s.workspace.evaluation = .integrated := by
      refine h.awaited hc ?_ (by simp [hp])
      revert hb
      cases c.request with
      | update u =>
        cases hu : u.payload <;> simp [Request.isBuild, Request.awaits, Update.kind, hu]
      | _ => simp [Request.isBuild]
    exact .passes s.workspace.lock s.workspace.unload
      (fun hjob hp' => alone (by rw [hp]; rfl) hjob hp')
      (h.regular.close env session hstatus hcontext ((h.fit hc).closing hp) hintegrated)
      (fun _ => by simp [hp]) (fun handle hr => by cases hp.symm.trans hr)
      (.inr (.inl ⟨_, hp, hg, rfl⟩))
  | parts hp hd =>
    obtain ⟨cause, hr⟩ := (h.fit hc).releasing hp
    exact .passes s.workspace.lock s.workspace.unload
      (fun hjob hp' => alone (by rw [hp]; rfl) hjob hp')
      (hr ▸ h.regular.finishDispose session _ cause (h.releasing hc hp))
      (fun _ => by simp [hp]) (fun _ _ => rfl) (.inr (.inr ⟨_, hp, hd, rfl⟩))

/-- Every step keeps workspace and calls in order. -/
theorem Orderly.step (h : s.Orderly past) (hs : Step t i s s' ended) : s'.Orderly (past ++ ended) := by
  have hl := h.toLined.step hs
  cases hs with
  | rests => exact (List.append_nil past).symm ▸ h
  | unloads cause =>
    rw [List.append_nil]
    exact ⟨hl, h.regular.with_lock _ _, h.closing, h.releasing, h.owner, h.awaited, h.evaluated, h.built⟩
  | @begins me request hc hr =>
    rw [List.append_nil]
    constructor
    case toLined => exact hl
    case regular => exact h.regular
    case closing => exact fun hjob hp => h.closing ((calls_begin hc (by rw [hp]; rfl)).1 hjob) hp
    case releasing => exact fun hjob hp => h.releasing ((calls_begin hc (by rw [hp]; rfl)).1 hjob) hp
    case owner =>
      intro hd
      refine (h.owner hd).imp_right ?_
      rintro ⟨job, c, handle, hjob, hp⟩
      exact ⟨job, c, handle, (calls_begin hc (by rw [hp]; rfl)).2 hjob, hp⟩
    case awaited =>
      intro job c hjob hawaits hphase
      change Function.update s.calls me _ job = _ at hjob
      by_cases hme : job = me
      · subst hme
        rw [Function.update_self] at hjob
        cases hjob
        -- who waits for the first evaluation begins by waiting for it
        cases request with
        | update u => cases hu : u.payload <;> simp [Call.start, hu, Request.awaits] at hawaits hphase
        | _ => simp [Call.start, Request.awaits] at hawaits hphase
      · rw [Function.update_of_ne hme] at hjob
        exact h.awaited hjob hawaits hphase
    case evaluated => exact h.evaluated
    case built => exact h.built
  | @goes env me c session he hc =>
    have hgoes := h.goes (t := t) hc (Call.paths t.setup env me session s.workspace (h.fit hc))
    generalize c.advance t.setup env me session s.workspace = a at hl hgoes ⊢
    cases hgoes with
    | quiet _ hw he hgo hdone _ => exact h.quiet hc hl hw hgo hdone
    | passes lock unload hme hp hr ho hk => exact h.conclude hc hl hme hp hr ho

end Scene

end SliceSync
