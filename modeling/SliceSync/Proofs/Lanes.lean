import SliceSync.Proofs.Schedules
/-!
# Lanes

When a scenario is replayed, each script has a lane: a sender with its updates, a pair of streams, a driver and a
workspace, and nobody else touches these. What the lane has come to is read off an `Outlook`, and wherever the lane
stands its updates have been lost nowhere (`Lane.Follows`): what has been handed over, what the holdback keeps, what is
queued and what is yet to be sent are the updates of the script, those of each kind in their order.
-/

namespace SliceSync

/-! ## What is told, and what is created -/

namespace Event

/-- The owners for whom updates were told to be processed, in order. -/
def tellings (l : List Event) : List String :=
  l.filterMap fun e =>
    match e with
    | .processed owner _ => some owner
    | _ => none

/-- The contexts that were created, in order. -/
def creations (l : List Event) : List (Nat × CreationParams) :=
  l.filterMap fun e =>
    match e with
    | .created serial params => some (serial, params)
    | _ => none

variable {n : Nat} {l : List Event}

@[simp] theorem tellings_nil : tellings [] = [] := rfl

@[simp] theorem creations_nil : creations [] = [] := rfl

@[simp] theorem tellings_append (l m : List Event) : tellings (l ++ m) = tellings l ++ tellings m := List.filterMap_append

@[simp] theorem creations_append (l m : List Event) : creations (l ++ m) = creations l ++ creations m :=
  List.filterMap_append

@[simp] theorem tellings_context_cons (call : ContextCall) : tellings (.context n call :: l) = tellings l := rfl

@[simp] theorem creations_context_cons (call : ContextCall) : creations (.context n call :: l) = creations l := rfl

@[simp] theorem tellings_registered_cons (owner : String) : tellings (.registered owner :: l) = tellings l := rfl

@[simp] theorem creations_registered_cons (owner : String) : creations (.registered owner :: l) = creations l := rfl

@[simp] theorem tellings_created_cons (params : CreationParams) : tellings (.created n params :: l) = tellings l := rfl

@[simp] theorem creations_created_cons (params : CreationParams) :
    creations (.created n params :: l) = (n, params) :: creations l := rfl

@[simp] theorem tellings_fault_cons (error : SyncError) (severity : Severity) :
    tellings (.fault error severity :: l) = tellings l := rfl

@[simp] theorem creations_fault_cons (error : SyncError) (severity : Severity) :
    creations (.fault error severity :: l) = creations l := rfl

@[simp] theorem tellings_effects (effects : List Effect) : tellings (effects.map (Effect.event n)) = [] := by
  refine List.filterMap_eq_nil_iff.2 fun e he => ?_
  obtain ⟨effect, -, rfl⟩ := List.mem_map.1 he
  cases effect <;> rfl

@[simp] theorem creations_effects (effects : List Effect) : creations (effects.map (Effect.event n)) = [] := by
  refine List.filterMap_eq_nil_iff.2 fun e he => ?_
  obtain ⟨effect, -, rfl⟩ := List.mem_map.1 he
  cases effect <;> rfl

end Event

open Event (tellings creations)

theorem Workspace.tellings_tell (w : Workspace) (versions : Versions) : tellings (w.tell versions) = w.owner.toList := by
  unfold tell
  cases w.owner <;> rfl

theorem Workspace.creations_tell (w : Workspace) (versions : Versions) : creations (w.tell versions) = [] := by
  unfold tell
  cases w.owner <;> rfl

/-- Nothing is told or created while a batch is opened. -/
theorem Workspace.openEvaluation_silent (setup : Setup) (env : Environment) (session : Session) (w : Workspace)
    (handle : ContextHandle) (fresh : Bool) (versions : Versions) (e : Evaluation) :
    tellings (openEvaluation setup env session w handle fresh versions e).events = [] ∧
      creations (openEvaluation setup env session w handle fresh versions e).events = [] := by
  cases fresh <;> simp [openEvaluation]

theorem Workspace.openBuild_silent (env : Environment) (session : Session) (w : Workspace) (handle : ContextHandle)
    (versions : Versions) (b : Build) : tellings (openBuild env session w handle versions b).events = [] ∧
      creations (openBuild env session w handle versions b).events = [] := by
  simp [openBuild]

/-- How often updates were told to be processed is counted in what was told. -/
theorem World.processedFor_eq (w : World) (owner : String) : w.processedFor owner = (tellings w.events).count owner := by
  unfold processedFor tellings
  rw [List.count_eq_countP, List.countP_filterMap]
  refine List.countP_congr fun e _ => ?_
  cases e <;> simp

/-- A context is summed up from its last creation. -/
theorem ContextSummary.ofEvents?_eq (events : List Event) (id : ContextId) :
    ofEvents? events id = ((creations events).filter (·.2.id = id)).getLast?.map fun c =>
      ofCalls c.2 (Event.callsOf c.1 events) := by
  unfold ofEvents? creations
  dsimp only
  rw [List.filter_filterMap]
  congr 2
  refine List.filterMap_congr fun e _ => ?_
  cases e with
  | created serial params =>
    by_cases h : params.id = id <;> simp [h, Option.filter]
  | _ => rfl

/-! ## First evaluations -/

/-- What an update says as an evaluation. -/
def Update.evaluation? (u : Update) : Option Evaluation :=
  match u.payload with
  | .evaluation e => some e
  | .build _ => none

/-- The first evaluation among some updates. -/
def firstEvaluation? (updates : List Update) : Option Evaluation := updates.findSome? Update.evaluation?

theorem Update.evaluation?_eq_none_iff {u : Update} : u.evaluation? = none ↔ u.kind = .build := by
  unfold evaluation? kind
  cases u.payload <;> simp

theorem firstEvaluation?_eq_none_iff {updates : List Update} :
    firstEvaluation? updates = none ↔ updates.filter (·.kind = .evaluation) = [] := by
  unfold firstEvaluation?
  rw [List.findSome?_eq_none_iff, List.filter_eq_nil_iff]
  refine forall₂_congr fun u _ => ?_
  rw [Update.evaluation?_eq_none_iff]
  cases u.kind <;> simp

/-- The first evaluation is the first of the evaluations. -/
theorem firstEvaluation?_of_filter {updates rest : List Update} {u : Update}
    (h : updates.filter (·.kind = .evaluation) = u :: rest) : firstEvaluation? updates = u.evaluation? := by
  induction updates with
  | nil => cases h
  | cons v updates ih =>
    unfold firstEvaluation? at ih ⊢
    rw [List.findSome?_cons]
    cases hv : v.kind with
    | evaluation =>
      rw [List.filter_cons_of_pos (by simpa using hv)] at h
      cases h
      cases hp : u.payload with
      | evaluation e => simp [Update.evaluation?, hp]
      | build b => simp [Update.kind, hp] at hv
    | build =>
      rw [List.filter_cons_of_neg (by simp [hv])] at h
      rw [Update.evaluation?_eq_none_iff.2 hv]
      exact ih h

/-! ## Workspaces in lanes -/

/-- A script whose slice is hosted. -/
structure Lane where
  /-- The place of its workspace, and of its pair of streams. -/
  place : Nat
  /-- The number of the job that sends its updates. -/
  sender : JobId
  project : Project
  updates : List Update

namespace Lane

/-- The number of its driver: drivers begin right after the call that makes the workspaces, in their order. -/
def driver (l : Lane) : JobId := l.place + 1

/-- The owner for whom its updates are told to be processed. -/
def tag (l : Lane) : String := l.project.ownerTag

/-- What its context is to be created with. -/
def params? (l : Lane) : Option CreationParams := (firstEvaluation? l.updates).bind (·.creationParams.toOption)

def contextId? (l : Lane) : Option ContextId := l.params?.map (·.id)

/-- A workspace that has its context, with the standard handlers; of that id no other was made. -/
def HasContext (l : Lane) (made : List (Nat × CreationParams)) (ws : Workspace) : Prop :=
  ∃ handle k params, ws.context = some handle ∧ handle.handlers = .standard k ∧ handle.id = params.id ∧
    ws.contextId = some params.id ∧ l.params? = some params ∧ made = [(handle.serial, params)]

/-- A workspace that has its context and has integrated every update handed over. -/
structure Serves (l : Lane) (made : List (Nat × CreationParams)) (ws : Workspace) (handled : List Update) : Prop where
  opened : ws.Open
  owner : ws.owner = some l.tag
  context : l.HasContext made ws
  built : ws.buildIntegrated = handled.any (·.kind = .build)
  begun : handled ≠ []

/-- A workspace that waits to close the batch of an update, and will have integrated it then. -/
structure Closes (l : Lane) (made : List (Nat × CreationParams)) (ws : Workspace) (handled : List Update) (u : Update)
    (batch : OpenBatch) : Prop where
  lock : ws.lock = ⟨some l.driver, []⟩
  failure : batch.failure = none
  serves : l.Serves made { (ws.commit batch.commit).1 with lock := {} } (handled ++ [u])
  tells : tellings (ws.commit batch.commit).2.1 = [l.tag]
  creates : creations (ws.commit batch.commit).2.1 = []
  answer : (ws.commit batch.commit).2.2 = .done

end Lane

/-- A workspace that could not get its context, with nobody at it. -/
structure Workspace.Stopped (w : Workspace) : Prop where
  lock : w.lock = {}
  evaluation : w.evaluation = .failed
  built : w.buildIntegrated = false
  context : w.context = none
  contextId : w.contextId = none

/-- The workspace while a job has its lock. -/
def Workspace.heldBy (w : Workspace) (me : JobId) : Workspace := { w with lock := ⟨some me, []⟩ }

theorem Call.advance_of_free {setup : Setup} {env : Environment} {session : Session} {w : Workspace} (h : w.Free)
    (me : JobId) (u : Update) : Call.advance setup env me ⟨.update u, .entering⟩ session w =
      Call.conclude setup ⟨.update u, .entering⟩ ((w.heldBy me).receive setup env session u) := by
  simp only [Call.advance, Call.cutShort, h.unload, Call.askLock, h.lock, Lock.request, Option.isNone_none, if_true]
  rfl

namespace Lane

variable {l : Lane} {setup : Setup} {env : Environment} {session : Session} {ws : Workspace} {u : Update} {e : Evaluation}
  {made : List (Nat × CreationParams)} {handled : List Update} {me : JobId} {slice : Slice}

theorem heldBy_enroll (ht : setup.tracksProgress = true) (slice : Slice) (me : JobId) (u : Update) :
    (({ slice } : Workspace).heldBy me).enroll setup u =
      ({ ({ slice } : Workspace).heldBy me with status := .initialized, owner := some u.project.ownerTag },
        [.registered u.project.ownerTag]) := by
  simp [Workspace.enroll, Workspace.heldBy, ht]

/-- Where the first evaluation does not tell what a context needs, nothing comes of it. -/
theorem receive_refused {error : SyncError} (ht : setup.tracksProgress = true) (hu : u.payload = .evaluation e)
    (he : e.creationParams = .error error) :
    (({ slice } : Workspace).heldBy me).receive setup env session u =
      ⟨session,
        { ({ slice } : Workspace).heldBy me with
          status := .failed, owner := some u.project.ownerTag, evaluation := .failed },
        [.registered u.project.ownerTag], .finished (.error error)⟩ := by
  have hadmits : (({ slice } : Workspace).heldBy me).admits = .ok () := rfl
  have hcreate : session.create env setup.registry e = .error error := by simp [Session.create, he]
  rw [Workspace.receive_of_admits hadmits, heldBy_enroll ht, hu]
  dsimp only
  rw [Workspace.receiveEvaluation_error rfl hcreate]
  rfl

/-- Closing the batch of an update is all that is left of it. -/
theorem closes_of_failure_none {batch : OpenBatch} (hlock : ws.lock = ⟨some l.driver, []⟩)
    (hunload : ws.unload.cause = none) (hstatus : ws.status = .initialized) (howner : ws.owner = some l.tag)
    (hcontext : l.HasContext made ws) (hfailure : batch.failure = none)
    (hcommit : (∃ versions rules items activity, batch.commit = .evaluation versions rules items activity) ∧
        ws.buildIntegrated = (handled ++ [u]).any (·.kind = .build) ∨
      (∃ versions arguments activity, batch.commit = .build versions arguments activity) ∧ ws.evaluation = .integrated ∧
        u.kind = .build) : l.Closes made ws handled u batch := by
  obtain ⟨handle, k, params, hc, hrest⟩ := hcontext
  have htells (versions : Versions) : tellings (ws.tell versions) = [l.tag] := by
    rw [Workspace.tellings_tell, howner]
    rfl
  rcases hcommit with ⟨⟨versions, rules, items, activity, hcommit⟩, hbuilt⟩ |
    ⟨⟨versions, arguments, activity, hcommit⟩, he, hu⟩
  · refine ⟨hlock, hfailure, ?_, ?_, ?_, ?_⟩ <;> rw [hcommit]
    · exact ⟨⟨⟨rfl, hunload⟩, hstatus, rfl⟩, howner, ⟨handle, k, params, hc, hrest⟩, hbuilt, by simp⟩
    · exact htells versions
    · exact Workspace.creations_tell ws versions
    · rfl
  · refine ⟨hlock, hfailure, ?_, ?_, ?_, ?_⟩ <;> rw [hcommit]
    · exact ⟨⟨⟨rfl, hunload⟩, hstatus, he⟩, howner, ⟨handle, k, params, hc, hrest⟩,
        by simp [Workspace.commit, hu], by simp⟩
    · exact htells versions
    · exact Workspace.creations_tell ws versions
    · rfl

variable (slice) in
/-- Otherwise the first evaluation creates the context and opens its batch. -/
theorem receive_first {params : CreationParams} (hr : setup.registry = .standard) (ht : setup.tracksProgress = true)
    (hf : env.refused = none) (hu : u.payload = .evaluation e) (hp : u.project = l.project)
    (he : e.creationParams = .ok params) (hl : l.params? = some params) (hlive : session.isLive params.id = false) :
    ∃ ws events batch, (({ slice } : Workspace).heldBy l.driver).receive setup env session u =
        ⟨{ session with live := session.live ++ [params.id], created := session.created + 1 }, ws,
          .registered l.tag :: .created session.created params :: events, .closing batch⟩ ∧
      tellings events = [] ∧ creations events = [] ∧ l.Closes [(session.created, params)] ws [] u batch := by
  have hadmits : (({ slice } : Workspace).heldBy l.driver).admits = .ok () := rfl
  have hcreate : session.create env setup.registry e =
      .ok ({ session with live := session.live ++ [params.id], created := session.created + 1 },
        ⟨session.created, params.id, .standard (.ofProject e.project)⟩, [.created session.created params]) := by
    simp [Session.create, he, hlive, hf, hr, resolve_standard]
  rw [Workspace.receive_of_admits hadmits, heldBy_enroll ht, hu, hp]
  dsimp only
  rw [Workspace.receiveEvaluation_created rfl hcreate]
  -- the workspace as it is when the batch is opened
  generalize hw : ({ ({ slice } : Workspace).heldBy l.driver with
    status := .initialized
    owner := some l.project.ownerTag
    context := some ⟨session.created, params.id, .standard (.ofProject e.project)⟩
    contextId := _ } : Workspace) = w
  obtain ⟨htold, hmade⟩ := Workspace.openEvaluation_silent setup env
    { session with live := session.live ++ [params.id], created := session.created + 1 } w
    ⟨session.created, params.id, .standard (.ofProject e.project)⟩ true u.versions e
  obtain ⟨hstate, hfailure, -⟩ := HandlerSet.standard_applyBoth (Kept.ofProject e.project) env
    (session.active.activityOf w.slice) (w.seenRules e) (w.seenItems e)
  refine ⟨_, _, _, rfl, htold, hmade, ?_⟩
  have hkind : u.kind = .evaluation := by rw [Update.kind, hu]
  subst hw
  refine closes_of_failure_none rfl rfl rfl rfl ⟨_, _, params, rfl, hstate, rfl, rfl, hl, rfl⟩ hfailure
    (.inl ⟨⟨_, _, _, _, rfl⟩, ?_⟩)
  simp [hkind]
  rfl

variable (setup env session) in
/-- Every later update is skipped or opens its batch. -/
theorem receive_next (hs : l.Serves made ws handled) (u : Update) :
    (∃ ws' events, (ws.heldBy l.driver).receive setup env session u = ⟨session, ws', events, .finished (.ok .done)⟩ ∧
        tellings events = [l.tag] ∧ creations events = [] ∧ ws'.lock = ⟨some l.driver, []⟩ ∧
        l.Serves made { ws' with lock := {} } (handled ++ [u])) ∨
      ∃ ws' events batch, (ws.heldBy l.driver).receive setup env session u = ⟨session, ws', events, .closing batch⟩ ∧
        tellings events = [] ∧ creations events = [] ∧ l.Closes made ws' handled u batch := by
  obtain ⟨handle, k, params, hcontext, hhandlers, hid, hidentity, hparams, hmade⟩ := hs.context
  have hc : (ws.heldBy l.driver).context = some handle := hcontext
  have henroll : (ws.heldBy l.driver).enroll setup u = (ws.heldBy l.driver, []) :=
    Workspace.enroll_of_initialized (show (ws.heldBy l.driver).status = _ from hs.opened.status) u
  have htells : tellings ((ws.heldBy l.driver).tell u.versions) = [l.tag] := by
    rw [Workspace.tellings_tell, show (ws.heldBy l.driver).owner = some l.tag from hs.owner]
    rfl
  have hreceives : Workspace.Receives setup env session (ws.heldBy l.driver) u _ := Workspace.receives u
  generalize (ws.heldBy l.driver).receive setup env session u = p at hreceives
  have hadmits : (ws.heldBy l.driver).admits = .ok () := Workspace.admits_eq_ok_iff.2 (.inr hs.opened.status)
  have hopen : handled ++ [u] ≠ [] := by simp
  have hbuilt (hkind : u.kind = .evaluation) : ws.buildIntegrated = (handled ++ [u]).any (·.kind = .build) := by
    simpa [hkind] using hs.built
  cases hreceives with
  | refused h => cases hadmits.symm.trans h
  | uncreated h hu hnone => cases hc.symm.trans hnone
  | creates h hu hnone => cases hc.symm.trans hnone
  | misses h hu hnone => cases hc.symm.trans hnone
  | skips h hu hc' hk =>
    rw [henroll]
    have hkind : u.kind = .evaluation := by rw [Update.kind, hu]
    refine .inl ⟨_, _, rfl, htells, Workspace.creations_tell _ _, rfl, ?_⟩
    exact ⟨⟨⟨rfl, hs.opened.unload⟩, hs.opened.status, hs.opened.evaluation⟩, hs.owner, hs.context,
      hbuilt hkind, hopen⟩
  | skipsBuild h hu hk =>
    rw [henroll]
    have hkind : u.kind = .build := by rw [Update.kind, hu]
    refine .inl ⟨_, _, rfl, htells, Workspace.creations_tell _ _, rfl, ?_⟩
    exact ⟨⟨⟨rfl, hs.opened.unload⟩, hs.opened.status, hs.opened.evaluation⟩, hs.owner, hs.context,
      by simp [hkind], hopen⟩
  | @applies e handle' h hu hc' =>
    cases hc.symm.trans hc'
    rw [henroll]
    have hkind : u.kind = .evaluation := by rw [Update.kind, hu]
    obtain ⟨htold, hcreated⟩ :=
      Workspace.openEvaluation_silent setup env session (ws.heldBy l.driver) handle false u.versions e
    obtain ⟨hstate, hfailure, -⟩ := HandlerSet.standard_applyBoth k env (session.active.activityOf ws.slice)
      ((ws.heldBy l.driver).seenRules e) ((ws.heldBy l.driver).seenItems e)
    rw [← hhandlers] at hstate hfailure
    refine .inr ⟨_, _, _, rfl, htold, hcreated, ?_⟩
    exact closes_of_failure_none rfl hs.opened.unload hs.opened.status hs.owner
      ⟨_, _, params, rfl, hstate, hid, hidentity, hparams, hmade⟩ hfailure
      (.inl ⟨⟨_, _, _, _, rfl⟩, hbuilt hkind⟩)
  | @appliesBuild b handle' h hu hc' =>
    cases hc.symm.trans hc'
    rw [henroll]
    have hkind : u.kind = .build := by rw [Update.kind, hu]
    obtain ⟨htold, hcreated⟩ := Workspace.openBuild_silent env session (ws.heldBy l.driver) handle u.versions b
    obtain ⟨hstate, hfailure, -⟩ := HandlerSet.standard_applyArguments k env (session.active.activityOf ws.slice)
      (.between ws.baseline.arguments b.arguments)
    rw [← hhandlers] at hstate hfailure
    refine .inr ⟨_, _, _, rfl, htold, hcreated, ?_⟩
    exact closes_of_failure_none rfl hs.opened.unload hs.opened.status hs.owner
      ⟨_, _, params, rfl, hstate, hid, hidentity, hparams, hmade⟩ hfailure
      (.inr ⟨⟨_, _, _, rfl⟩, hs.opened.evaluation, hkind⟩)

/-! ## Calls in lanes -/

/-- A workspace between two updates: it is new, or serves. -/
inductive Rests (l : Lane) (known : Bool) (made : List (Nat × CreationParams)) (ws : Workspace) (handled : List Update) : Prop
  | fresh {slice : Slice} (hw : ws = { slice }) (hh : handled = []) (hk : known = false) (hm : made = [])
  | serves (h : l.Serves made ws handled)

/-- Where the update in hand stands. -/
inductive Hands (l : Lane) (known : Bool) (made : List (Nat × CreationParams)) (ws : Workspace) (handled : List Update) :
    Option Call → List Update → Prop
  | rests (h : l.Rests known made ws handled) : Hands l known made ws handled none []
  | awaits {u : Update} (h : l.Serves made ws handled) :
      Hands l known made ws handled (some ⟨.update u, .awaitingEvaluation⟩) [u]
  | enters {u : Update} (h : l.Rests known made ws handled) :
      Hands l known made ws handled (some ⟨.update u, .entering⟩) [u]
  | closes {u : Update} {batch : OpenBatch} (h : l.Closes made ws handled u batch) :
      Hands l known made ws handled (some ⟨.update u, .closing batch⟩) [u]

/-- Whether the id of the lane's context is taken. -/
def knownIn (l : Lane) (session : Session) : Bool := l.contextId?.any session.isLive

/-- The contexts of the lane's id among some events. -/
def madeIn (l : Lane) (events : List Event) : List (Nat × CreationParams) :=
  (creations events).filter fun c => l.contextId? = some c.2.id

@[simp] theorem madeIn_append (l : Lane) (events more : List Event) :
    l.madeIn (events ++ more) = l.madeIn events ++ l.madeIn more := by
  rw [madeIn, Event.creations_append, List.filter_append]
  rfl

/-- Between two times at most the lane's own id has been taken, and what was told and created is the lane's own. -/
structure Keeps (l : Lane) (session session' : Session) (events : List Event) : Prop where
  live : ∃ more, session'.live = session.live ++ more ∧ ∀ id ∈ more, l.contextId? = some id
  tells : ∀ owner ∈ tellings events, owner = l.tag
  creates : ∀ c ∈ creations events, l.contextId? = some c.2.id

theorem keeps_silent {events : List Event} (ht : ∀ owner ∈ tellings events, owner = l.tag) (hc : creations events = []) :
    l.Keeps session session events :=
  ⟨⟨[], by simp, by simp⟩, ht, by simp [hc]⟩

/-- What comes of a step with the update in hand. -/
inductive Comes (l : Lane) (session : Session) (made : List (Nat × CreationParams)) (handled : List Update) (u : Update)
    (a : Advance) : Prop
  | goes {c : Call} (hg : a.progress = .going c) (ht : tellings a.events = [])
      (hh : l.Hands (l.knownIn a.session) (made ++ l.madeIn a.events) a.workspace handled (some c) [u])
  | ends {answer : Answer} (hd : a.progress = .done (.ok answer)) (ht : tellings a.events = [l.tag])
      (hr : l.Rests (l.knownIn a.session) (made ++ l.madeIn a.events) a.workspace (handled ++ [u]))
  /-- The first evaluation does not tell what a context needs. -/
  | fails {error : SyncError} {e : Evaluation} (hd : a.progress = .done (.error error)) (ht : tellings a.events = [])
      (hh : handled = []) (hu : firstEvaluation? l.updates = some e) (he : e.creationParams = .error error)
      (hw : a.workspace.Stopped)

theorem params?_of_first (h : firstEvaluation? l.updates = some e) : l.params? = e.creationParams.toOption := by
  simp [params?, h]

theorem madeIn_eq_nil {events : List Event} (h : creations events = []) : l.madeIn events = [] := by
  simp [madeIn, h]

/-- An update in hand goes on as far as it can get, and nothing else is done in the lane. -/
theorem Hands.advance {c : Call} (hr : setup.registry = .standard) (ht : setup.tracksProgress = true)
    (h : l.Hands (l.knownIn session) made ws handled (some c) [u]) (hp : u.project = l.project)
    (hfirst : handled = [] → ∃ e, u.payload = .evaluation e ∧ firstEvaluation? l.updates = some e) :
    l.Keeps session (c.advance setup {} l.driver session ws).session (c.advance setup {} l.driver session ws).events ∧
      l.Comes session made handled u (c.advance setup {} l.driver session ws) := by
  -- where nothing is created the contexts made are as they were
  have same {events : List Event} (hc : creations events = []) : made ++ l.madeIn events = made := by
    rw [madeIn_eq_nil hc, List.append_nil]
  generalize hhand : [u] = inHand at h
  generalize hcall : some c = handing at h
  cases h with
  | rests => cases hcall
  | awaits hs =>
    cases hcall
    cases hhand
    have hadvance : Call.advance setup {} l.driver ⟨.update u, .awaitingEvaluation⟩ session ws =
        ⟨session, ws, [], .going ⟨.update u, .entering⟩⟩ := by
      simp only [Call.advance, hs.opened.unload, hs.opened.evaluation]
    rw [hadvance]
    exact ⟨keeps_silent (by simp) rfl, .goes rfl rfl ((same (show creations [] = [] from rfl)).symm ▸ .enters (.serves hs))⟩
  | @closes _ batch hs =>
    cases hcall
    cases hhand
    have hadvance : Call.advance setup {} l.driver ⟨.update u, .closing batch⟩ session ws =
        ⟨session, { (ws.commit batch.commit).1 with lock := (ws.commit batch.commit).1.lock.release },
          .context batch.serial .endBatch :: (ws.commit batch.commit).2.1 ++ [],
          .done (.ok (ws.commit batch.commit).2.2)⟩ := by
      simp only [Call.advance, if_true]
      rw [Workspace.close_well hs.failure rfl]
      rfl
    have hlock : (ws.commit batch.commit).1.lock.release = {} := by
      rw [show (ws.commit batch.commit).1.lock = ws.lock by cases batch.commit <;> rfl, hs.lock]
      rfl
    rw [hadvance, hlock, List.append_nil]
    have hcreates : creations (.context batch.serial .endBatch :: (ws.commit batch.commit).2.1) = [] := hs.creates
    have htells : tellings (.context batch.serial .endBatch :: (ws.commit batch.commit).2.1) = [l.tag] := hs.tells
    exact ⟨keeps_silent (by simp [htells]) hcreates, .ends rfl htells ((same hcreates).symm ▸ .serves hs.serves)⟩
  | enters hrests =>
    cases hcall
    cases hhand
    cases hrests with
    | serves hs =>
      rw [Call.advance_of_free hs.opened.toFree]
      rcases receive_next setup {} session hs u with
        ⟨ws', events, hq, htells, hcreates, hlock, hserves⟩ | ⟨ws', events, batch, hq, htells, hcreates, hcloses⟩
      · rw [hq]
        have hrelease : ws'.lock.release = {} := by
          rw [hlock]
          rfl
        simp only [Call.conclude, Call.report, List.append_nil, hrelease]
        exact ⟨keeps_silent (by simp [htells]) hcreates, .ends rfl htells ((same hcreates).symm ▸ .serves hserves)⟩
      · rw [hq]
        exact ⟨keeps_silent (fun owner howner => absurd (htells ▸ howner) List.not_mem_nil) hcreates,
          .goes rfl htells ((same hcreates).symm ▸ .closes hcloses)⟩
    | @fresh slice hw hh hk hm =>
      subst hw hh hm
      obtain ⟨e, hu, hevaluation⟩ := hfirst rfl
      rw [Call.advance_of_free ⟨rfl, rfl⟩]
      cases he : e.creationParams with
      | error error =>
        rw [receive_refused ht hu he]
        have hreport : tellings (Call.report setup ⟨.update u, .entering⟩ (.error error)) = [] ∧
            creations (Call.report setup ⟨.update u, .entering⟩ (.error error)) = [] := by
          unfold Call.report
          dsimp only
          split <;> exact ⟨rfl, rfl⟩
        have htells : tellings ([Event.registered u.project.ownerTag] ++
            Call.report setup ⟨.update u, .entering⟩ (.error error)) = [] := hreport.1
        have hcreates : creations ([Event.registered u.project.ownerTag] ++
            Call.report setup ⟨.update u, .entering⟩ (.error error)) = [] := hreport.2
        exact ⟨keeps_silent (fun owner howner => absurd (htells ▸ howner) List.not_mem_nil) hcreates,
          .fails rfl htells rfl hevaluation he ⟨rfl, rfl, rfl, rfl, rfl⟩⟩
      | ok params =>
        have hparams : l.params? = some params := by
          rw [params?_of_first hevaluation, he]
          rfl
        have hid : l.contextId? = some params.id := by rw [contextId?, hparams, Option.map_some]
        have hlive : session.isLive params.id = false := by simpa [knownIn, hid] using hk
        obtain ⟨ws', events, batch, hq, htells, hcreates, hcloses⟩ :=
          receive_first slice hr ht (show ({} : Environment).refused = none from rfl) hu hp he hparams hlive
        rw [hq]
        have hmade : l.madeIn (.registered l.tag :: .created session.created params :: events) =
            [(session.created, params)] := by
          simp [madeIn, hcreates, hid]
        refine ⟨⟨⟨[params.id], rfl, by simpa using hid⟩, ?_, ?_⟩, .goes rfl ?_ ?_⟩
        · simp [Call.conclude, htells]
        · simp [Call.conclude, hcreates, hid]
        · simpa [Call.conclude] using htells
        · simp only [Call.conclude, hmade]
          exact .closes hcloses

end Lane

end SliceSync
