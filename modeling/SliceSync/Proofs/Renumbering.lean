import SliceSync.Proofs.Passages
/-!
# What numbers do not matter for

Contexts are numbered by time of creation and jobs by time of beginning. A call does the same whatever the
numbers are: two steps of it agree, but for numbers, if the workspaces do, the same slices are active and the id
that an evaluation asks for is taken in both sessions or in neither (`Call.advance_alike`).
-/

namespace SliceSync

/-! ## The same but for numbers -/

def ContextHandle.numbered (handle : ContextHandle) (n : Nat) : ContextHandle := { handle with serial := n }

def OpenBatch.numbered (batch : OpenBatch) (n : Nat) : OpenBatch := { batch with serial := n }

theorem ContextHandle.numbered_eq {handle handle' : ContextHandle} {n : Nat} (h : handle'.numbered n = handle.numbered n) :
    handle'.id = handle.id ∧ handle'.handlers = handle.handlers := by
  simpa [numbered] using h

theorem OpenBatch.numbered_eq {batch batch' : OpenBatch} {n : Nat} (h : batch'.numbered n = batch.numbered n) :
    batch'.failure = batch.failure ∧ batch'.commit = batch.commit := by
  simpa [numbered] using h

/-- An event without the number of its context. -/
def Event.unnumbered : Event → Event
  | .created _ params => .created 0 params
  | .context _ call => .context 0 call
  | .handled _ call => .handled 0 call
  | .released _ handler external id => .released 0 handler external id
  | event => event

def Phase.unnumbered : Phase → Phase
  | .closing batch => .closing (batch.numbered 0)
  | .releasing handle => .releasing (handle.numbered 0)
  | phase => phase

def Call.unnumbered (c : Call) : Call := { c with phase := c.phase.unnumbered }

def Held.unnumbered : Held → Held
  | .closing batch => .closing (batch.numbered 0)
  | .releasing handle => .releasing (handle.numbered 0)
  | .finished result => .finished result

def Progress.unnumbered : Progress → Progress
  | .going c => .going c.unnumbered
  | .done result => .done result

def Lock.renamed (f : JobId → JobId) (l : Lock) : Lock := ⟨l.holder.map f, l.waiting.map f⟩

/-- The workspace with other names for the jobs and another number for its context. -/
def Workspace.renumbered (f : JobId → JobId) (n : Nat) (w : Workspace) : Workspace :=
  { w with context := w.context.map (·.numbered n), lock := w.lock.renamed f }

/-- Passages that agree, but for numbers. -/
structure Passage.Alike (f : JobId → JobId) (p p' : Passage) : Prop where
  active : p'.session.active = p.session.active
  workspace : ∃ n, p'.workspace = p.workspace.renumbered f n
  events : p'.events.map Event.unnumbered = p.events.map Event.unnumbered
  held : p'.held.unnumbered = p.held.unnumbered

/-- Steps of a call that agree, but for numbers. -/
structure Advance.Alike (f : JobId → JobId) (a a' : Advance) : Prop where
  active : a'.session.active = a.session.active
  workspace : ∃ n, a'.workspace = a.workspace.renumbered f n
  events : a'.events.map Event.unnumbered = a.events.map Event.unnumbered
  progress : a'.progress.unnumbered = a.progress.unnumbered

/-! ## Locks -/

namespace Lock

variable (f : JobId → JobId) (l : Lock) (me : JobId)

theorem renamed_release : (l.renamed f).release = l.release.renamed f := by
  obtain ⟨holder, waiting⟩ := l
  cases waiting <;> rfl

theorem renamed_request : (l.renamed f).request (f me) = (l.request me).renamed f := by
  obtain ⟨holder, waiting⟩ := l
  cases holder <;> simp [renamed, request]

variable {f l me}

/-- A job is told from those at the lock by its new name too. -/
def Apart (f : JobId → JobId) (l : Lock) (me : JobId) : Prop :=
  ∀ job, l.holder = some job ∨ job ∈ l.waiting → f job = f me → job = me

theorem Apart.holder_iff (h : l.Apart f me) : (l.renamed f).holder = some (f me) ↔ l.holder = some me := by
  unfold renamed
  cases hl : l.holder with
  | none => simp
  | some job => simpa using ⟨h job (.inl hl), fun heq => heq ▸ rfl⟩

theorem Apart.isHeldBy (h : l.Apart f me) : (l.renamed f).isHeldBy (f me) = l.isHeldBy me := by
  simp [Lock.isHeldBy, h.holder_iff]

theorem Apart.leave (h : l.Apart f me) : (l.renamed f).leave (f me) = (l.leave me).renamed f := by
  unfold Lock.leave
  by_cases hl : l.holder = some me
  · rw [if_pos hl, if_pos (h.holder_iff.2 hl), renamed_release]
  · rw [if_neg hl, if_neg fun heq => hl (h.holder_iff.1 heq)]
    have hfilter : (l.waiting.map f).filter (· ≠ f me) = (l.waiting.filter (· ≠ me)).map f := by
      rw [List.filter_map]
      refine congrArg (List.map f) (List.filter_congr fun job hjob => ?_)
      have : f job = f me ↔ job = me := ⟨h job (.inr hjob), fun heq => heq ▸ rfl⟩
      simp [this]
    exact congrArg (Lock.mk (l.holder.map f)) hfilter

end Lock

/-! ## Passages -/

variable {f : JobId → JobId} {setup : Setup} {env : Environment} {s s' : Session} {w : Workspace}

theorem Effect.unnumbered_event (n : Nat) (e : Effect) : (e.event n).unnumbered = e.event 0 := by
  cases e <;> rfl

@[simp] theorem Effect.unnumbered_comp_event (n : Nat) : Event.unnumbered ∘ Effect.event n = Effect.event 0 :=
  funext (Effect.unnumbered_event n)

/-- Whether a passage agrees with another does not hang on what comes before both. -/
theorem Passage.Alike.after {p p' : Passage} (h : p.Alike f p') {events events' : List Event}
    (he : events'.map Event.unnumbered = events.map Event.unnumbered) :
    Passage.Alike f { p with events := events ++ p.events } { p' with events := events' ++ p'.events } :=
  ⟨h.active, h.workspace, by simp [he, h.events], h.held⟩

/-- What an evaluation asks to be free is taken in both sessions or in neither. -/
def Evaluation.AsksAlike (e : Evaluation) (s s' : Session) : Prop :=
  ∀ params, e.creationParams = .ok params → (params.id ∈ s'.live ↔ params.id ∈ s.live)

/-- A context is created in both sessions or in neither. -/
theorem Session.create_alike (env : Environment) (registry : Registry) {e : Evaluation} (ha : s'.active = s.active)
    (hl : e.AsksAlike s s') :
    (∃ error, s.create env registry e = .error error ∧ s'.create env registry e = .error error) ∨
      ∃ t t' handle n params, t'.active = t.active ∧
        s.create env registry e = .ok (t, handle, [.created handle.serial params]) ∧
        s'.create env registry e = .ok (t', handle.numbered n, [.created n params]) := by
  unfold create
  cases hp : e.creationParams with
  | error error => exact .inl ⟨error, rfl, rfl⟩
  | ok params =>
    have hlive : s'.isLive params.id = s.isLive params.id := by
      rw [Bool.eq_iff_iff, isLive, isLive, List.contains_iff_mem, List.contains_iff_mem]
      exact hl params hp
    dsimp only
    rw [hlive]
    by_cases hmem : s.isLive params.id = true
    · rw [if_pos hmem, if_pos hmem]
      exact .inl ⟨_, rfl, rfl⟩
    · rw [if_neg hmem, if_neg hmem]
      cases env.refused with
      | some message => exact .inl ⟨_, rfl, rfl⟩
      | none =>
        refine .inr ⟨_, _, ⟨s.created, params.id, _⟩, s'.created, params, ?_, rfl, rfl⟩
        exact ha

namespace Workspace

variable (f setup env w)

theorem evaluate_alike (ha : s'.active = s.active) (handle : ContextHandle) (n m : Nat) (fresh : Bool)
    (versions : Versions) (e : Evaluation) :
    Passage.Alike f (evaluate setup env s w handle fresh versions e)
      (evaluate setup env s' (w.renumbered f n) (handle.numbered m) fresh versions e) := by
  unfold evaluate renumbered
  dsimp only
  rw [ha]
  split
  · exact ⟨ha, ⟨n, rfl⟩, rfl, rfl⟩
  · refine ⟨ha, ⟨m, rfl⟩, ?_, rfl⟩
    cases fresh <;> simp [ContextHandle.numbered, Event.unnumbered]

theorem receiveEvaluation_alike (ha : s'.active = s.active) (n : Nat) (versions : Versions) {e : Evaluation}
    (hl : e.AsksAlike s s') :
    Passage.Alike f (receiveEvaluation setup env s w versions e)
      (receiveEvaluation setup env s' (w.renumbered f n) versions e) := by
  unfold receiveEvaluation
  cases hc : w.context with
  | some handle =>
    rw [show (w.renumbered f n).context = some (handle.numbered n) by simp [renumbered, hc]]
    exact evaluate_alike f setup env w ha handle n n false versions e
  | none =>
    rw [show (w.renumbered f n).context = none by simp [renumbered, hc]]
    dsimp only
    rcases Session.create_alike env setup.registry ha hl with
      ⟨error, hs, hs'⟩ | ⟨t, t', handle, m, params, hactive, hs, hs'⟩
    · rw [hs, hs']
      exact ⟨ha, ⟨n, by simp [renumbered]⟩, rfl, rfl⟩
    · rw [hs, hs']
      exact (evaluate_alike f setup env
        { w with context := some handle, contextId := w.contextId.or (some handle.id) } hactive handle m m true
        versions e).after rfl

theorem receiveBuild_alike (ha : s'.active = s.active) (n : Nat) (versions : Versions) (b : Build) :
    Passage.Alike f (receiveBuild env s w versions b) (receiveBuild env s' (w.renumbered f n) versions b) := by
  unfold receiveBuild renumbered
  dsimp only
  rw [ha]
  split
  · exact ⟨ha, ⟨n, rfl⟩, rfl, rfl⟩
  · cases hc : w.context with
    | none => exact ⟨ha, ⟨n, by simp [renumbered, hc]⟩, rfl, rfl⟩
    | some handle =>
      refine ⟨ha, ⟨n, rfl⟩, ?_, rfl⟩
      simp [ContextHandle.numbered, Event.unnumbered]

theorem enroll_renumbered (n : Nat) (u : Update) :
    (w.renumbered f n).enroll setup u = ((w.enroll setup u).1.renumbered f n, (w.enroll setup u).2) := by
  unfold enroll
  cases hs : w.status with
  | uninitialized => cases ht : setup.tracksProgress <;> simp [renumbered, hs]
  | _ => simp [renumbered, hs]

theorem receive_alike (ha : s'.active = s.active) (n : Nat) {u : Update}
    (hl : ∀ e, u.payload = .evaluation e → e.AsksAlike s s') :
    Passage.Alike f (receive setup env s w u) (receive setup env s' (w.renumbered f n) u) := by
  unfold receive
  rw [show (w.renumbered f n).admits = w.admits from rfl]
  cases w.admits with
  | error error => exact ⟨ha, ⟨n, rfl⟩, rfl, rfl⟩
  | ok =>
    dsimp only
    rw [enroll_renumbered]
    cases hu : u.payload with
    | evaluation e => exact (receiveEvaluation_alike f setup env _ ha n u.versions (hl e hu)).after rfl
    | build b => exact (receiveBuild_alike f env _ ha n u.versions b).after rfl

theorem beginWrite_alike (ha : s'.active = s.active) (n : Nat) (mutations : List Mutation) :
    Passage.Alike f (beginWrite s w mutations) (beginWrite s' (w.renumbered f n) mutations) := by
  unfold beginWrite
  rw [show (w.renumbered f n).admits = w.admits from rfl]
  cases w.admits with
  | error error => exact ⟨ha, ⟨n, rfl⟩, rfl, rfl⟩
  | ok =>
    cases hc : w.context with
    | none =>
      rw [show (w.renumbered f n).context = none by simp [renumbered, hc]]
      exact ⟨ha, ⟨n, rfl⟩, rfl, rfl⟩
    | some handle =>
      rw [show (w.renumbered f n).context = some (handle.numbered n) by simp [renumbered, hc]]
      refine ⟨ha, ⟨n, rfl⟩, ?_, rfl⟩
      simp [ContextHandle.numbered, Event.unnumbered, Function.comp_def]

theorem beginDispose_alike (ha : s'.active = s.active) (n : Nat) :
    Passage.Alike f (beginDispose s w) (beginDispose s' (w.renumbered f n)) := by
  unfold beginDispose
  rw [show (w.renumbered f n).status = w.status from rfl]
  cases w.status with
  | disposed => exact ⟨ha, ⟨n, rfl⟩, rfl, rfl⟩
  | _ =>
    cases hc : w.context with
    | none =>
      rw [show (w.renumbered f n).context = none by simp [renumbered, hc]]
      exact ⟨ha, ⟨n, rfl⟩, rfl, rfl⟩
    | some handle =>
      rw [show (w.renumbered f n).context = some (handle.numbered n) by simp [renumbered, hc]]
      exact ⟨ha, ⟨n, rfl⟩, rfl, rfl⟩

theorem finishDispose_alike (ha : s'.active = s.active) (n : Nat) {handle handle' : ContextHandle}
    (hh : handle'.numbered 0 = handle.numbered 0) :
    Passage.Alike f (finishDispose s w handle) (finishDispose s' (w.renumbered f n) handle') := by
  obtain ⟨hid, hhandlers⟩ := ContextHandle.numbered_eq hh
  refine ⟨ha, ⟨n, rfl⟩, ?_, rfl⟩
  simp [finishDispose, Session.finishRelease, unregister, renumbered, hhandlers, hid, Event.unnumbered,
    Function.comp_def]

theorem commit_renumbered (n : Nat) (commit : Commit) :
    (w.renumbered f n).commit commit =
      ((w.commit commit).1.renumbered f n, (w.commit commit).2.1, (w.commit commit).2.2) := by
  cases commit <;> rfl

theorem close_alike (ha : s'.active = s.active) (n : Nat) {batch batch' : OpenBatch}
    (hb : batch'.numbered 0 = batch.numbered 0) :
    Passage.Alike f (close env s w batch) (close env s' (w.renumbered f n) batch') := by
  obtain ⟨hfailure, hcommit⟩ := OpenBatch.numbered_eq hb
  unfold close
  rw [hfailure, hcommit]
  dsimp only
  cases batch.failure.or env.rejected with
  | some error => exact ⟨ha, ⟨n, rfl⟩, rfl, rfl⟩
  | none =>
    dsimp only
    rw [commit_renumbered]
    exact ⟨ha, ⟨n, rfl⟩, by simp [Event.unnumbered], rfl⟩

end Workspace

/-- The evaluation that a request brings, if it does. -/
def Request.evaluation? : Request → Option Evaluation
  | .update u =>
    match u.payload with
    | .evaluation e => some e
    | .build _ => none
  | _ => none

theorem Request.evaluation?_update {u : Update} {e : Evaluation} (hu : u.payload = .evaluation e) :
    (update u).evaluation? = some e := by
  simp [evaluation?, hu]

variable (f setup env w) in
theorem Request.passage_alike (ha : s'.active = s.active) (n : Nat) (request : Request)
    (hl : ∀ e, request.evaluation? = some e → e.AsksAlike s s') :
    Passage.Alike f (request.passage setup env s w) (request.passage setup env s' (w.renumbered f n)) := by
  cases request with
  | update u => exact w.receive_alike f setup env ha n fun e hu => hl e (evaluation?_update hu)
  | write mutations => exact w.beginWrite_alike f ha n mutations
  | dispose cause => exact w.beginDispose_alike f ha n
  | status | whenEvaluation | whenBuild => exact ⟨ha, ⟨n, rfl⟩, rfl, rfl⟩

/-! ## Steps of a call -/

namespace Call

variable {c c' : Call} {me : JobId}

theorem unnumbered_eq (h : c'.unnumbered = c.unnumbered) :
    c'.request = c.request ∧ c'.phase.unnumbered = c.phase.unnumbered := by
  simpa [unnumbered] using h

theorem report_unnumbered (setup : Setup) (h : c'.request = c.request) (result : Except SyncError Answer) :
    c'.report setup result = c.report setup result := by
  unfold report
  rw [h]

theorem conclude_alike (setup : Setup) (hr : c'.request = c.request) {p p' : Passage} (h : p.Alike f p') :
    Advance.Alike f (c.conclude setup p) (c'.conclude setup p') := by
  obtain ⟨s, w, events, held⟩ := p
  obtain ⟨s', w', events', held'⟩ := p'
  obtain ⟨ha, ⟨n, hw⟩, he, hh⟩ := h
  dsimp only at ha hw he hh
  subst hw
  unfold conclude
  cases held with
  | finished result =>
    cases held' with
    | finished result' =>
      obtain rfl : result' = result := by injection hh
      exact ⟨ha, ⟨n, by simp [Workspace.renumbered, Lock.renamed_release]⟩,
        by simp [he, report_unnumbered setup hr], rfl⟩
    | _ => cases hh
  | closing batch =>
    cases held' with
    | closing batch' =>
      have hbatch : batch'.numbered 0 = batch.numbered 0 := by injection hh
      exact ⟨ha, ⟨n, rfl⟩, he, by simp [Progress.unnumbered, unnumbered, Phase.unnumbered, hr, hbatch]⟩
    | _ => cases hh
  | releasing handle =>
    cases held' with
    | releasing handle' =>
      have hhandle : handle'.numbered 0 = handle.numbered 0 := by injection hh
      exact ⟨ha, ⟨n, rfl⟩, he, by simp [Progress.unnumbered, unnumbered, Phase.unnumbered, hr, hhandle]⟩
    | _ => cases hh

theorem finish_alike (setup : Setup) (hr : c'.request = c.request) (ha : s'.active = s.active)
    {w' : Workspace} (hw : ∃ n, w' = w.renumbered f n) (result : Except SyncError Answer) :
    Advance.Alike f (c.finish setup s w result) (c'.finish setup s' w' result) :=
  ⟨ha, hw, by simp [finish, report_unnumbered setup hr], rfl⟩

theorem cutShort_renumbered (hr : c'.request = c.request) (n : Nat) :
    c'.cutShort (w.renumbered f n) = c.cutShort w := by
  unfold cutShort
  rw [hr]
  rfl

theorem enter_alike (setup : Setup) (env : Environment) (hr : c'.request = c.request) (ha : s'.active = s.active)
    (n : Nat) (hl : ∀ e, c.request.evaluation? = some e → e.AsksAlike s s') :
    Advance.Alike f (c.enter setup env s w) (c'.enter setup env s' (w.renumbered f n)) := by
  rw [enter_eq, enter_eq, hr]
  exact conclude_alike setup hr (c.request.passage_alike f setup env w ha n hl)

theorem askLock_alike (setup : Setup) (env : Environment) (hc : c'.unnumbered = c.unnumbered)
    (ha : s'.active = s.active) (n : Nat) (hl : ∀ e, c.request.evaluation? = some e → e.AsksAlike s s') :
    Advance.Alike f (c.askLock setup env me s w) (c'.askLock setup env (f me) s' (w.renumbered f n)) := by
  obtain ⟨hr, -⟩ := unnumbered_eq hc
  have hlock : (w.renumbered f n).lock.request (f me) = (w.lock.request me).renamed f := w.lock.renamed_request f me
  have hfree : (w.renumbered f n).lock.holder.isNone = w.lock.holder.isNone := by simp [Workspace.renumbered, Lock.renamed]
  unfold askLock
  rw [hlock, hfree]
  dsimp only
  split
  · exact enter_alike (w := { w with lock := w.lock.request me }) setup env hr ha n hl
  · exact ⟨ha, ⟨n, rfl⟩, rfl, by simp [Progress.unnumbered, unnumbered, hr]⟩

/-- Only calls that hold the lock have numbers about them. -/
theorem eq_of_unnumbered (h : c'.unnumbered = c.unnumbered) (hp : c.phase.holds = false) : c' = c := by
  obtain ⟨request, phase⟩ := c
  obtain ⟨request', phase'⟩ := c'
  obtain ⟨hr, hphase⟩ := unnumbered_eq h
  cases phase <;> cases phase' <;> simp_all [Phase.unnumbered, Phase.holds]

/-- A step of a call does the same whatever the numbers of contexts and jobs. -/
theorem advance_alike (setup : Setup) (env : Environment) (hc : c'.unnumbered = c.unnumbered)
    (ha : s'.active = s.active) (n : Nat) (hme : w.lock.Apart f me)
    (hl : ∀ e, c.request.evaluation? = some e → e.AsksAlike s s') :
    Advance.Alike f (c.advance setup env me s w) (c'.advance setup env (f me) s' (w.renumbered f n)) := by
  obtain ⟨hr, hp⟩ := unnumbered_eq hc
  have hsame : c.phase.holds = false → c' = c := eq_of_unnumbered hc
  have hw : ∃ m, w.renumbered f n = w.renumbered f m := ⟨n, rfl⟩
  unfold advance
  cases hphase : c.phase with
  | awaitingEvaluation =>
    obtain rfl := hsame (by rw [hphase]; rfl)
    rw [hphase]
    dsimp only
    rw [show (w.renumbered f n).unload = w.unload from rfl,
      show (w.renumbered f n).evaluation = w.evaluation from rfl]
    split
    · exact finish_alike setup rfl ha hw _
    · split
      · exact ⟨ha, hw, rfl, rfl⟩
      · exact finish_alike setup rfl ha hw _
      · split
        · exact finish_alike setup rfl ha hw _
        · exact ⟨ha, hw, rfl, rfl⟩
  | awaitingBuild =>
    obtain rfl := hsame (by rw [hphase]; rfl)
    rw [hphase]
    dsimp only
    rw [show (w.renumbered f n).unload = w.unload from rfl,
      show (w.renumbered f n).buildIntegrated = w.buildIntegrated from rfl]
    split
    · exact finish_alike setup rfl ha hw _
    · split
      · exact finish_alike setup rfl ha hw _
      · exact ⟨ha, hw, rfl, rfl⟩
  | entering =>
    obtain rfl := hsame (by rw [hphase]; rfl)
    rw [hphase]
    dsimp only
    split
    · exact askLock_alike (w := { w with unload := w.unload.cancel _ }) setup env rfl ha n hl
    · rw [cutShort_renumbered rfl]
      split
      · exact finish_alike setup rfl ha hw _
      · exact askLock_alike setup env rfl ha n hl
  | queued =>
    obtain rfl := hsame (by rw [hphase]; rfl)
    rw [hphase]
    dsimp only
    rw [cutShort_renumbered rfl, show (w.renumbered f n).lock = w.lock.renamed f from rfl, hme.leave, hme.isHeldBy]
    split
    · exact finish_alike (w := { w with lock := w.lock.leave me }) setup rfl ha ⟨n, rfl⟩ _
    · split
      · exact enter_alike setup env rfl ha n hl
      · exact ⟨ha, hw, rfl, rfl⟩
  | closing batch =>
    cases hphase' : c'.phase with
    | closing batch' =>
      have hbatch : batch'.numbered 0 = batch.numbered 0 := by simpa [hphase, hphase', Phase.unnumbered] using hp
      dsimp only
      split
      · exact conclude_alike setup hr (w.close_alike f env ha n hbatch)
      · exact ⟨ha, hw, rfl, by simp [Progress.unnumbered, hc]⟩
    | _ => simp [hphase, hphase', Phase.unnumbered] at hp
  | releasing handle =>
    cases hphase' : c'.phase with
    | releasing handle' =>
      have hhandle : handle'.numbered 0 = handle.numbered 0 := by simpa [hphase, hphase', Phase.unnumbered] using hp
      dsimp only
      split
      · exact conclude_alike setup hr (w.finishDispose_alike f ha n hhandle)
      · exact ⟨ha, hw, rfl, by simp [Progress.unnumbered, hc]⟩
    | _ => simp [hphase, hphase', Phase.unnumbered] at hp

end Call

end SliceSync
