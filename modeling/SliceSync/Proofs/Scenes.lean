import SliceSync.Proofs.Places
/-!
# All calls on one workspace

A `Scene` is a workspace with the calls on it, wherever they stand, and all that happened there. A move of a
view is a step of each scene: a call begins or goes on, unload is requested, or nothing is seen of it
(`HasScene.move`). What a step of a call does to the lock and the token is told by `Call.Paths`.
-/

namespace SliceSync

/-! ## Where a call can stand -/

/-- Whether a request heeds the unload token while it waits. -/
def Request.heeds : Request → Bool
  | .status | .dispose _ => false
  | _ => true

/-- Whether a request waits for the first evaluation. -/
def Request.awaits : Request → Bool
  | .update u =>
    match u.payload with
    | .evaluation _ => false
    | .build _ => true
  | .write _ | .whenEvaluation => true
  | _ => false

/-- Whether a request asks for the lock. -/
def Request.locks : Request → Bool
  | .whenEvaluation | .whenBuild => false
  | _ => true

/-- What a request asks of the unload token before it asks for the lock. -/
def Request.raise : Request → UnloadToken → UnloadToken
  | .dispose cause, unload => unload.cancel cause
  | _, unload => unload

/-- The commit is one that the request can lead to. -/
def Commit.Suits : Request → Commit → Prop
  | .update u, .evaluation .. => ∃ e, u.payload = .evaluation e
  | .update u, .build .. => ∃ b, u.payload = .build b
  | .write _, .write _ => True
  | _, _ => False

/-- A call stands where its request can bring it. -/
def Call.Fit (c : Call) : Prop :=
  match c.phase with
  | .awaitingEvaluation => c.request.awaits = true
  | .awaitingBuild => c.request = .whenBuild
  | .entering | .queued => c.request.locks = true
  | .closing batch => batch.commit.Suits c.request
  | .releasing _ => ∃ cause, c.request = .dispose cause

theorem Call.Fit.closing {c : Call} {batch : OpenBatch} (h : c.Fit) (hp : c.phase = .closing batch) :
    batch.commit.Suits c.request := by
  simpa only [Fit, hp] using h

theorem Call.Fit.releasing {c : Call} {handle : ContextHandle} (h : c.Fit) (hp : c.phase = .releasing handle) :
    ∃ cause, c.request = .dispose cause := by
  simpa only [Fit, hp] using h

/-- No batch is closed by a teardown. -/
theorem Commit.not_suits_dispose {cause : DisposeCause} {commit : Commit} : ¬commit.Suits (.dispose cause) := by
  cases commit <;> nofun

theorem Call.start_fit (request : Request) : (start request).Fit := by
  cases request with
  | update u => cases h : u.payload <;> simp [start, Fit, h, Request.awaits, Request.locks]
  | _ => simp [start, Fit, Request.awaits, Request.locks]

theorem Call.start_not_queued (request : Request) : (start request).phase ≠ .queued := by
  cases request with
  | update u => cases h : u.payload <;> simp [start, h]
  | _ => simp [start]

/-- Who waits for the first evaluation, or for a build, heeds the token. -/
theorem Request.heeds_of_awaits {request : Request} (h : request.awaits = true) : request.heeds = true := by
  cases request <;> simp_all [awaits, heeds]

/-! ## What a step of a call does to lock and token -/

namespace Call

/-- The ways a step of a call can go, with what it does to the lock and the token. -/
inductive Paths (setup : Setup) (env : Environment) (me : JobId) (c : Call) (session : Session)
    (w : Workspace) : Advance → Prop
  /-- It is stuck. -/
  | stays (hs : c.isStuck env me w = true) : Paths setup env me c session w ⟨session, w, [], .going c⟩
  /-- It gives way to the request to unload. -/
  | yields {cause : DisposeCause} {lock : Lock} (hr : c.request.heeds = true) (hp : c.phase.holds = false)
      (hu : w.unload.cause = some cause)
      (hl : c.phase = .queued ∧ lock = w.lock.leave me ∨ c.phase ≠ .queued ∧ lock = w.lock) :
      Paths setup env me c session w (c.finish setup session { w with lock } (.error cause.error))
  /-- What it waited for will never come. -/
  | despairs (hp : c.phase = .awaitingEvaluation) (hu : w.unload.cause = none)
      (he : w.evaluation = .failed) : Paths setup env me c session w (c.finish setup session w (.error .failed))
  /-- What it waited for has come. -/
  | learns (hp : c.phase.holds = false ∧ c.phase ≠ .queued) (hu : w.unload.cause = none)
      (hr : c.request = .whenEvaluation ∧ w.evaluation = .integrated ∨
        c.request = .whenBuild ∧ w.buildIntegrated = true) :
      Paths setup env me c session w (c.finish setup session w (.ok .done))
  /-- The first evaluation has come, and it goes on to the lock. -/
  | passes (hp : c.phase = .awaitingEvaluation) (hu : w.unload.cause = none)
      (he : w.evaluation = .integrated) (hr : c.request ≠ .whenEvaluation) :
      Paths setup env me c session w ⟨session, w, [], .going { c with phase := .entering }⟩
  /-- It joins the line at the lock. -/
  | queues {holder : JobId} (hp : c.phase = .entering) (hh : w.lock.holder = some holder)
      (hu : c.request.heeds = true → w.unload.cause = none) :
      Paths setup env me c session w
        ⟨session,
          { w with
            unload := c.request.raise w.unload
            lock := { w.lock with waiting := w.lock.waiting ++ [me] } },
          [], .going { c with phase := .queued }⟩
  /-- It takes the free lock. -/
  | enters (hp : c.phase = .entering) (hh : w.lock.holder = none)
      (hu : c.request.heeds = true → w.unload.cause = none) :
      Paths setup env me c session w
        (c.conclude setup (c.request.passage setup env session
          { w with
            unload := c.request.raise w.unload
            lock := { w.lock with holder := some me } }))
  /-- The lock was passed to it. -/
  | succeeds (hp : c.phase = .queued) (hh : w.lock.holder = some me)
      (hu : c.request.heeds = true → w.unload.cause = none) :
      Paths setup env me c session w (c.conclude setup (c.request.passage setup env session w))
  /-- Its batch closes. -/
  | closes {batch : OpenBatch} (hp : c.phase = .closing batch) (hg : env.gateOpen = true) :
      Paths setup env me c session w (c.conclude setup (w.close env session batch))
  /-- The context it disposes of is gone. -/
  | parts {handle : ContextHandle} (hp : c.phase = .releasing handle) (hd : env.disposalOpen = true) :
      Paths setup env me c session w (c.conclude setup (w.finishDispose session handle))

variable {setup : Setup} {env : Environment} {me : JobId} {c : Call} {session : Session} {w : Workspace}

theorem cutShort_eq (c : Call) (w : Workspace) :
    c.cutShort w = if c.request.heeds then w.unload.cause else none := by
  unfold cutShort Request.heeds
  cases c.request <;> rfl

theorem paths_askLock (setup : Setup) (env : Environment) (me : JobId) (session : Session)
    (hp : c.phase = .entering) (hu : c.request.heeds = true → w.unload.cause = none) :
    Paths setup env me c session w
      (c.askLock setup env me session { w with unload := c.request.raise w.unload }) := by
  unfold askLock
  cases hh : w.lock.holder with
  | none =>
    simp only [Lock.request, hh, Option.isNone_none, if_true, enter_eq]
    exact .enters hp hh hu
  | some other =>
    simp only [Lock.request, hh, Option.isNone_some, Bool.false_eq_true, if_false]
    have : Paths setup env me c session w _ := .queues hp hh hu
    rwa [← hh]

/-- Every step goes in one of these ways. -/
theorem paths (setup : Setup) (env : Environment) (me : JobId) (session : Session) (w : Workspace) (hc : c.Fit) :
    Paths setup env me c session w (c.advance setup env me session w) := by
  unfold Fit at hc
  unfold advance
  cases hp : c.phase with
  | awaitingEvaluation =>
    rw [hp] at hc
    dsimp only at hc ⊢
    have holds : c.phase.holds = false := by rw [hp]; rfl
    split
    · rename_i cause hu
      exact .yields (Request.heeds_of_awaits hc) holds hu (.inr ⟨by rw [hp]; nofun, rfl⟩)
    · rename_i hu
      split
      · rename_i he
        exact .stays (by simp [isStuck, hp, hu, he])
      · rename_i he
        exact .despairs hp hu he
      · rename_i he
        split
        · rename_i hr
          exact .learns ⟨holds, by rw [hp]; nofun⟩ hu (.inl ⟨hr, he⟩)
        · rename_i hr
          exact .passes hp hu he fun h => hr h
  | awaitingBuild =>
    rw [hp] at hc
    dsimp only at hc ⊢
    have holds : c.phase.holds = false := by rw [hp]; rfl
    split
    · rename_i cause hu
      exact .yields (by rw [hc]; rfl) holds hu (.inr ⟨by rw [hp]; nofun, rfl⟩)
    · rename_i hu
      split
      · rename_i hb
        exact .learns ⟨holds, by rw [hp]; nofun⟩ hu (.inr ⟨hc, hb⟩)
      · rename_i hb
        exact .stays (by simp [isStuck, hp, hu, hb])
  | entering =>
    dsimp only
    have asks (hu : c.request.heeds = true → w.unload.cause = none) := paths_askLock setup env me session hp hu
    split
    · rename_i cause hr
      have := asks (by rw [hr]; nofun)
      rwa [hr] at this
    · rename_i hr
      have hraise : c.request.raise w.unload = w.unload := by
        unfold Request.raise
        split
        · rename_i cause hd
          exact absurd hd (hr cause)
        · rfl
      rw [cutShort_eq]
      cases hh : c.request.heeds with
      | false =>
        simp only [Bool.false_eq_true, if_false]
        have := asks (by rw [hh]; nofun)
        rwa [hraise] at this
      | true =>
        simp only [if_true]
        cases hu : w.unload.cause with
        | some cause => exact .yields hh (by rw [hp]; rfl) hu (.inr ⟨by rw [hp]; nofun, rfl⟩)
        | none =>
          have := asks fun _ => hu
          rwa [hraise] at this
  | queued =>
    dsimp only
    rw [cutShort_eq]
    have holder : w.lock.isHeldBy me = true ↔ w.lock.holder = some me := by simp [Lock.isHeldBy]
    cases hh : c.request.heeds with
    | false =>
      simp only [Bool.false_eq_true, if_false]
      split
      · rename_i hl
        rw [enter_eq]
        exact .succeeds hp (holder.1 hl) (by rw [hh]; nofun)
      · rename_i hl
        exact .stays (by simp [isStuck, hp, cutShort_eq, hh, hl])
    | true =>
      simp only [if_true]
      cases hu : w.unload.cause with
      | some cause => exact .yields hh (by rw [hp]; rfl) hu (.inl ⟨hp, rfl⟩)
      | none =>
        dsimp only
        split
        · rename_i hl
          rw [enter_eq]
          exact .succeeds hp (holder.1 hl) fun _ => hu
        · rename_i hl
          exact .stays (by simp [isStuck, hp, cutShort_eq, hu, hl])
  | closing batch =>
    dsimp only
    split
    · rename_i hg
      exact .closes hp hg
    · rename_i hg
      exact .stays (by simp [isStuck, hp, hg])
  | releasing handle =>
    dsimp only
    split
    · rename_i hd
      exact .parts hp hd
    · rename_i hd
      exact .stays (by simp [isStuck, hp, hd])

end Call

/-! ## Scenes and their steps -/

/-- A workspace with all calls on it and all that happened there. -/
structure Scene where
  workspace : Workspace
  calls : JobId → Option Call
  log : List Event

namespace Scene

/-- The scene after a step of the call that a job makes. -/
def after (s : Scene) (me : JobId) (a : Advance) : Scene where
  workspace := a.workspace
  calls := Function.update s.calls me <|
    match a.progress with
    | .going c => some c
    | .done _ => none
  log := s.log ++ a.events

/-- The ways a move can concern a scene, with the calls that end. -/
inductive Step (t : Terms) (i : Nat) (s : Scene) : Scene → List Ending → Prop
  | rests : Step t i s s []
  | unloads (cause : DisposeCause) :
      Step t i s
        { s with workspace := { s.workspace with unload := s.workspace.unload.cancel cause } } []
  | begins {me : JobId} {request : Request} (hc : s.calls me = none) (hr : request.isWrite → t.writes) :
      Step t i s { s with calls := Function.update s.calls me (some (.start request)) } []
  | goes {env : Environment} {me : JobId} {c : Call} {session : Session} (he : t.fits env)
      (hc : s.calls me = some c) :
      Step t i s (s.after me (c.advance t.setup env me session s.workspace))
        ((c.advance t.setup env me session s.workspace).endings i c.request)

/-- A workspace was just added; the calls on it, if any, have done nothing yet. -/
structure Fresh (s : Scene) : Prop where
  workspace : ∃ slice, s.workspace = { slice }
  calls : ∀ me c, s.calls me = some c → ∃ request, c = .start request
  log : s.log = []

theorem after_calls_self {s : Scene} {me : JobId} {a : Advance} {c : Call} :
    (s.after me a).calls me = some c ↔ a.progress = .going c := by
  simp only [after, Function.update_self]
  cases a.progress <;> simp

theorem after_calls_of_ne (s : Scene) {me other : JobId} (a : Advance) (h : other ≠ me) :
    (s.after me a).calls other = s.calls other := Function.update_of_ne h ..

end Scene

namespace View

/-- The view has this scene in a place. -/
structure HasScene (v : View) (i : Nat) (s : Scene) : Prop where
  workspace : v.workspaces[i]? = some s.workspace
  calls : ∀ me c, s.calls me = some c ↔ v.calls me = some (i, c)
  log : s.log = (v.log.filter (·.workspace = i)).map (·.event)

variable {t : Terms} {v v' : View} {i : Nat} {s : Scene} {ended : List Ending}

/-- A view has one scene in a place. -/
theorem HasScene.unique {s' : Scene} (h : v.HasScene i s) (h' : v.HasScene i s') : s = s' := by
  obtain ⟨workspace, calls, log⟩ := s
  obtain ⟨workspace', calls', log'⟩ := s'
  obtain rfl : workspace = workspace' := Option.some.inj (h.workspace.symm.trans h'.workspace)
  obtain rfl : calls = calls' := funext fun me => Option.ext fun c => (h.calls me c).trans (h'.calls me c).symm
  obtain rfl : log = log' := h.log.trans h'.log.symm
  rfl

/-- A workspace that is there has a scene. -/
theorem exists_scene {ws : Workspace} (h : v.workspaces[i]? = some ws) :
    ∃ s, v.HasScene i s ∧ s.workspace = ws := by
  let s : Scene :=
    { workspace := ws
      calls := fun me => (v.calls me).bind fun e => if e.1 = i then some e.2 else none
      log := (v.log.filter (·.workspace = i)).map (·.event) }
  refine ⟨s, ⟨h, fun me c => ?_, rfl⟩, rfl⟩
  show ((v.calls me).bind fun e => if e.1 = i then some e.2 else none) = some c ↔ _
  cases hc : v.calls me with
  | none => simp
  | some e =>
    obtain ⟨j, c'⟩ := e
    by_cases hj : j = i <;> simp [hj]

theorem HasScene.adding (h : v.HasScene i s) (slices : List Slice) : (v.adding slices).HasScene i s := by
  have hi := (List.getElem?_eq_some_iff.1 h.workspace).1
  exact ⟨(List.getElem?_append_left hi).trans h.workspace, h.calls, h.log⟩

/-- A job that does nothing here makes a call elsewhere, or none. -/
theorem HasScene.calls_update (h : v.HasScene i s) {me : JobId} {call : Option (Nat × Call)}
    (ho : ∀ c, v.calls me ≠ some (i, c)) (hn : ∀ c, call ≠ some (i, c)) (other : JobId) (c : Call) :
    s.calls other = some c ↔ Function.update v.calls me call other = some (i, c) := by
  by_cases hme : other = me
  · subst hme
    rw [Function.update_self, h.calls]
    exact iff_of_false (ho c) (hn c)
  · rw [Function.update_of_ne hme, h.calls]

/-- What happens elsewhere is not in the log here. -/
theorem filter_log_elsewhere {i j : Nat} (hij : i ≠ j) (log : List Entry) (me : JobId) (events : List Event) :
    (log ++ events.map fun event => (⟨me, j, event⟩ : Entry)).filter (·.workspace = i) =
      log.filter (·.workspace = i) := by
  have hnone : (events.map fun event => (⟨me, j, event⟩ : Entry)).filter (·.workspace = i) = [] := by
    refine List.filter_eq_nil_iff.2 fun e he => ?_
    obtain ⟨event, -, rfl⟩ := List.mem_map.1 he
    simpa using hij.symm
  rw [List.filter_append, hnone, List.append_nil]

/-- A step of a call here is a step of the scene. -/
theorem HasScene.goes (h : v.HasScene i s) {me : JobId} (a : Advance) :
    (v.after me i a).HasScene i (s.after me a) := by
  have hi := (List.getElem?_eq_some_iff.1 h.workspace).1
  refine ⟨List.getElem?_set_self hi, fun other c => ?_, ?_⟩
  · by_cases hme : other = me
    · subst hme
      rw [Scene.after_calls_self]
      simp only [after, Function.update_self]
      cases a.progress <;> simp
    · rw [Scene.after_calls_of_ne _ _ hme, after_calls_of_ne _ _ _ hme, h.calls]
  · have hevents : (a.events.map fun event => (⟨me, i, event⟩ : Entry)).filter (·.workspace = i) =
        a.events.map fun event => (⟨me, i, event⟩ : Entry) := by
      refine List.filter_eq_self.2 fun e he => ?_
      obtain ⟨event, -, rfl⟩ := List.mem_map.1 he
      simp
    show s.log ++ a.events = _
    simp [after, List.filter_append, hevents, h.log, Function.comp_def]

/-- A step of a call elsewhere leaves the scene alone. -/
theorem HasScene.aside (h : v.HasScene i s) {me : JobId} {j : Nat} {c : Call} (hij : i ≠ j)
    (hc : v.calls me = some (j, c)) (a : Advance) : (v.after me j a).HasScene i s := by
  refine ⟨(List.getElem?_set_ne (Ne.symm hij)).trans h.workspace, h.calls_update ?_ ?_, ?_⟩
  · rintro c' hc'
    cases hc.symm.trans hc'
    exact hij rfl
  · intro c'
    cases a.progress with
    | going => exact fun heq => hij (by cases heq; rfl)
    | done => nofun
  · show s.log = ((v.log ++ _).filter _).map _
    rw [filter_log_elsewhere hij, h.log]

/-- Every move is a step of each scene. -/
theorem HasScene.move (h : v.HasScene i s) (hm : Move t v v' ended) :
    ∃ s', v'.HasScene i s' ∧ Scene.Step t i s s' (ended.filter (·.place = i)) := by
  cases hm with
  | adds slices => exact ⟨s, h.adding slices, .rests⟩
  | activates active => exact ⟨s, ⟨h.workspace, h.calls, h.log⟩, .rests⟩
  | @unloads j ws cause hw =>
    by_cases hij : i = j
    · subst hij
      cases hw.symm.trans h.workspace
      have hi := (List.getElem?_eq_some_iff.1 hw).1
      let s' : Scene := { s with workspace := { s.workspace with unload := s.workspace.unload.cancel cause } }
      exact ⟨s', ⟨List.getElem?_set_self hi, h.calls, h.log⟩, .unloads cause⟩
    · exact ⟨s, ⟨(List.getElem?_set_ne (Ne.symm hij)).trans h.workspace, h.calls, h.log⟩, .rests⟩
  | @begins me j request hc hr =>
    by_cases hij : j = i
    · subst hij
      have hnone : s.calls me = none := by
        cases hs : s.calls me with
        | none => rfl
        | some c => exact absurd (hc.symm.trans ((h.calls me c).1 hs)) nofun
      let s' : Scene := { s with calls := Function.update s.calls me (some (.start request)) }
      refine ⟨s', ⟨h.workspace, fun other c => ?_, h.log⟩, .begins hnone hr⟩
      show Function.update s.calls me _ other = some c ↔ Function.update v.calls me _ other = some _
      by_cases hme : other = me
      · subst hme
        simp [Function.update_self]
      · simp only [Function.update_of_ne hme, h.calls]
    · have hscene : (v.withCall me (some (j, .start request))).HasScene i s :=
        ⟨h.workspace, h.calls_update (fun c => by rw [hc]; nofun) fun c heq => hij (by cases heq; rfl), h.log⟩
      exact ⟨s, hscene, .rests⟩
  | @misses me j c slices hc hw =>
    have hij : j ≠ i := by
      rintro rfl
      exact absurd (hw.symm.trans h.workspace) nofun
    have hstep : Scene.Step t i s s [] := .rests
    have hscene : (v.withCall me none).HasScene i s := by
      refine ⟨h.workspace, h.calls_update (fun c' hc' => ?_) nofun, h.log⟩
      cases hc.symm.trans hc'
      exact hij rfl
    refine ⟨s, hscene.adding slices, ?_⟩
    · rwa [List.filter_cons_of_neg (by simpa using hij)]
  | @steps env me j c ws slices he hc hw =>
    by_cases hij : i = j
    · subst hij
      cases hw.symm.trans h.workspace
      have hstep : Scene.Step t i s (s.after me (c.advance t.setup env me v.session s.workspace)) _ :=
        .goes he ((h.calls me c).2 hc)
      refine ⟨_, (h.goes _).adding slices, ?_⟩
      rwa [List.filter_eq_self.2]
      intro e hmem
      simp [Advance.mem_endings hmem]
    · have hstep : Scene.Step t i s s [] := .rests
      refine ⟨s, (h.aside hij hc _).adding slices, ?_⟩
      · rw [List.filter_eq_nil_iff.2]
        · exact hstep
        · intro e hmem
          simpa [Advance.mem_endings hmem] using Ne.symm hij

/-- A place without a workspace: calls on it have done nothing, nothing has happened there. -/
structure Vacant (v : View) (i : Nat) : Prop where
  workspace : v.workspaces[i]? = none
  calls : ∀ me c, v.calls me = some (i, c) → ∃ request, c = .start request
  log : ∀ e ∈ v.log, e.workspace ≠ i

/-- A move leaves a place without a workspace so, or brings a new workspace. -/
theorem Vacant.move (h : v.Vacant i) (hm : Move t v v' ended) :
    v'.Vacant i ∨ ∃ s, v'.HasScene i s ∧ s.Fresh := by
  have hle := List.getElem?_eq_none_iff.1 h.workspace
  -- what is vacant stays so until a workspace is added in its place
  have adding {v : View} (h : v.Vacant i) (slices : List Slice) :
      (v.adding slices).Vacant i ∨ ∃ s, (v.adding slices).HasScene i s ∧ s.Fresh := by
    have hle := List.getElem?_eq_none_iff.1 h.workspace
    cases hw : (v.adding slices).workspaces[i]? with
    | none => exact .inl ⟨hw, h.calls, h.log⟩
    | some ws =>
      right
      have hadded := hw
      simp only [View.adding] at hadded
      rw [List.getElem?_append_right hle, List.getElem?_map] at hadded
      obtain ⟨slice, -, rfl⟩ := Option.map_eq_some_iff.1 hadded
      obtain ⟨s, hs, hslice⟩ := exists_scene hw
      refine ⟨s, hs, ⟨slice, hslice⟩, fun me c hc => h.calls me c ((hs.calls me c).1 hc), ?_⟩
      rw [hs.log, List.map_eq_nil_iff, List.filter_eq_nil_iff]
      exact fun e he => by simpa using h.log e he
  cases hm with
  | adds slices => exact adding h slices
  | activates active => exact .inl ⟨h.workspace, h.calls, h.log⟩
  | unloads cause hw =>
    exact .inl ⟨List.getElem?_eq_none_iff.2 (by rwa [List.length_set]), h.calls, h.log⟩
  | @begins me j request hc hr =>
    refine .inl ⟨h.workspace, fun other c hcall => ?_, h.log⟩
    by_cases hme : other = me
    · subst hme
      rw [withCall_calls_self] at hcall
      cases hcall
      exact ⟨request, rfl⟩
    · rw [withCall_calls_of_ne _ _ hme] at hcall
      exact h.calls other c hcall
  | @misses me j c slices hc hw =>
    have hvacant : (v.withCall me none).Vacant i := by
      refine ⟨h.workspace, fun other c' hcall => ?_, h.log⟩
      by_cases hme : other = me
      · subst hme
        rw [withCall_calls_self] at hcall
        cases hcall
      · rw [withCall_calls_of_ne _ _ hme] at hcall
        exact h.calls other c' hcall
    exact adding hvacant slices
  | @steps env me j c ws slices he hc hw =>
    have hij : i ≠ j := by
      rintro rfl
      cases h.workspace.symm.trans hw
    refine adding (v := v.after me j _) ⟨?_, fun other c' hcall => ?_, fun e he => ?_⟩ slices
    · exact List.getElem?_eq_none_iff.2 (by simpa [after] using hle)
    · by_cases hme : other = me
      · subst hme
        exact absurd (after_calls_self hcall).1 hij
      · rw [after_calls_of_ne _ _ _ hme] at hcall
        exact h.calls other c' hcall
    · rcases List.mem_append.1 he with he | he
      · exact h.log e he
      · obtain ⟨event, -, rfl⟩ := List.mem_map.1 he
        exact hij.symm

end View

/-! ## Runs, seen from all calls on one workspace -/

/-- The scene in a place has this property, with the calls on it that ended so far; or there is no workspace
yet, and no call on it went well. -/
def View.Plays (v : View) (i : Nat) (P : Scene → List Ending → Prop) (past : List Ending) : Prop :=
  v.Vacant i ∧ (∀ e ∈ past, ∃ error, e.result = .error error) ∨ ∃ s, v.HasScene i s ∧ P s past

namespace World

variable {t : Terms} {w : World} {i : Nat} {P : Scene → List Ending → Prop} {acts : List Act}
  {past : List Ending}

theorem vacant_initial (setup : Setup) (i : Nat) : (initial setup).view.Vacant i :=
  ⟨rfl, fun _ _ h => (by cases h), fun _ h => absurd h List.not_mem_nil⟩

/-- What holds of a fresh scene and is kept by every step holds after all acts. -/
theorem plays_runFrom (hk : w.Keeps t)
    (start : ∀ {s past}, s.Fresh → (∀ e ∈ past, ∃ error, e.result = .error error) → P s past)
    (step : ∀ {s s' past ended}, P s past → Scene.Step t i s s' ended → P s' (past ++ ended))
    (hp : w.view.Plays i P past) (ha : ∀ a ∈ acts, a.Within t) :
    (runFrom w acts).Keeps t ∧
      (runFrom w acts).view.Plays i P (past ++ (endingsFrom w acts).filter (·.place = i)) := by
  refine runFrom_keeps (Q := fun w past => w.view.Plays i P past) (fun {w a past} hk hwithin hp => ?_) hk hp ha
  have hm := perform_moves hk hwithin
  obtain ⟨hv, he⟩ | ⟨s, hs, hP⟩ := hp
  · have he' := View.errors_of_absent hm hv.workspace he
    rcases hv.move hm with hv' | ⟨s, hs, hfresh⟩
    · exact .inl ⟨hv', he'⟩
    · exact .inr ⟨s, hs, start hfresh he'⟩
  · obtain ⟨s', hs', hst⟩ := hs.move hm
    exact .inr ⟨s', hs', step hP hst⟩

/-- What holds of a fresh scene and is kept by every step holds in every run. -/
theorem plays_run
    (start : ∀ {s past}, s.Fresh → (∀ e ∈ past, ∃ error, e.result = .error error) → P s past)
    (step : ∀ {s s' past ended}, P s past → Scene.Step t i s s' ended → P s' (past ++ ended))
    (ha : ∀ a ∈ acts, a.Within t) :
    (run t.setup acts).Keeps t ∧
      (run t.setup acts).view.Plays i P ((history t.setup acts).filter (·.place = i)) :=
  plays_runFrom (keeps_initial t) start step
    (.inl ⟨vacant_initial t.setup i, fun _ he => absurd he List.not_mem_nil⟩) ha

end World

end SliceSync
