import SliceSync.Proofs.Playing
/-!
# The host shuts down

When the scripts have come to their end the host tears down one workspace after the other. Each context that is owed its
disposal gets it, and no other is made meanwhile; a driver that still waits ends as soon as unload is requested at its
place, and the host waits for it no longer than that (`World.WindsUp.advance`).
-/

namespace SliceSync

open Event (tellings creations)

/-! ## Teardown of a workspace that nobody holds -/

theorem Workspace.creations_unregister (w : Workspace) : creations w.unregister.2 = [] := by
  unfold unregister
  cases w.owner <;> rfl

/-- The first part of a teardown requests unload; what it finds alive goes. -/
theorem Call.advance_dispose {ws : Workspace} (setup : Setup) (session : Session) (me : JobId) (cause : DisposeCause)
    (hl : ws.lock = {}) :
    ∃ a : Advance, (Call.start (.dispose cause)).advance setup {} me session ws = a ∧ a.workspace.unload.cause.isSome ∧
      creations a.events = [] ∧
      ((ws.status = .disposed ∨ ws.context = none) ∧ a.progress = .done (.ok .done) ∧ a.workspace.lock = {} ∨
        ∃ handle, ws.context = some handle ∧ a.progress = .going ⟨.dispose cause, .releasing handle⟩ ∧
          a.workspace.lock = ⟨some me, []⟩ ∧ .context handle.serial .dispose ∈ a.events) := by
  refine ⟨_, rfl, ?_⟩
  have hadvance : (Call.start (.dispose cause)).advance setup {} me session ws =
      (Call.start (.dispose cause)).conclude setup
        (({ ws with unload := ws.unload.cancel cause, lock := ⟨some me, []⟩ } : Workspace).beginDispose session) := by
    simp only [Call.advance, Call.start, Call.askLock, hl, Lock.request, Option.isNone_none, if_true]
    rfl
  have hcause : (ws.unload.cancel cause).cause.isSome := by simp [UnloadToken.cancel]
  rw [hadvance]
  unfold Workspace.beginDispose
  dsimp only
  split
  · rename_i hstatus
    exact ⟨hcause, rfl, .inl ⟨.inl hstatus, rfl, rfl⟩⟩
  · split
    · rename_i handle hcontext
      exact ⟨hcause, rfl, .inr ⟨handle, hcontext, rfl, rfl, List.mem_singleton.2 rfl⟩⟩
    · rename_i hcontext
      refine ⟨hcause, ?_, .inl ⟨.inr hcontext, rfl, rfl⟩⟩
      simpa [Call.conclude, Call.report] using Workspace.creations_unregister _

/-- The rest of a teardown, once the context is gone. -/
theorem Call.advance_releasing {ws : Workspace} (setup : Setup) (session : Session) (me : JobId) (cause : DisposeCause)
    (handle : ContextHandle) (hl : ws.lock = ⟨some me, []⟩) :
    ∃ a : Advance, Call.advance setup {} me ⟨.dispose cause, .releasing handle⟩ session ws = a ∧
      a.workspace.status = ws.status ∧ a.workspace.context = ws.context ∧ a.workspace.unload = ws.unload ∧
      creations a.events = [] ∧ a.progress = .done (.ok .done) ∧ a.workspace.lock = {} := by
  refine ⟨_, rfl, rfl, rfl, rfl, ?_, rfl, ?_⟩
  · have hreleased : creations (session.finishRelease handle).2 = [] := by
      refine List.filterMap_eq_nil_iff.2 fun e he => ?_
      obtain ⟨m, -, rfl⟩ := List.mem_map.1 he
      rfl
    change creations ((session.finishRelease handle).2 ++ ws.unregister.2 ++ []) = []
    rw [List.append_nil, Event.creations_append, hreleased, Workspace.creations_unregister]
    rfl
  · change ws.lock.release = {}
    rw [hl]
    rfl

namespace World

/-- How the driver in a place stands while the host shuts down: it has ended, or waits until unload is requested. -/
inductive Departs (w : World) (todo : List Nat) (i : Nat) : Prop
  | ended (he : (w.exitOf i).isSome) (hj : w.job? (i + 1) = none)
  | waits {threshold : Nat} (hw : (w.workspace? i).isSome)
      (hj : w.job? (i + 1) = some (.drive { workspace := i, pair := i, holdback := { threshold } }))
      (hp : w.source.pairs[i]? = some .silent) (ha : i ∈ todo ∨ (w.unloadOf i).isSome)

/-- Where a shutdown stands, with the places it has still to ask for unload, and the one whose lock it holds. -/
inductive Winds (w : World) (me : JobId) (size : Nat) : List Nat → Option Nat → Prop
  | starts (hj : w.job? me = some (.host (.starting .shutdown))) (hl : w.slots.lock = {}) :
      Winds w me size w.slots.live.values none
  | drains (rest : List Nat) (hj : w.job? me = some (.host (.draining rest))) : Winds w me size rest none
  | enters (rest : List Nat) (i : Nat)
      (hj : w.job? me = some (.host (.closing rest i (.disposing (.start (.dispose .unload)))))) :
      Winds w me size (i :: rest) none
  | releases (rest : List Nat) (i : Nat) (handle : ContextHandle) (hi : i < size)
      (hj : w.job? me = some (.host (.closing rest i (.disposing ⟨.dispose .unload, .releasing handle⟩))))
      (ha : (w.unloadOf i).isSome) : Winds w me size rest (some i)
  | claims (rest : List Nat) (i : Nat) (hi : i < size) (hj : w.job? me = some (.host (.closing rest i .claiming)))
      (ha : (w.unloadOf i).isSome) : Winds w me size rest none
  | joins (rest : List Nat) (i : Nat) (hi : i < size) (hj : w.job? me = some (.host (.closing rest i .joining)))
      (ha : (w.unloadOf i).isSome) : Winds w me size rest none
  | returned (hj : w.job? me = none) (ho : w.outcome? me = some (.hosted (.ok .done))) : Winds w me size [] none

/-- A world in which a host shuts down, with nobody else at work but drivers that wait. -/
structure WindsUp (w : World) (me : JobId) (size : Nat) (owed : Set (Nat × Nat)) (made : List (Nat × CreationParams))
    (todo : List Nat) (held : Option Nat) : Prop where
  opens : w.source.canOpen = true
  made : creations w.events = made
  locks : ∀ i < size, ∀ ws, w.workspace? i = some ws → ws.lock = if held = some i then ⟨some me, []⟩ else {}
  /-- The contexts that are owed their disposal, by place and number. -/
  owed : ∀ c ∈ owed, .context c.2 .dispose ∈ w.events ∨ c.1 ∈ todo ∧
    ∃ ws handle, w.workspace? c.1 = some ws ∧ ws.status ≠ .disposed ∧ ws.context = some handle ∧ handle.serial = c.2
  departs : ∀ i < size, w.Departs todo i
  jobs : ∀ other, (w.job? other).isSome → other = me ∨ ∃ i < size, other = i + 1
  places : ∀ i ∈ todo, i < size
  winds : w.Winds me size todo held

variable {w w' v : World} {me : JobId} {size : Nat} {owed : Set (Nat × Nat)} {made : List (Nat × CreationParams)}
  {todo todo' : List Nat} {held held' : Option Nat} {i : Nat}

theorem Departs.workspace (h : w.Departs todo i) : ∃ ws, w.workspace? i = some ws := by
  cases h with
  | waits hw => exact Option.isSome_iff_exists.1 hw
  | ended he =>
    unfold exitOf at he
    unfold workspace?
    cases hh : w.hosted[i]? with
    | none => simp [hh] at he
    | some h => exact ⟨_, rfl⟩

/-- A step of the host's call that leaves workspaces and streams as they are. -/
theorem WindsUp.aside {next : Option Job} (h : w.WindsUp me size owed made todo held) (hme : size < me)
    (hworkspace : ∀ i, v.workspace? i = w.workspace? i) (hexit : ∀ i, v.exitOf i = w.exitOf i)
    (hsource : v.source = w.source) (hlog : v.log = w.log) (hj : v.job? = Function.update w.job? me next)
    (hs : v.Winds me size todo held) : v.WindsUp me size owed made todo held := by
  have hevents : v.events = w.events := congrArg (List.map _) hlog
  have hdriver {i : Nat} (hi : i < size) : v.job? (i + 1) = w.job? (i + 1) := by
    rw [hj, Function.update_of_ne (Nat.ne_of_lt (Nat.lt_of_le_of_lt (Nat.succ_le_of_lt hi) hme))]
  refine
    { opens := hsource ▸ h.opens
      made := hevents ▸ h.made
      locks := fun i hi ws hws => h.locks i hi ws (hworkspace i ▸ hws)
      owed := fun c hc => ?_
      departs := fun i hi => ?_
      jobs := fun other ho => ?_
      places := h.places
      winds := hs }
  · rw [hevents, hworkspace]
    exact h.owed c hc
  · cases h.departs i hi with
    | ended he hj' => exact .ended (hexit i ▸ he) ((hdriver hi).trans hj')
    | waits hw hj' hp ha =>
      have hunload : v.unloadOf i = w.unloadOf i := by rw [unloadOf, hworkspace, unloadOf]
      exact .waits (hworkspace i ▸ hw) ((hdriver hi).trans hj') (hsource ▸ hp) (hunload ▸ ha)
  · by_cases hne : other = me
    · exact .inl hne
    · rw [hj, Function.update_of_ne hne] at ho
      exact h.jobs other ho

/-- A step of the teardown in a place that unload is requested of. -/
theorem WindsUp.tears {next : Option Job} {h₀ : Hosted} {a : Advance} (h : w.WindsUp me size owed made todo held)
    (hme : size < me) (hi : i < size) (hhosted : w.hosted[i]? = some h₀) (hcalled : w.Called i h₀ a w') (hb : Beside w' v)
    (hj : v.job? = Function.update w.job? me next) (hunload : a.workspace.unload.cause.isSome)
    (hmade : creations a.events = []) (hlock : a.workspace.lock = if held' = some i then ⟨some me, []⟩ else {})
    (hheld : ∀ j ≠ i, held = some j ↔ held' = some j) (htodo : ∀ j ∈ todo', j ∈ todo)
    (hrest : ∀ j ∈ todo, j = i ∨ j ∈ todo')
    (howed : ∀ c ∈ owed, c.1 = i → .context c.2 .dispose ∈ w'.events ∨ c.1 ∈ todo' ∧
      ∃ handle, a.workspace.status ≠ .disposed ∧ a.workspace.context = some handle ∧ handle.serial = c.2)
    (hs : (v.unloadOf i).isSome → v.Winds me size todo' held') :
    v.WindsUp me size owed made todo' held' := by
  have hevents : v.events = w.events ++ a.events := (congrArg (List.map _) hb.log).trans hcalled.events
  have hworkspace {j : Nat} (hne : j ≠ i) : v.workspace? j = w.workspace? j := by
    rw [workspace?, hb.hosted, hcalled.hosted_of_ne hne, workspace?]
  have hself : v.workspace? i = some a.workspace := by
    rw [← hcalled.workspace hhosted, workspace?, hb.hosted, workspace?]
  have hexit (j : Nat) : v.exitOf j = w.exitOf j := by
    rw [← hcalled.exitOf hhosted, exitOf, hb.hosted, exitOf]
  have hdriver {j : Nat} (hj' : j < size) : v.job? (j + 1) = w.job? (j + 1) := by
    rw [hj, Function.update_of_ne (Nat.ne_of_lt (Nat.lt_of_le_of_lt (Nat.succ_le_of_lt hj') hme))]
  have hasked : (v.unloadOf i).isSome := by rwa [unloadOf, hself, Option.bind_some]
  refine
    { opens := (hb.source.trans hcalled.source).symm ▸ h.opens
      made := ?_
      locks := fun j hj' ws hws => ?_
      owed := fun c hc => ?_
      departs := fun j hj' => ?_
      jobs := fun other ho => ?_
      places := fun j hj' => h.places j (htodo j hj')
      winds := hs hasked }
  · rw [hevents, Event.creations_append, hmade, List.append_nil, h.made]
  · by_cases hne : j = i
    · subst hne
      cases hself.symm.trans hws
      exact hlock
    · rw [hworkspace hne] at hws
      simpa only [hheld j hne] using h.locks j hj' ws hws
  · by_cases hne : c.1 = i
    · refine (howed c hc hne).imp (fun hin => ?_) ?_
      · rwa [World.events, hb.log]
      · rintro ⟨hin, handle, hstatus, hcontext, hserial⟩
        exact ⟨hin, _, handle, hne.symm ▸ hself, hstatus, hcontext, hserial⟩
    · rw [hevents, hworkspace hne]
      refine (h.owed c hc).imp (List.mem_append_left _) ?_
      rintro ⟨hin, hws⟩
      exact ⟨(hrest _ hin).resolve_left hne, hws⟩
  · cases h.departs j hj' with
    | ended he hgone => exact .ended (hexit j ▸ he) ((hdriver hj').trans hgone)
    | waits hw hdrives hp ha =>
      have hp : v.source.pairs[j]? = some .silent := by rw [hb.source, hcalled.source, hp]
      by_cases hne : j = i
      · subst hne
        exact .waits (by rw [hself]; rfl) ((hdriver hj').trans hdrives) hp (.inr hasked)
      · refine .waits (hworkspace hne ▸ hw) ((hdriver hj').trans hdrives) hp (ha.imp (fun hin => ?_) fun hu => ?_)
        · exact (hrest j hin).resolve_left hne
        · rwa [unloadOf, hworkspace hne]
  · by_cases hne : other = me
    · exact .inl hne
    · rw [hj, Function.update_of_ne hne] at ho
      exact h.jobs other ho

/-- Claiming the exit of a driver shows nowhere but in the claim. -/
theorem workspace?_claimed (w : World) (i j : Nat) :
    (w.modifyHosted i fun h => { h with claimed := true }).workspace? j = w.workspace? j := by
  unfold workspace? modifyHosted
  rw [List.getElem?_modify]
  cases w.hosted[j]? with
  | none => rfl
  | some h => split <;> rfl

theorem exitOf_claimed (w : World) (i j : Nat) :
    (w.modifyHosted i fun h => { h with claimed := true }).exitOf j = w.exitOf j := by
  unfold exitOf modifyHosted
  rw [List.getElem?_modify]
  cases w.hosted[j]? with
  | none => rfl
  | some h => split <;> rfl

/-- A step of the shutdown that leaves all workspaces as they are, and with which it goes on. -/
theorem WindsUp.goes {c c' : HostCall} (h : w.WindsUp me size owed made todo none) (hme : size < me) (hf : w.Fit)
    (hj : w.job? me = some (.host c)) (ha : w.advanceHost {} me c = (w', .going c'))
    (hw : ∀ i, w'.workspace? i = w.workspace? i) (he : ∀ i, w'.exitOf i = w.exitOf i) (hsource : w'.source = w.source)
    (hjobs : w'.jobs = w.jobs) (hlog : w'.log = w.log)
    (hs : ∀ v : World, v.job? me = some (.host c') → (∀ i, v.unloadOf i = w.unloadOf i) → v.Winds me size todo none) :
    (w.advance {} me).WindsUp me size owed made todo none := by
  obtain ⟨hb, hjob, -⟩ := advance_host_going hf hj ha
  rw [show w'.job? = w.job? from congrArg Job.among hjobs] at hjob
  have hworkspace (i : Nat) : (w.advance {} me).workspace? i = w.workspace? i := by
    rw [← hw, workspace?, hb.hosted, workspace?]
  refine h.aside hme hworkspace (fun i => ?_) (hb.source.trans hsource) (hb.log.trans hlog) hjob (hs _ ?_ fun i => ?_)
  · rw [← he, exitOf, hb.hosted, exitOf]
  · rw [hjob, Function.update_self]
  · rw [unloadOf, hworkspace, unloadOf]

/-- A step of the shutdown that is one of the teardown in a place that unload is requested of. -/
theorem WindsUp.closes {rest : List Nat} {r r' : Retirement} {h₀ : Hosted} {a : Advance}
    (h : w.WindsUp me size owed made todo held) (hme : size < me) (hf : w.Fit) (hi : i < size)
    (hj : w.job? me = some (.host (.closing rest i r))) (hhosted : w.hosted[i]? = some h₀) (hcalled : w.Called i h₀ a w')
    (ha : w.advanceHost {} me (.closing rest i r) = (w', .going (.closing rest i r')))
    (hunload : a.workspace.unload.cause.isSome) (hmade : creations a.events = [])
    (hlock : a.workspace.lock = if held' = some i then ⟨some me, []⟩ else {})
    (hheld : ∀ j ≠ i, held = some j ↔ held' = some j) (htodo : ∀ j ∈ rest, j ∈ todo) (hrest : ∀ j ∈ todo, j = i ∨ j ∈ rest)
    (howed : ∀ c ∈ owed, c.1 = i → .context c.2 .dispose ∈ w'.events ∨ c.1 ∈ rest ∧
      ∃ handle, a.workspace.status ≠ .disposed ∧ a.workspace.context = some handle ∧ handle.serial = c.2)
    (hs : ∀ v : World, v.job? me = some (.host (.closing rest i r')) → (v.unloadOf i).isSome →
      v.Winds me size rest held') :
    (w.advance {} me).WindsUp me size owed made rest held' := by
  obtain ⟨hb, hjob, -⟩ := advance_host_going hf hj ha
  rw [show w'.job? = w.job? from congrArg Job.among hcalled.jobs] at hjob
  refine h.tears hme hi hhosted hcalled hb hjob hunload hmade hlock hheld htodo hrest howed (hs _ ?_)
  rw [hjob, Function.update_self]

/-- The shutdown asks a place for unload; a context in it that is owed its disposal gets it at once. -/
theorem WindsUp.enters {rest : List Nat} (h : w.WindsUp me size owed made (i :: rest) none) (hme : size < me) (hf : w.Fit)
    (hj : w.job? me = some (.host (.closing rest i (.disposing (.start (.dispose .unload)))))) :
    ∃ held', (w.advance {} me).WindsUp me size owed made rest held' := by
  have hi : i < size := h.places i List.mem_cons_self
  obtain ⟨ws, hws⟩ := (h.departs i hi).workspace
  obtain ⟨h₀, hhosted, rfl⟩ := Option.map_eq_some_iff.1 hws
  have hlock : h₀.workspace.lock = {} := h.locks i hi _ hws
  obtain ⟨a, ha, hunload, hmade, hends⟩ := Call.advance_dispose w.setup w.session me .unload hlock
  obtain ⟨w', hcall, hcalled⟩ := advanceCall_at hhosted {} me (.start (.dispose .unload))
  rw [ha] at hcall hcalled
  have howed (hdisposes : ∀ handle, h₀.workspace.status ≠ .disposed → h₀.workspace.context = some handle →
      .context handle.serial .dispose ∈ a.events) (c : Nat × Nat) (hc : c ∈ owed) (heq : c.1 = i) :
      .context c.2 .dispose ∈ w'.events := by
    rw [hcalled.events]
    rcases h.owed c hc with hin | ⟨-, ws, handle, hws', hstatus, hcontext, hserial⟩
    · exact List.mem_append_left _ hin
    · rw [heq] at hws'
      cases hws.symm.trans hws'
      exact List.mem_append_right _ (hserial ▸ hdisposes handle hstatus hcontext)
  have hrest : ∀ j ∈ i :: rest, j = i ∨ j ∈ rest := fun j => List.mem_cons.1
  rcases hends with ⟨hnothing, hprogress, hlock'⟩ | ⟨handle, hcontext, hprogress, hlock', hdisposed⟩
  · -- nothing is alive there
    have hadvance : w.advanceHost {} me (.closing rest i (.disposing (.start (.dispose .unload)))) =
        (w', .going (.closing rest i .claiming)) := by
      simp only [advanceHost, advanceRetirement, hcall, hprogress]
    refine ⟨none, h.closes hme hf hi hj hhosted hcalled hadvance hunload hmade hlock' (fun _ _ => Iff.rfl)
      (fun _ => List.mem_cons_of_mem _) hrest (fun c hc heq => .inl (howed (fun handle hstatus hcontext => ?_) c hc heq))
      fun v hv hasked => .claims rest i hi hv hasked⟩
    rcases hnothing with hgone | hnone
    · exact absurd hgone hstatus
    · cases hcontext.symm.trans hnone
  · have hadvance : w.advanceHost {} me (.closing rest i (.disposing (.start (.dispose .unload)))) =
        (w', .going (.closing rest i (.disposing ⟨.dispose .unload, .releasing handle⟩))) := by
      simp only [advanceHost, advanceRetirement, hcall, hprogress]
    refine ⟨some i, h.closes hme hf hi hj hhosted hcalled hadvance hunload hmade ?_ (fun j hne => ?_)
      (fun _ => List.mem_cons_of_mem _) hrest (fun c hc heq => .inl (howed (fun handle' _ hcontext' => ?_) c hc heq))
      fun v hv hasked => .releases rest i handle hi hv hasked⟩
    · rw [hlock', if_pos rfl]
    · simp [hne.symm]
    · cases hcontext.symm.trans hcontext'
      exact hdisposed

/-- The teardown that the shutdown has begun ends, and with it what the shutdown holds of the workspace. -/
theorem WindsUp.releases {handle : ContextHandle} (h : w.WindsUp me size owed made todo (some i)) (hme : size < me)
    (hf : w.Fit) (hi : i < size)
    (hj : w.job? me = some (.host (.closing todo i (.disposing ⟨.dispose .unload, .releasing handle⟩))))
    (hu : (w.unloadOf i).isSome) : (w.advance {} me).WindsUp me size owed made todo none := by
  obtain ⟨ws, hws⟩ := (h.departs i hi).workspace
  obtain ⟨h₀, hhosted, rfl⟩ := Option.map_eq_some_iff.1 hws
  have hlock : h₀.workspace.lock = ⟨some me, []⟩ := by simpa using h.locks i hi _ hws
  have hasked : h₀.workspace.unload.cause.isSome := by rwa [unloadOf, hws, Option.bind_some] at hu
  obtain ⟨a, ha, hstatus, hcontext, hunload, hmade, hprogress, hlock'⟩ :=
    Call.advance_releasing w.setup w.session me .unload handle hlock
  obtain ⟨w', hcall, hcalled⟩ := advanceCall_at hhosted {} me ⟨.dispose .unload, .releasing handle⟩
  rw [ha] at hcall hcalled
  have hadvance : w.advanceHost {} me (.closing todo i (.disposing ⟨.dispose .unload, .releasing handle⟩)) =
      (w', .going (.closing todo i .claiming)) := by
    simp only [advanceHost, advanceRetirement, hcall, hprogress]
  refine h.closes hme hf hi hj hhosted hcalled hadvance (hunload ▸ hasked) hmade hlock' (fun j hne => ?_)
    (fun _ hin => hin) (fun _ => .inr) (fun c hc heq => ?_) fun v hv hasked => .claims todo i hi hv hasked
  · simp [hne.symm]
  · rw [hcalled.events, hstatus, hcontext]
    refine (h.owed c hc).imp (List.mem_append_left _) ?_
    rintro ⟨hin, ws, handle, hws', hrest⟩
    rw [heq] at hws'
    cases hws.symm.trans hws'
    exact ⟨hin, handle, hrest⟩

/-- With no place left the shutdown ends. -/
theorem WindsUp.returns (h : w.WindsUp me size owed made [] none) (hme : size < me) (hf : w.Fit) (hn : w.Numbered)
    (hj : w.job? me = some (.host (.draining []))) : (w.advance {} me).WindsUp me size owed made [] none := by
  have ha : w.advanceHost {} me (.draining []) = (w, .done (.ok .done)) := rfl
  obtain ⟨hb, hjob, -⟩ := advance_host_done hf hj ha
  have houtcome := outcome?_host hn (hostAt_eq_some_iff.2 hj) (congrArg Prod.snd ha)
  refine h.aside hme (fun i => ?_) (fun i => ?_) hb.source hb.log hjob (.returned ?_ houtcome)
  · rw [workspace?, hb.hosted, workspace?]
  · rw [exitOf, hb.hosted, exitOf]
  · rw [hjob, Function.update_self]

/-- A step of the shutdown itself. -/
theorem WindsUp.advance_host (h : w.WindsUp me size owed made todo held) (hme : size < me) (hf : w.Fit) (hn : w.Numbered) :
    ∃ todo' held', (w.advance {} me).WindsUp me size owed made todo' held' := by
  cases h.winds with
  | starts hj hl =>
    have ha : w.advanceHost {} me (.starting .shutdown) =
        ({ w with slots := { w.slots with live := ∅, lock := {} } }, .going (.draining w.slots.live.values)) := by
      simp [advanceHost, startHost, askSlots, hl, Lock.request, performSlotTask, unlockSlots, Lock.release]
    exact ⟨_, _, h.goes hme hf hj ha (fun _ => rfl) (fun _ => rfl) rfl rfl rfl fun v hv _ => .drains _ hv⟩
  | drains _ hj =>
    cases todo with
    | nil => exact ⟨_, _, h.returns hme hf hn hj⟩
    | cons i rest =>
      have ha : w.advanceHost {} me (.draining (i :: rest)) = (w, .going (.closing rest i (beginRetirement .unload))) := rfl
      exact ⟨_, _, h.goes hme hf hj ha (fun _ => rfl) (fun _ => rfl) rfl rfl rfl fun v hv _ => .enters rest i hv⟩
  | enters rest i hj => exact ⟨_, h.enters hme hf hj⟩
  | releases _ i handle hi hj hu => exact ⟨_, _, h.releases hme hf hi hj hu⟩
  | claims _ i hi hj hu =>
    obtain ⟨ws, hws⟩ := (h.departs i hi).workspace
    obtain ⟨h₀, hhosted, rfl⟩ := Option.map_eq_some_iff.1 hws
    cases hclaimed : h₀.claimed with
    | true =>
      have ha : w.advanceHost {} me (.closing todo i .claiming) = (w, .going (.draining todo)) := by
        simp only [advanceHost, advanceRetirement, hhosted, hclaimed, if_true]
      exact ⟨_, _, h.goes hme hf hj ha (fun _ => rfl) (fun _ => rfl) rfl rfl rfl fun v hv _ => .drains todo hv⟩
    | false =>
      have ha : w.advanceHost {} me (.closing todo i .claiming) =
          (w.modifyHosted i fun h => { h with claimed := true }, .going (.closing todo i .joining)) := by
        simp [advanceHost, advanceRetirement, hhosted, hclaimed]
      exact ⟨_, _, h.goes hme hf hj ha (workspace?_claimed w i) (exitOf_claimed w i) rfl rfl rfl
        fun v hv hv' => .joins todo i hi hv ((hv' i).symm ▸ hu)⟩
  | joins _ i hi hj hu =>
    cases he : w.exitOf i with
    | none =>
      have ha : w.advanceHost {} me (.closing todo i .joining) = (w, .going (.closing todo i .joining)) := by
        rw [exitOf] at he
        simp only [advanceHost, advanceRetirement, he]
      exact ⟨_, _, h.goes hme hf hj ha (fun _ => rfl) (fun _ => rfl) rfl rfl rfl
        fun v hv hv' => .joins todo i hi hv ((hv' i).symm ▸ hu)⟩
    | some exit =>
      have ha : w.advanceHost {} me (.closing todo i .joining) = (w, .going (.draining todo)) := by
        rw [exitOf] at he
        simp only [advanceHost, advanceRetirement, he]
      exact ⟨_, _, h.goes hme hf hj ha (fun _ => rfl) (fun _ => rfl) rfl rfl rfl fun v hv _ => .drains todo hv⟩
  | returned hj ho =>
    rw [advance_of_none hj]
    exact ⟨_, _, h⟩

/-- A driver that waits goes on exactly when unload is requested at its place. -/
theorem canAdvance_waiting {threshold : Nat}
    (hj : w.job? (i + 1) = some (.drive { workspace := i, pair := i, holdback := { threshold } }))
    (hp : w.source.pairs[i]? = some .silent) : w.canAdvance {} (i + 1) = (w.unloadOf i).isSome := by
  have hready (kind : UpdateKind) : w.source.isReady i kind = false := by
    rw [Source.isReady, hp]
    cases kind <;> rfl
  simp [canAdvance, hj, isJobStuck, isDriverStuck, readyKind, hready]

theorem Winds.congr (h : w.Winds me size todo held) (hj : v.job? me = w.job? me) (hslots : v.slots = w.slots)
    (hunload : ∀ i, v.unloadOf i = w.unloadOf i)
    (ho : ∀ outcome, w.outcome? me = some outcome → v.outcome? me = some outcome) : v.Winds me size todo held := by
  cases h with
  | starts hj' hl => exact hslots ▸ .starts (hj.trans hj') (hslots.symm ▸ hl)
  | drains _ hj' => exact .drains _ (hj.trans hj')
  | enters rest i hj' => exact .enters rest i (hj.trans hj')
  | releases _ i handle hi hj' ha => exact .releases _ i handle hi (hj.trans hj') ((hunload i).symm ▸ ha)
  | claims _ i hi hj' ha => exact .claims _ i hi (hj.trans hj') ((hunload i).symm ▸ ha)
  | joins _ i hi hj' ha => exact .joins _ i hi (hj.trans hj') ((hunload i).symm ▸ ha)
  | returned hj' ho' => exact .returned (hj.trans hj') (ho _ ho')

/-- A driver that goes on ends. -/
theorem WindsUp.advance_driver (h : w.WindsUp me size owed made todo held) (hme : size < me) (hf : w.Fit) (hi : i < size)
    (hc : w.canAdvance {} (i + 1) = true) : (w.advance {} (i + 1)).WindsUp me size owed made todo held := by
  have hne : me ≠ i + 1 := Nat.ne_of_gt (Nat.lt_of_le_of_lt (Nat.succ_le_of_lt hi) hme)
  cases h.departs i hi with
  | ended _ hj =>
    have hsome := job?_isSome_of_canAdvance hc
    rw [hj] at hsome
    cases hsome
  | @waits threshold hw hj hp ha =>
    rw [canAdvance_waiting hj hp] at hc
    obtain ⟨cause, hcause⟩ := Option.isSome_iff_exists.1 hc
    have hadvance : w.advanceJob {} (i + 1) (.drive { workspace := i, pair := i, holdback := { threshold } }) =
        ((w.endDriver { workspace := i, pair := i, holdback := { threshold } } (.unloaded cause)).1,
          .done (.drove (.unloaded cause))) := by
      simp only [advanceJob, advanceDriver, hcause]
      rfl
    obtain ⟨hb, hjob⟩ := advance_keeping hf hj hadvance rfl
    have houtcomes := outcomes_advance {} hj
    rw [hadvance] at houtcomes
    generalize w.advance {} (i + 1) = v at hb hjob houtcomes ⊢
    have hhosted : v.hosted = w.hosted.modify i fun h => { h with exit := some (.unloaded cause) } := hb.hosted
    have hevents : v.events = w.events := congrArg (List.map _) hb.log
    have hworkspace (j : Nat) : v.workspace? j = w.workspace? j := by
      rw [workspace?, hhosted, List.getElem?_modify, workspace?]
      cases w.hosted[j]? with
      | none => rfl
      | some h => by_cases hij : i = j <;> simp [hij]
    have hunload (j : Nat) : v.unloadOf j = w.unloadOf j := by rw [unloadOf, hworkspace, unloadOf]
    refine
      { opens := hb.source.symm ▸ h.opens
        made := hevents ▸ h.made
        locks := fun j hj' ws hws => h.locks j hj' ws (hworkspace j ▸ hws)
        owed := fun c hc => ?_
        departs := fun j hj' => ?_
        jobs := fun other ho => ?_
        places := h.places
        winds := h.winds.congr ?_ hb.slots hunload fun outcome ho => ?_ }
    · rw [hevents, hworkspace]
      exact h.owed c hc
    · by_cases hij : j = i
      · subst hij
        refine .ended ?_ (by rw [hjob, Function.update_self]; rfl)
        obtain ⟨h₀, hhosted₀, -⟩ := Option.map_eq_some_iff.1 (Option.isSome_iff_exists.1 hw).choose_spec
        rw [exitOf, hhosted, List.getElem?_modify_eq, hhosted₀]
        rfl
      · have hdriver : v.job? (j + 1) = w.job? (j + 1) := by
          rw [hjob, Function.update_of_ne fun heq => hij (Nat.succ.inj heq)]
        cases h.departs j hj' with
        | ended he hgone =>
          refine .ended ?_ (hdriver.trans hgone)
          rwa [exitOf, hhosted, List.getElem?_modify_ne _ _ (Ne.symm hij)]
        | waits hw hdrives hp ha =>
          refine .waits (hworkspace j ▸ hw) (hdriver.trans hdrives) ?_ ((hunload j).symm ▸ ha)
          rw [hb.source]
          exact (List.getElem?_modify_ne _ _ (Ne.symm hij)).trans hp
    · by_cases hother : other = i + 1
      · exact .inr ⟨i, hi, hother⟩
      · rw [hjob, Function.update_of_ne hother] at ho
        exact h.jobs other ho
    · rw [hjob, Function.update_of_ne hne]
    · rw [outcome?_append _ _ houtcomes, ho]
      rfl

/-- Every step of a shutdown brings it ahead, or ends a driver that the host waits for. -/
theorem WindsUp.advance {other : JobId} (h : w.WindsUp me size owed made todo held) (hme : size < me) (hf : w.Fit)
    (hn : w.Numbered) (hc : w.canAdvance {} other = true) :
    ∃ todo' held', (w.advance {} other).WindsUp me size owed made todo' held' := by
  rcases h.jobs other (job?_isSome_of_canAdvance hc) with rfl | ⟨i, hi, rfl⟩
  · exact h.advance_host hme hf hn
  · exact ⟨todo, held, h.advance_driver hme hf hi hc⟩

/-- Where a driver is asked for unload and nobody can go on it has ended. -/
theorem Departs.ends (h : w.Departs todo i) (hrest : w.AtRest {}) (hu : (w.unloadOf i).isSome) : (w.exitOf i).isSome := by
  cases h with
  | ended he => exact he
  | waits _ hj hp =>
    have hstuck := hrest (i + 1)
    rw [canAdvance_waiting hj hp, hu] at hstuck
    cases hstuck

/-- With nobody able to go on the host has shut down. -/
theorem WindsUp.rests (h : w.WindsUp me size owed made todo held) (hrest : w.AtRest {}) : (w.outcome? me).isSome := by
  have hwinds := h.winds
  cases hwinds with
  | starts hj => cases hrest.stuck hj
  | drains _ hj => cases hrest.stuck hj
  | enters rest i hj =>
    have hstuck : w.isCallStuck {} me i (.start (.dispose .unload)) = true := hrest.stuck hj
    unfold isCallStuck at hstuck
    split at hstuck <;> cases hstuck
  | releases _ i handle hi hj =>
    have hstuck : w.isCallStuck {} me i ⟨.dispose .unload, .releasing handle⟩ = true := hrest.stuck hj
    unfold isCallStuck at hstuck
    split at hstuck <;> cases hstuck
  | claims _ i hi hj => cases hrest.stuck hj
  | joins _ i hi hj hu =>
    have hstuck : (w.exitOf i).isNone = true := hrest.stuck hj
    have hended := (h.departs i hi).ends hrest hu
    rw [Option.isNone_iff_eq_none.1 hstuck] at hended
    cases hended
  | returned _ ho => rw [ho, Option.isSome_some]

/-- When the host has shut down every context has got its disposal, and no other was made meanwhile. -/
theorem WindsUp.returned {outcome : Outcome} (h : w.WindsUp me size owed made todo held) (hn : w.Numbered)
    (ho : w.outcome? me = some outcome) : creations w.events = made ∧ ∀ c ∈ owed, .context c.2 .dispose ∈ w.events := by
  -- a call that is under way has no outcome
  have atWork {c : HostCall} (hj : w.job? me = some (.host c)) : False := by
    cases ho.symm.trans (hn.apart hj)
  refine ⟨h.made, fun c hc => (h.owed c hc).resolve_right fun hin => ?_⟩
  have hwinds := h.winds
  cases hwinds with
  | starts hj => exact atWork hj
  | drains _ hj => exact atWork hj
  | enters rest i hj => exact atWork hj
  | releases _ i handle hi hj => exact atWork hj
  | claims _ i hi hj => exact atWork hj
  | joins _ i hi hj => exact atWork hj
  | returned => cases hin.1

end World

end SliceSync
