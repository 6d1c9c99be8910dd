import SliceSync.Proofs.Chronicle
import SliceSync.Proofs.Outcomes
import SliceSync.Proofs.Renumbering
import SliceSync.Proofs.Writing
/-!
# Slices on their own

Workspaces that share a session can meet in the ids of their contexts only. Where the contexts of some workspaces
have ids that those of the others do not ask for, a run does to the others what it would do to them if none of the
calls on the first had been made (`World.independent`). The two runs are compared step by step: `World.Mirrors`
says what they have in common.
-/

namespace SliceSync

/-! ## A run without some of its calls -/

namespace Act

/-- Whether an act concerns workspaces that are called directly, without hosts and drivers. -/
def isDirect : Act → Bool
  | .addWorkspace _ | .call .. | .setActiveConfiguration _ | .setActiveEditor _ | .requestUnload .. | .advance .. => true
  | _ => false

/-- The places of the calls that some acts begin, by their numbers. -/
def begun (acts : List Act) : List Nat :=
  acts.filterMap fun
    | .call place _ => some place
    | _ => none

/-- The number that a job has where only calls on the places kept are begun. -/
def nameAmong (keep : Nat → Bool) (begun : List Nat) (me : JobId) : JobId := (begun.take me).countP keep

/-- What is left of an act where only calls on the places kept are made. -/
def stay (keep : Nat → Bool) (begun : List Nat) : Act → Option Act
  | .call place request => if keep place then some (.call place request) else none
  | .requestUnload place cause => if keep place then some (.requestUnload place cause) else none
  | .advance env me =>
    match begun[me]? with
    | some place => if keep place then some (.advance env (nameAmong keep begun me)) else none
    | none => none
  | act => some act

/-- Some acts without the calls on places that are not kept. -/
def only (keep : Nat → Bool) (acts : List Act) : List Act := acts.filterMap (stay keep (begun acts))

/-- The ids that evaluations in the places kept ask for. -/
def asked (keep : Nat → Bool) (acts : List Act) : List ContextId :=
  acts.filterMap fun
    | .call place request =>
      if keep place then request.evaluation?.bind fun e => e.creationParams.toOption.map (·.id) else none
    | _ => none

/-- What is left of an act concerns workspaces that are called directly, too. -/
theorem isDirect_stay {keep : Nat → Bool} {begun : List Nat} {a b : Act} (h : a.stay keep begun = some b)
    (ha : a.isDirect) : b.isDirect := by
  unfold stay at h
  split at h
  · split at h <;> cases h
    rfl
  · split at h <;> cases h
    rfl
  · split at h
    · split at h <;> cases h
      rfl
    · cases h
  · cases h
    exact ha

theorem mem_asked {keep : Nat → Bool} {acts : List Act} {i : Nat} {request : Request} {e : Evaluation}
    {params : CreationParams} (h : .call i request ∈ acts) (hk : keep i) (he : request.evaluation? = some e)
    (hp : e.creationParams = .ok params) : params.id ∈ asked keep acts :=
  List.mem_filterMap.2 ⟨_, h, by simp [hk, he, hp, Except.toOption]⟩

@[simp] theorem begun_append (l m : List Act) : begun (l ++ m) = begun l ++ begun m := List.filterMap_append

end Act

/-- An entry with another name for its job and without the number of its context. -/
def Entry.renamed (f : JobId → JobId) (e : Entry) : Entry := ⟨f e.job, e.workspace, e.event.unnumbered⟩

/-- The ids of the contexts created in places that are not kept. -/
def World.createdElsewhere (keep : Nat → Bool) (w : World) : List ContextId :=
  w.log.filterMap fun e =>
    match e.event with
    | .created _ params => if keep e.workspace then none else some params.id
    | _ => none

/-! ## Names -/

section Names

variable {keep : Nat → Bool} {begun : List Nat} {me other : JobId} {i j : Nat}

open Act (nameAmong)

variable (keep) in
theorem nameAmong_succ (hi : begun[me]? = some i) :
    nameAmong keep begun (me + 1) = nameAmong keep begun me + if keep i then 1 else 0 := by
  simp [nameAmong, List.take_add_one, hi, List.countP_append, List.countP_singleton]

theorem nameAmong_mono (h : me ≤ other) : nameAmong keep begun me ≤ nameAmong keep begun other :=
  (List.take_sublist_take_left h).countP_le

/-- Different calls that are kept have different names. -/
theorem nameAmong_inj (hi : begun[me]? = some i) (hk : keep i) (hj : begun[other]? = some j) (hk' : keep j)
    (h : nameAmong keep begun me = nameAmong keep begun other) : me = other := by
  have before {a b : JobId} {k : Nat} (hk : begun[a]? = some k) (hkeep : keep k) (hlt : a < b) :
      nameAmong keep begun a < nameAmong keep begun b := by
    have hsucc := nameAmong_succ keep hk
    rw [if_pos hkeep] at hsucc
    exact Nat.lt_of_lt_of_le (hsucc ▸ Nat.lt_succ_self _) (nameAmong_mono hlt)
  rcases Nat.lt_trichotomy me other with hlt | heq | hlt
  · exact absurd h (Nat.ne_of_lt (before hi hk hlt))
  · exact heq
  · exact absurd h.symm (Nat.ne_of_lt (before hj hk' hlt))

end Names

/-! ## Worlds without hosts and drivers -/

/-- What is noted of the end of a call. -/
def Advance.outcomes (me : JobId) (a : Advance) : List (JobId × Outcome) :=
  match a.progress with
  | .going _ => []
  | .done result => [(me, .answered result)]

/-- The view once the unload of a workspace has been requested. -/
def View.unloading (v : View) (i : Nat) (cause : DisposeCause) : View :=
  { v with workspaces := v.workspaces.modify i fun ws => { ws with unload := ws.unload.cancel cause } }

namespace World

variable {w : World} {env : Environment} {me : JobId} {i : Nat} {c : Call}

theorem view_unloading (w : World) (i : Nat) (cause : DisposeCause) :
    (w.requestUnload i cause).view = w.view.unloading i cause := by
  have hmodify : (w.hosted.modify i fun h => { h with workspace := { h.workspace with unload := h.workspace.unload.cancel cause } }).map
      (·.workspace) = (w.hosted.map (·.workspace)).modify i fun ws => { ws with unload := ws.unload.cancel cause } := by
    refine List.ext_getElem? fun j => ?_
    rw [List.getElem?_map, List.getElem?_modify, List.getElem?_modify, List.getElem?_map]
    by_cases hij : i = j <;> cases w.hosted[j]? <;> simp [hij]
  simp only [requestUnload, modifyHosted, view, View.unloading, hmodify]

/-- A step of a call is all that is seen of an advance of its job. -/
theorem advance_call {ws : Workspace} (env : Environment) (hj : w.job? me = some (.call i c))
    (hw : w.view.workspaces[i]? = some ws) :
    (w.advance env me).view = w.view.after me i (c.advance w.setup env me w.session ws) ∧
      (w.advance env me).outcomes = w.outcomes ++ (c.advance w.setup env me w.session ws).outcomes me := by
  have hwi : w.view.workspaces[i]? = (w.hosted[i]?).map (·.workspace) := List.getElem?_map
  obtain ⟨h, hi, rfl⟩ := Option.map_eq_some_iff.1 (hwi.symm.trans hw)
  have hsome : (Job.among w.jobs me).isSome := Option.isSome_iff_exists.2 ⟨_, hj⟩
  have hhosted (ws : Workspace) : (w.hosted.set i { h with workspace := ws }).map (·.workspace) =
      (w.hosted.map (·.workspace)).set i ws := by rw [List.map_set]
  unfold advance
  rw [hj]
  simp only [advanceJob, advanceCall, hi, Advance.outcomes, View.after]
  generalize c.advance w.setup env me w.session h.workspace = a
  obtain ⟨session, ws, events, c' | result⟩ := a
  · simp [view, hhosted, Job.callIn_map hsome, Job.call?]
  · simp only [view, hhosted, Job.callIn_filter, and_self]

theorem advance_missing (env : Environment) (hj : w.job? me = some (.call i c)) (hw : w.view.workspaces[i]? = none) :
    (w.advance env me).view = w.view.withCall me none ∧
      (w.advance env me).outcomes = w.outcomes ++ [(me, .answered (.error .disposed))] := by
  have hi : w.hosted[i]? = none := by
    have hwi : w.view.workspaces[i]? = (w.hosted[i]?).map (·.workspace) := List.getElem?_map
    simpa [hwi] using hw
  unfold advance
  rw [hj]
  simp only [advanceJob, advanceCall, hi]
  simp only [view, View.withCall, Job.callIn_filter, and_self]

end World

/-! ## Views that agree in the places kept -/

/-- A call in a place, but for numbers. -/
def Call.unnumberedAt (call : Nat × Call) : Nat × Call := (call.1, call.2.unnumbered)

/-- The call that goes on in a place, if it does. -/
def Progress.callAt (i : Nat) : Progress → Option (Nat × Call)
  | .going c => some (i, c)
  | .done _ => none

theorem Progress.callAt_unnumbered {p p' : Progress} (h : p'.unnumbered = p.unnumbered) (i : Nat) :
    (p'.callAt i).map Call.unnumberedAt = (p.callAt i).map Call.unnumberedAt := by
  cases p with
  | going c =>
    cases p' with
    | going c' =>
      have hc : c'.unnumbered = c.unnumbered := by injection h
      simp [callAt, Call.unnumberedAt, hc]
    | done result => cases h
  | done result =>
    cases p' with
    | going c => cases h
    | done result' => rfl

namespace View

open Act (nameAmong)

/-- The second view shows what the first does in the places kept, but for numbers, and no calls elsewhere. -/
structure Mirrors (keep : Nat → Bool) (begun : List Nat) (v v' : View) : Prop where
  active : v'.session.active = v.session.active
  size : v'.workspaces.length = v.workspaces.length
  workspaces : ∀ {i ws}, keep i → v.workspaces[i]? = some ws →
    ∃ n, v'.workspaces[i]? = some (ws.renumbered (nameAmong keep begun) n)
  calls : ∀ {me i}, begun[me]? = some i → keep i →
    (v'.calls (nameAmong keep begun me)).map Call.unnumberedAt = (v.calls me).map Call.unnumberedAt
  onto : ∀ {me' call}, v'.calls me' = some call →
    ∃ me i, begun[me]? = some i ∧ keep i ∧ nameAmong keep begun me = me'
  log : (v.log.filter (keep ·.workspace)).map (·.renamed (nameAmong keep begun)) = v'.log.map (·.renamed id)

namespace Mirrors

variable {keep : Nat → Bool} {begun : List Nat} {v v' u : View} {me : JobId} {i : Nat} {ws : Workspace}

theorem missing (h : v.Mirrors keep begun v') (hw : v.workspaces[i]? = none) : v'.workspaces[i]? = none := by
  rw [List.getElem?_eq_none_iff] at hw ⊢
  rwa [h.size]

/-- What happens in other places only is not mirrored. -/
theorem aside (h : v.Mirrors keep begun v') (ha : u.session.active = v.session.active)
    (hs : u.workspaces.length = v.workspaces.length) (hw : ∀ i, keep i → u.workspaces[i]? = v.workspaces[i]?)
    (hc : ∀ me i, begun[me]? = some i → keep i → u.calls me = v.calls me)
    (hl : u.log.filter (keep ·.workspace) = v.log.filter (keep ·.workspace)) : u.Mirrors keep begun v' :=
  ⟨h.active.trans ha.symm, h.size.trans hs.symm, fun hk hu => h.workspaces hk (hw _ hk ▸ hu),
    fun hi hk => hc _ _ hi hk ▸ h.calls hi hk, h.onto, hl ▸ h.log⟩

theorem adding (h : v.Mirrors keep begun v') (slice : Slice) : (v.adding [slice]).Mirrors keep begun (v'.adding [slice]) := by
  refine ⟨h.active, by simp [View.adding, h.size], fun {i ws} hk hw => ?_, h.calls, h.onto, h.log⟩
  simp only [View.adding, List.map_cons, List.map_nil] at hw ⊢
  rw [List.getElem?_append] at hw ⊢
  rw [h.size]
  split at hw
  · rename_i hlt
    rw [if_pos hlt]
    exact h.workspaces hk hw
  · rename_i hlt
    rw [if_neg hlt]
    obtain ⟨-, rfl⟩ : i - v.workspaces.length = 0 ∧ ({ slice } : Workspace) = ws := by
      simpa [List.getElem?_singleton] using hw
    exact ⟨0, hw⟩

theorem activates (h : v.Mirrors keep begun v') {active active' : ActiveSlices} (ha : active' = active) :
    Mirrors keep begun { v with session := { v.session with active } }
      { v' with session := { v'.session with active := active' } } :=
  ⟨ha, h.size, h.workspaces, h.calls, h.onto, h.log⟩

/-- A workspace in a place that is kept changes alike in both views. -/
theorem workspaces_set (h : v.Mirrors keep begun v') (ws : Workspace) (n : Nat) {j : Nat} {ws' : Workspace} (hk : keep j)
    (hw : (v.workspaces.set i ws)[j]? = some ws') :
    ∃ m, (v'.workspaces.set i (ws.renumbered (nameAmong keep begun) n))[j]? =
      some (ws'.renumbered (nameAmong keep begun) m) := by
  rw [List.getElem?_set] at hw ⊢
  rw [h.size]
  by_cases hij : i = j
  · rw [if_pos hij] at hw ⊢
    split at hw
    · rename_i hlt
      cases hw
      exact ⟨n, if_pos hlt⟩
    · cases hw
  · rw [if_neg hij] at hw ⊢
    exact h.workspaces hk hw

/-- Unload is requested in a place that is kept. -/
theorem unloads (h : v.Mirrors keep begun v') (i : Nat) (cause : DisposeCause) :
    (v.unloading i cause).Mirrors keep begun (v'.unloading i cause) := by
  refine ⟨h.active, by simp [unloading, h.size], fun {j ws'} hj hw => ?_, h.calls, h.onto, h.log⟩
  simp only [unloading, List.getElem?_modify] at hw ⊢
  obtain ⟨ws, hws, rfl⟩ := Option.map_eq_some_iff.1 hw
  obtain ⟨n, hws'⟩ := h.workspaces hj hws
  rw [hws']
  by_cases hij : i = j
  · exact ⟨n, by simp [hij, Workspace.renumbered]⟩
  · exact ⟨n, by simp [hij]⟩

/-- Unload is requested in another place. -/
theorem unloads_aside (h : v.Mirrors keep begun v') (hk : keep i = false) (cause : DisposeCause) :
    (v.unloading i cause).Mirrors keep begun v' := by
  refine h.aside rfl (by simp [unloading]) (fun j hj => ?_) (fun _ _ _ _ => rfl) rfl
  have hij : i ≠ j := fun hij => by simp [hij, hj] at hk
  simp [unloading, hij]

/-- The calls after that of a job that is kept has changed in both views. -/
theorem calls_update (h : v.Mirrors keep begun v') (hi : begun[me]? = some i) (hk : keep i) {call call' : Option (Nat × Call)}
    (hcall : call'.map Call.unnumberedAt = call.map Call.unnumberedAt) :
    (∀ {other j}, begun[other]? = some j → keep j →
      (Function.update v'.calls (nameAmong keep begun me) call' (nameAmong keep begun other)).map Call.unnumberedAt =
        (Function.update v.calls me call other).map Call.unnumberedAt) ∧
    ∀ {me' c}, Function.update v'.calls (nameAmong keep begun me) call' me' = some c →
      ∃ me i, begun[me]? = some i ∧ keep i ∧ nameAmong keep begun me = me' := by
  constructor
  · intro other j hj hkj
    by_cases hother : other = me
    · rw [hother, Function.update_self, Function.update_self, hcall]
    · rw [Function.update_of_ne hother, Function.update_of_ne fun heq => hother (nameAmong_inj hj hkj hi hk heq)]
      exact h.calls hj hkj
  · intro me' c hc
    by_cases hme : me' = nameAmong keep begun me
    · exact ⟨me, i, hi, hk, hme.symm⟩
    · rw [Function.update_of_ne hme] at hc
      exact h.onto hc

theorem withCall (h : v.Mirrors keep begun v') (hi : begun[me]? = some i) (hk : keep i) (call : Option (Nat × Call)) :
    (v.withCall me call).Mirrors keep begun (v'.withCall (nameAmong keep begun me) call) :=
  have hcalls := h.calls_update hi hk (show call.map Call.unnumberedAt = call.map Call.unnumberedAt from rfl)
  ⟨h.active, h.size, h.workspaces, hcalls.1, hcalls.2, h.log⟩

/-- A call in a place that is kept takes the same step in both views. -/
theorem after (h : v.Mirrors keep begun v') (hi : begun[me]? = some i) (hk : keep i) {a a' : Advance}
    (ha : a.Alike (nameAmong keep begun) a') :
    (v.after me i a).Mirrors keep begun (v'.after (nameAmong keep begun me) i a') := by
  obtain ⟨session, ws, events, progress⟩ := a
  obtain ⟨session', ws', events', progress'⟩ := a'
  obtain ⟨hactive, ⟨n, hws⟩, hevents, hprogress⟩ := ha
  dsimp only at hactive hws hevents hprogress
  subst hws
  have hcalls := h.calls_update hi hk (Progress.callAt_unnumbered hprogress i)
  refine ⟨hactive, by simp [View.after, h.size], h.workspaces_set ws n, hcalls.1, hcalls.2, ?_⟩
  show ((v.log ++ events.map fun event => (⟨me, i, event⟩ : Entry)).filter (keep ·.workspace)).map _ =
    (v'.log ++ events'.map fun event => (⟨nameAmong keep begun me, i, event⟩ : Entry)).map _
  have hfilter : (events.map fun event => (⟨me, i, event⟩ : Entry)).filter (keep ·.workspace) =
      events.map fun event => ⟨me, i, event⟩ := by
    refine List.filter_eq_self.2 fun e he => ?_
    obtain ⟨event, -, rfl⟩ := List.mem_map.1 he
    exact hk
  have hmap := congrArg (List.map fun event => (⟨nameAmong keep begun me, i, event⟩ : Entry)) hevents
  rw [List.filter_append, List.map_append, List.map_append, h.log, hfilter]
  simpa [Entry.renamed, Function.comp_def] using hmap.symm

/-- A step of a call in another place is not mirrored. -/
theorem after_aside (h : v.Mirrors keep begun v') (hi : begun[me]? = some i) (hk : keep i = false) {a : Advance}
    (ha : a.session.active = v.session.active) : (v.after me i a).Mirrors keep begun v' := by
  refine h.aside ha (by simp [View.after]) (fun j hj => ?_) (fun other j hother hj => ?_) ?_
  · exact List.getElem?_set_ne fun hij => by simp [hij, hj] at hk
  · refine Function.update_of_ne (fun heq => ?_) ..
    cases (heq ▸ hother).symm.trans hi
    simp [hj] at hk
  · show ((v.log ++ _).filter _) = _
    rw [List.filter_append, List.append_right_eq_self, List.filter_eq_nil_iff]
    intro e he
    obtain ⟨event, -, rfl⟩ := List.mem_map.1 he
    simp [hk]

theorem withCall_aside (h : v.Mirrors keep begun v') (hi : begun[me]? = some i) (hk : keep i = false)
    (call : Option (Nat × Call)) : (v.withCall me call).Mirrors keep begun v' := by
  refine h.aside rfl rfl (fun _ _ => rfl) (fun other j hother hj => ?_) rfl
  refine Function.update_of_ne (fun heq => ?_) ..
  cases (heq ▸ hother).symm.trans hi
  simp [hj] at hk

end Mirrors

end View

/-! ## Runs without hosts and drivers -/

theorem Request.passage_active (setup : Setup) (env : Environment) (session : Session) (w : Workspace) (request : Request) :
    (request.passage setup env session w).session.active = session.active := by
  have h := request.enters setup env session w
  generalize request.passage setup env session w = p at h ⊢
  cases h with
  | receives hr =>
    cases hr with
    | creates ha hu hc hs => exact (Session.create_live hs).2.2
    | _ => rfl
  | _ => rfl

/-- No call says which slices are active. -/
theorem Call.Paths.active {setup : Setup} {env : Environment} {me : JobId} {c : Call} {session : Session} {w : Workspace}
    {a : Advance} (h : c.Paths setup env me session w a) : a.session.active = session.active := by
  cases h with
  | enters | succeeds => rw [Call.conclude_session, Request.passage_active]
  | closes => rw [Call.conclude_session, (Workspace.close_heard ..).1]
  | parts => rw [Call.conclude_session]; rfl
  | _ => rfl

namespace World

open Act (begun)

variable {setup : Setup} {acts : List Act} {w : World} {env : Environment} {me : JobId} {i : Nat} {c : Call}

/-- Nothing is at work but the calls that some acts have begun. -/
structure Direct (acts : List Act) (w : World) : Prop where
  jobs : ∀ e ∈ w.jobs, ∃ i c, e.2 = .call i c
  next : w.nextJob = (begun acts).length
  placed : ∀ {me i c}, w.view.calls me = some (i, c) → (begun acts)[me]? = some i ∧ .call i c.request ∈ acts

theorem Direct.job? (h : w.Direct acts) (hc : w.view.calls me = some (i, c)) : w.job? me = some (.call i c) := by
  obtain ⟨job, hj, hcall⟩ := Option.bind_eq_some_iff.1 hc
  obtain ⟨j, d, hjob⟩ := h.jobs _ (job?_mem hj)
  obtain rfl : job = .call j d := hjob
  cases hcall
  exact hj

theorem Direct.job?_none (h : w.Direct acts) (hc : w.view.calls me = none) : w.job? me = none := by
  cases hj : w.job? me with
  | none => rfl
  | some job =>
    obtain ⟨j, d, hjob⟩ := h.jobs _ (job?_mem hj)
    obtain rfl : job = .call j d := hjob
    have : w.view.calls me = some (j, d) := by
      show (w.job? me).bind Job.call? = _
      rw [hj]
      rfl
    exact absurd (hc.symm.trans this) nofun

theorem Direct.advance_none (h : w.Direct acts) (hc : w.view.calls me = none) : w.advance env me = w := by
  rw [advance, h.job?_none hc]

theorem Direct.jobs_advance (h : w.Direct acts) (env : Environment) (me : JobId) :
    (∀ e ∈ (w.advance env me).jobs, ∃ i c, e.2 = .call i c) ∧ (w.advance env me).nextJob = w.nextJob := by
  cases hj : w.job? me with
  | none =>
    rw [advance_of_none hj]
    exact ⟨h.jobs, rfl⟩
  | some job =>
    obtain ⟨i, c, hjob⟩ := h.jobs _ (job?_mem hj)
    obtain rfl : job = .call i c := hjob
    obtain ⟨-, hjobs, hnext⟩ := w.advanceCall_grows env me i c
    obtain ⟨jobs, outcomes, hadvance⟩ := advance_eq env hj
    refine ⟨fun e he => ?_, ?_⟩
    · obtain he | ⟨job', hgo, rfl⟩ := mem_jobs_advance hj he
      · rw [advanceJob_call, hjobs] at he
        exact h.jobs e he
      · rw [advanceJob_call] at hgo
        obtain ⟨c', -, rfl⟩ := Onward.bimap_eq_going_iff.1 hgo
        exact ⟨i, c', rfl⟩
    · rw [hadvance, advanceJob_call]
      exact hnext

/-- In a run without hosts and drivers all that is at work are calls, each in its place. -/
theorem direct_run (ha : ∀ a ∈ acts, a.isDirect) : (run setup acts).Direct acts := by
  induction acts using List.reverseRecOn with
  | nil => exact ⟨fun _ he => absurd he List.not_mem_nil, rfl, fun hc => by cases hc⟩
  | append_singleton acts a ih =>
    have ih := ih fun b hb => ha b (List.mem_append_left _ hb)
    have ha : a.isDirect := ha a (by simp)
    have earlier {me : JobId} {i : Nat} {c : Call} (hc : (run setup acts).view.calls me = some (i, c)) :
        (begun (acts ++ [a]))[me]? = some i ∧ .call i c.request ∈ acts ++ [a] := by
      obtain ⟨hi, hmem⟩ := ih.placed hc
      rw [Act.begun_append, List.getElem?_append_left (List.getElem?_eq_some_iff.1 hi).1]
      exact ⟨hi, List.mem_append_left _ hmem⟩
    have hk := (tidy_run setup acts).1
    rw [run_concat]
    cases a with
    | call place request =>
      refine ⟨fun e he => ?_, by simp [perform, spawn, ih.next, begun], fun {me i c} hc => ?_⟩
      · rcases List.mem_append.1 he with he | he
        · exact ih.jobs e he
        · cases List.mem_singleton.1 he
          exact ⟨_, _, rfl⟩
      · have hv : ((run setup acts).perform (.call place request)).view = _ := view_spawn_call hk.fresh _
        rw [hv] at hc
        by_cases hme : me = (run setup acts).nextJob
        · simp only [hme, View.withCall, Function.update_self, Job.call?] at hc
          cases hc
          simp [hme, ih.next, begun, Call.start]
        · simp only [View.withCall, Function.update_of_ne hme] at hc
          exact earlier hc
    | advance env me =>
      obtain ⟨hjobs, hnext⟩ := ih.jobs_advance env me
      refine ⟨hjobs, by simp [perform, hnext, ih.next, begun], fun {other i c'} hc' => ?_⟩
      change ((run setup acts).advance env me).view.calls other = some (i, c') at hc'
      cases hc : (run setup acts).view.calls me with
      | none => exact earlier (by rwa [ih.advance_none hc] at hc')
      | some call =>
        obtain ⟨j, c⟩ := call
        by_cases hother : other = me
        · rw [hother] at hc' ⊢
          cases hw : (run setup acts).view.workspaces[j]? with
          | none =>
            simp only [(advance_missing env (ih.job? hc) hw).1, View.withCall, Function.update_self] at hc'
            cases hc'
          | some ws =>
            obtain ⟨s, hs, rfl, horderly⟩ := orderly_run setup acts hw
            have hcall := (hs.calls me c).2 hc
            simp only [(advance_call env (ih.job? hc) hw).1, View.after, Function.update_self] at hc'
            split at hc'
            · rename_i next hgo
              cases hc'
              have hpaths := Call.paths (run setup acts).setup env me (run setup acts).session s.workspace (horderly.fit hcall)
              rw [(Scene.fit_goes (t := ⟨(run setup acts).setup, True, fun _ => True⟩) (horderly.fit hcall) hpaths hgo).2]
              exact earlier hc
            · cases hc'
        · exact earlier ((callAt_advance_of_ne hk trivial hother).symm.trans hc')
    | addWorkspace slice =>
      exact ⟨ih.jobs, by simp [perform, addWorkspace, ih.next, begun], fun hc => earlier hc⟩
    | setActiveConfiguration slice | setActiveEditor slice =>
      exact ⟨ih.jobs, by simp [perform, setActiveConfiguration, setActiveEditor, ih.next, begun], fun hc => earlier hc⟩
    | requestUnload place cause =>
      exact ⟨ih.jobs, by simp [perform, requestUnload, modifyHosted, ih.next, begun], fun hc => earlier hc⟩
    | _ => cases ha

/-! ## The ids of contexts -/

/-- What has been logged stays. -/
theorem log_later (setup : Setup) (acts more : List Act) : (run setup acts).log <+: (run setup (acts ++ more)).log := by
  induction more using List.reverseRecOn with
  | nil => simp
  | append_singleton more a ih =>
    refine ih.trans ?_
    rw [← List.append_assoc, run_concat]
    rcases log_perform (tidy_run setup (acts ++ more)).1 (within_freely setup a) with hlog | ⟨_, _, _, _, _, -, -, -, hlog⟩
    · exact hlog ▸ List.prefix_rfl
    · exact hlog ▸ List.prefix_append ..

/-- A context was created in the place that bears its id. -/
theorem created_of_bears {id : ContextId} (h : (run setup acts).view.Bears i id) :
    ∃ e ∈ (run setup acts).log, e.workspace = i ∧ ∃ serial params, e.event = .created serial params ∧ params.id = id := by
  obtain ⟨ws, hw⟩ : ∃ ws, (run setup acts).view.workspaces[i]? = some ws := by
    rcases h with ⟨ws, -, hw, -⟩ | ⟨me, c, handle, hc, hp, -⟩
    · exact ⟨ws, hw⟩
    · obtain ⟨ws, hw, -⟩ := (tidy_run setup acts).2.1.locked hc (by rw [hp]; rfl)
      exact ⟨ws, hw⟩
  obtain ⟨s, hs, -, horderly⟩ := orderly_run setup acts hw
  obtain ⟨parting, hparting, hstory⟩ := told_run setup acts hs
  have found {serial : Nat} {params : CreationParams} (hm : .created serial params ∈ Event.milestones s.log)
      (hid : params.id = id) : ∃ e ∈ (run setup acts).log, e.workspace = i ∧
        ∃ serial params, e.event = .created serial params ∧ params.id = id := by
    have hmem : .created serial params ∈ s.log := (List.mem_filter.1 hm).1
    rw [hs.log, List.mem_map] at hmem
    obtain ⟨e, he, hevent⟩ := hmem
    obtain ⟨he, hi⟩ := List.mem_filter.1 he
    exact ⟨e, he, by simpa using hi, serial, params, hevent, hid⟩
  generalize Event.milestones s.log = l at hstory found
  rcases (hs.bears id).1 h with ⟨handle, hc, hid⟩ | ⟨me, c, handle, hc, hp, hid⟩
  · cases hstory with
    | early hstatus => exact absurd (hc.symm.trans (horderly.regular.uninitialized hstatus).2.1) nofun
    | bare _ hnone => exact absurd (hc.symm.trans hnone) nofun
    | @housed handle' params _ hc' hm =>
      cases hc.symm.trans hc'
      exact found (List.mem_append_right _ (List.mem_singleton.2 rfl)) (hm.id.symm.trans hid)
    | parting hstatus | past hstatus | gone hstatus =>
      exact absurd (hc.symm.trans (horderly.regular.disposed hstatus)) nofun
  · have hpart := (hparting handle).2 ⟨me, c, hc, hp⟩
    cases hstory with
    | parting _ hm =>
      cases hpart
      exact found (List.mem_append_right _ (List.mem_cons_self ..)) (hm.id.symm.trans hid)
    | _ => cases hpart

end World

namespace View.Mirrors

open Act (nameAmong)

variable {keep : Nat → Bool} {begun : List Nat} {v v' : View} {i : Nat} {id : ContextId}

/-- The ids borne in the places kept are the same. -/
theorem bears (h : v.Mirrors keep begun v') (hp : ∀ {me i c}, v.calls me = some (i, c) → begun[me]? = some i)
    (hk : keep i) : v'.Bears i id ↔ v.Bears i id := by
  have parting {handle' : ContextHandle} {c c' : Call} (hc : c'.unnumbered = c.unnumbered)
      (hphase : c'.phase = .releasing handle') (hid : handle'.id = id) :
      ∃ handle, c.phase = .releasing handle ∧ handle.id = id := by
    have hunnumbered := (Call.unnumbered_eq hc).2
    rw [hphase] at hunnumbered
    cases hcp : c.phase with
    | releasing handle =>
      rw [hcp] at hunnumbered
      have heq : handle'.numbered 0 = handle.numbered 0 := by injection hunnumbered
      exact ⟨handle, rfl, (ContextHandle.numbered_eq heq).1.symm.trans hid⟩
    | _ => simp [hcp, Phase.unnumbered] at hunnumbered
  refine or_congr ⟨?_, ?_⟩ ⟨?_, ?_⟩
  · rintro ⟨ws', handle', hw', hc', hid⟩
    cases hw : v.workspaces[i]? with
    | none => cases (h.missing hw).symm.trans hw'
    | some ws =>
      obtain ⟨n, hwn⟩ := h.workspaces hk hw
      obtain rfl := Option.some.inj (hwn.symm.trans hw')
      obtain ⟨handle, hc, rfl⟩ := Option.map_eq_some_iff.1 hc'
      exact ⟨ws, handle, rfl, hc, hid⟩
  · rintro ⟨ws, handle, hw, hc, hid⟩
    obtain ⟨n, hw'⟩ := h.workspaces hk hw
    exact ⟨_, handle.numbered n, hw', by simp [Workspace.renumbered, hc], hid⟩
  · rintro ⟨me', c', handle', hc', hphase, hid⟩
    obtain ⟨me, j, hj, hkj, rfl⟩ := h.onto hc'
    have hcalls := h.calls hj hkj
    rw [hc'] at hcalls
    obtain ⟨⟨j', c⟩, hc, heq⟩ := Option.map_eq_some_iff.1 hcalls.symm
    obtain ⟨rfl, hcall⟩ : j' = i ∧ c.unnumbered = c'.unnumbered := by simpa [Call.unnumberedAt] using heq
    obtain ⟨handle, hphase, hid⟩ := parting hcall.symm hphase hid
    exact ⟨me, c, handle, hc, hphase, hid⟩
  · rintro ⟨me, c, handle, hc, hphase, hid⟩
    have hcalls := h.calls (hp hc) hk
    rw [hc] at hcalls
    obtain ⟨⟨j', c'⟩, hc', heq⟩ := Option.map_eq_some_iff.1 hcalls
    obtain ⟨rfl, hcall⟩ : j' = i ∧ c'.unnumbered = c.unnumbered := by simpa [Call.unnumberedAt] using heq
    obtain ⟨handle', hphase, hid⟩ := parting hcall.symm hphase hid
    exact ⟨_, c', handle', hc', hphase, hid⟩

end View.Mirrors

/-! ## Two runs side by side -/

/-- What is noted of the end of a step does not hang on numbers. -/
theorem Advance.Alike.outcomes {f : JobId → JobId} {a a' : Advance} (h : a.Alike f a') (me : JobId) :
    a'.outcomes (f me) = (a.outcomes me).map fun o => (f o.1, o.2) := by
  have hprogress := h.progress
  unfold Advance.outcomes
  cases hp : a.progress with
  | going c =>
    cases hp' : a'.progress with
    | going c' => rfl
    | done result => rw [hp, hp'] at hprogress; cases hprogress
  | done result =>
    cases hp' : a'.progress with
    | going c => rw [hp, hp'] at hprogress; cases hprogress
    | done result' =>
      rw [hp, hp'] at hprogress
      obtain rfl : result' = result := by injection hprogress
      rfl

namespace World

open Act (begun nameAmong)

/-- The outcomes of the calls on the places kept, with the names of their jobs among those. -/
def outcomesIn (keep : Nat → Bool) (begun : List Nat) (w : World) : List (JobId × Outcome) :=
  (w.outcomes.filter fun o => (begun[o.1]?).any keep).map fun o => (nameAmong keep begun o.1, o.2)

/-- The second world is what the first would be without the calls on places that are not kept. -/
structure Mirrors (keep : Nat → Bool) (begun : List Nat) (w w' : World) : Prop where
  view : w.view.Mirrors keep begun w'.view
  setup : w'.setup = w.setup
  next : w'.nextJob = nameAmong keep begun w.nextJob
  outcomes : w.outcomesIn keep begun = w'.outcomes

variable {keep : Nat → Bool} {places : List Nat} {w w' u u' : World} {setup : Setup} {acts : List Act}
  {env : Environment} {me : JobId} {i : Nat} {c c' : Call}

theorem outcomesIn_append {noted : List (JobId × Outcome)} (h : u.outcomes = w.outcomes ++ noted)
    (hi : places[me]? = some i) (hk : keep i) (hme : ∀ o ∈ noted, o.1 = me) :
    u.outcomesIn keep places = w.outcomesIn keep places ++ noted.map fun o => (nameAmong keep places o.1, o.2) := by
  have hall : noted.filter (fun o => (places[o.1]?).any keep) = noted :=
    List.filter_eq_self.2 fun o ho => by simp [hme o ho, hi, hk]
  rw [outcomesIn, h, List.filter_append, hall, List.map_append]
  rfl

theorem outcomesIn_aside {noted : List (JobId × Outcome)} (h : u.outcomes = w.outcomes ++ noted)
    (hi : places[me]? = some i) (hk : keep i = false)
    (hme : ∀ o ∈ noted, o.1 = me) : u.outcomesIn keep places = w.outcomesIn keep places := by
  have hnone : noted.filter (fun o => (places[o.1]?).any keep) = [] :=
    List.filter_eq_nil_iff.2 fun o ho => by simp [hme o ho, hi, hk]
  rw [outcomesIn, h, List.filter_append, hnone, List.append_nil]
  rfl

theorem mem_outcomes {a : Advance} {o : JobId × Outcome} (h : o ∈ a.outcomes me) : o.1 = me := by
  unfold Advance.outcomes at h
  split at h
  · cases h
  · rw [List.mem_singleton.1 h]

/-- A step of a call on a place that is kept is taken in both worlds. -/
theorem Mirrors.advance {acts' : List Act} {t : Terms} (h : w.Mirrors keep places w') (hd : w.Direct acts)
    (hd' : w'.Direct acts') (hw : w.Keeps t) (hw' : w'.Keeps t) (he : t.fits env) (hi : places[me]? = some i) (hk : keep i)
    (hp : ∀ {j c}, w.view.calls me = some (j, c) → j = i)
    (hlock : ∀ {ws}, w.view.workspaces[i]? = some ws → ws.lock.Apart (nameAmong keep places) me)
    (hask : ∀ {c e}, w.view.calls me = some (i, c) → c.request.evaluation? = some e → e.AsksAlike w.session w'.session) :
    (w.advance env me).Mirrors keep places (w'.advance env (nameAmong keep places me)) := by
  have hcalls := h.view.calls hi hk
  have hnext := (hd.jobs_advance env me).2
  have hnext' := (hd'.jobs_advance env (nameAmong keep places me)).2
  have hsetup : (w.advance env me).setup = t.setup := (keeps_advance hw he).setup
  have hsetup' : (w'.advance env (nameAmong keep places me)).setup = t.setup := (keeps_advance hw' he).setup
  suffices (w.advance env me).view.Mirrors keep places (w'.advance env (nameAmong keep places me)).view ∧
      (w.advance env me).outcomesIn keep places = (w'.advance env (nameAmong keep places me)).outcomes from
    ⟨this.1, hsetup'.trans hsetup.symm, by rw [hnext', hnext, h.next], this.2⟩
  cases hc : w.view.calls me with
  | none =>
    rw [hc] at hcalls
    rw [hd.advance_none hc, hd'.advance_none (Option.map_eq_none_iff.1 hcalls)]
    exact ⟨h.view, h.outcomes⟩
  | some call =>
    obtain ⟨j, c⟩ := call
    obtain rfl := hp hc
    rw [hc] at hcalls
    obtain ⟨⟨j', c'⟩, hc', heq⟩ := Option.map_eq_some_iff.1 hcalls
    obtain ⟨rfl, hcall⟩ : j' = j ∧ c'.unnumbered = c.unnumbered := by simpa [Call.unnumberedAt] using heq
    cases hws : w.view.workspaces[j']? with
    | none =>
      obtain ⟨hview, hout⟩ := advance_missing env (hd.job? hc) hws
      obtain ⟨hview', hout'⟩ := advance_missing env (hd'.job? hc') (h.view.missing hws)
      rw [hview, hview', hout', outcomesIn_append hout hi hk (by simp), h.outcomes]
      exact ⟨h.view.withCall hi hk none, rfl⟩
    | some ws =>
      obtain ⟨n, hws'⟩ := h.view.workspaces hk hws
      obtain ⟨hview, hout⟩ := advance_call env (hd.job? hc) hws
      obtain ⟨hview', hout'⟩ := advance_call env (hd'.job? hc') hws'
      have ha := Call.advance_alike w.setup env hcall h.view.active n (hlock hws) fun e => hask hc
      rw [h.setup] at hview' hout'
      rw [hview, hview', hout', outcomesIn_append hout hi hk fun o => mem_outcomes, h.outcomes]
      exact ⟨h.view.after hi hk ha, congrArg (w'.outcomes ++ ·) (ha.outcomes me).symm⟩

/-- A step of a call on another place is not mirrored. -/
theorem Mirrors.advance_aside {t : Terms} (h : w.Mirrors keep places w') (hd : w.Direct acts) (hw : w.Keeps t)
    (he : t.fits env) (hi : places[me]? = some i) (hk : keep i = false)
    (hp : ∀ {j c}, w.view.calls me = some (j, c) → j = i)
    (hfit : ∀ {c ws}, w.view.calls me = some (i, c) → w.view.workspaces[i]? = some ws → c.Fit) :
    (w.advance env me).Mirrors keep places w' := by
  have hnext := (hd.jobs_advance env me).2
  have hsetup : (w.advance env me).setup = t.setup := (keeps_advance hw he).setup
  suffices (w.advance env me).view.Mirrors keep places w'.view ∧
      (w.advance env me).outcomesIn keep places = w.outcomesIn keep places from
    ⟨this.1, h.setup.trans (hw.setup.trans hsetup.symm), h.next.trans (by rw [hnext]), this.2.trans h.outcomes⟩
  cases hc : w.view.calls me with
  | none =>
    rw [hd.advance_none hc]
    exact ⟨h.view, rfl⟩
  | some call =>
    obtain ⟨j, c⟩ := call
    obtain rfl := hp hc
    cases hws : w.view.workspaces[j]? with
    | none =>
      obtain ⟨hview, hout⟩ := advance_missing env (hd.job? hc) hws
      rw [hview]
      exact ⟨h.view.withCall_aside hi hk none, outcomesIn_aside hout hi hk (by simp)⟩
    | some ws =>
      obtain ⟨hview, hout⟩ := advance_call env (hd.job? hc) hws
      rw [hview]
      exact ⟨h.view.after_aside hi hk (Call.paths w.setup env me w.session ws (hfit hc hws)).active,
        outcomesIn_aside hout hi hk fun o => mem_outcomes⟩

/-- A call on a place that is kept begins in both worlds. -/
theorem Mirrors.begins {t t' : Terms} (h : w.Mirrors keep places w') (hw : w.Keeps t) (hw' : w'.Keeps t')
    (hi : places[w.nextJob]? = some i) (hk : keep i) (request : Request) :
    (w.perform (.call i request)).Mirrors keep places (w'.perform (.call i request)) := by
  have hnext := nameAmong_succ keep hi
  rw [if_pos hk, ← h.next] at hnext
  have hview : (w.perform (.call i request)).view = _ := view_spawn_call hw.fresh _
  have hview' : (w'.perform (.call i request)).view = _ := view_spawn_call hw'.fresh _
  refine ⟨?_, h.setup, hnext.symm, h.outcomes⟩
  rw [hview, hview', h.next]
  exact h.view.withCall hi hk _

/-- A call on another place is not mirrored. -/
theorem Mirrors.begins_aside {t : Terms} (h : w.Mirrors keep places w') (hw : w.Keeps t)
    (hi : places[w.nextJob]? = some i) (hk : keep i = false) (request : Request) :
    (w.perform (.call i request)).Mirrors keep places w' := by
  have hnext := nameAmong_succ keep hi
  rw [hk, if_neg Bool.false_ne_true, Nat.add_zero, ← h.next] at hnext
  have hview : (w.perform (.call i request)).view = _ := view_spawn_call hw.fresh _
  refine ⟨?_, h.setup, hnext.symm, h.outcomes⟩
  rw [hview]
  exact h.view.withCall_aside hi hk _

/-- Unload may be requested anywhere; where it is requested of another place that is not mirrored. -/
theorem Mirrors.unloads (h : w.Mirrors keep places w') (i : Nat) (cause : DisposeCause) :
    (w.requestUnload i cause).Mirrors keep places (w'.requestUnload i cause) := by
  refine ⟨?_, h.setup, h.next, h.outcomes⟩
  rw [view_unloading, view_unloading]
  exact h.view.unloads i cause

theorem Mirrors.unloads_aside (h : w.Mirrors keep places w') (hk : keep i = false) (cause : DisposeCause) :
    (w.requestUnload i cause).Mirrors keep places w' := by
  refine ⟨?_, h.setup, h.next, h.outcomes⟩
  rw [view_unloading]
  exact h.view.unloads_aside hk cause

theorem Mirrors.adding (h : w.Mirrors keep places w') (slice : Slice) :
    (w.addWorkspace slice).Mirrors keep places (w'.addWorkspace slice) := by
  refine ⟨?_, h.setup, h.next, h.outcomes⟩
  rw [view_addWorkspace, view_addWorkspace]
  exact h.view.adding slice

/-- The last act of a run is taken if something is left of it. -/
theorem run_left_concat (setup : Setup) (left : Act → Option Act) (before : List Act) (a : Act) :
    run setup ((before ++ [a]).filterMap left) =
      (left a).elim (run setup (before.filterMap left)) (run setup (before.filterMap left)).perform := by
  rw [List.filterMap_append]
  cases ha : left a with
  | none => simp [ha]
  | some b => simp [ha, run_concat]

/-- Where jobs are told apart by their names, so are those at the lock of a workspace. -/
theorem apart_run (setup : Setup) (acts : List Act) {ws : Workspace} (hi : places[me]? = some i) (hk : keep i)
    (hw : (run setup acts).view.workspaces[i]? = some ws)
    (hp : ∀ {job j c}, (run setup acts).view.calls job = some (j, c) → places[job]? = some j) :
    ws.lock.Apart (nameAmong keep places) me := by
  obtain ⟨s, hs, rfl, horderly⟩ := orderly_run setup acts hw
  intro job hjob hname
  have hcall : ∃ c, s.calls job = some c := by
    rcases hjob with hholder | hwaiting
    · rcases horderly.line.holder hholder with ⟨c, hc, -⟩ | ⟨c, hc, -⟩ <;> exact ⟨c, hc⟩
    · obtain ⟨c, hc, -⟩ := (horderly.line.waiting.1 hwaiting).2
      exact ⟨c, hc⟩
  obtain ⟨c, hc⟩ := hcall
  exact nameAmong_inj (hp ((hs.calls job c).1 hc)) hk hi hk hname

/-- An id that is asked for in a place that is kept is taken in both runs or in neither. -/
theorem asksAlike_run {acts' : List Act} (h : (run setup acts).Mirrors keep places (run setup acts'))
    (hp : ∀ {me i c}, (run setup acts).view.calls me = some (i, c) → places[me]? = some i) {e : Evaluation}
    (hids : ∀ params, e.creationParams = .ok params → params.id ∉ (run setup acts).createdElsewhere keep) :
    e.AsksAlike (run setup acts).session (run setup acts').session := by
  intro params hparams
  have hfree := hids params hparams
  refine (borne_run setup acts').live.trans (Iff.trans ?_ (borne_run setup acts).live.symm)
  constructor
  · rintro ⟨i, hb⟩
    -- whatever was created there was created in a place that is kept
    obtain ⟨e', he', hi, -⟩ := created_of_bears hb
    have hmem : e'.renamed id ∈ (run setup acts').log.map (·.renamed id) := List.mem_map.2 ⟨e', he', rfl⟩
    have hmem : e'.renamed id ∈ ((run setup acts).log.filter (keep ·.workspace)).map (·.renamed (nameAmong keep places)) :=
      h.view.log ▸ hmem
    obtain ⟨e, he, heq⟩ := List.mem_map.1 hmem
    have hplace : e.workspace = i := (congrArg Entry.workspace heq).trans hi
    exact ⟨i, (h.view.bears hp (hplace ▸ (List.mem_filter.1 he).2)).1 hb⟩
  · rintro ⟨i, hb⟩
    cases hk : keep i with
    | true => exact ⟨i, (h.view.bears hp hk).2 hb⟩
    | false =>
      obtain ⟨e', he', hi, serial, params', hevent, hid⟩ := created_of_bears hb
      refine absurd (List.mem_filterMap.2 ⟨e', he', ?_⟩) hfree
      simp [hevent, hi, hk, hid]

/-- Up to every point of a run what was done to the places kept is what is done there without the other calls. -/
theorem mirrors_run (setup : Setup) (keep : Nat → Bool) {acts : List Act} (ha : ∀ a ∈ acts, a.isDirect)
    (hids : ∀ id ∈ Act.asked keep acts, id ∉ (run setup acts).createdElsewhere keep) {before : List Act}
    (hbefore : before <+: acts) :
    (run setup before).Mirrors keep (begun acts) (run setup (before.filterMap (Act.stay keep (begun acts)))) := by
  induction before using List.reverseRecOn with
  | nil =>
    exact ⟨⟨rfl, rfl, fun _ hw => (by cases hw), fun _ _ => rfl, fun hc => (by cases hc), rfl⟩, rfl, rfl, rfl⟩
  | append_singleton before a ih =>
    have ih := ih ((List.prefix_append ..).trans hbefore)
    obtain ⟨more, hacts⟩ := hbefore
    have hmem {b : Act} (hb : b ∈ before ++ [a]) : b ∈ acts := hacts ▸ List.mem_append_left more hb
    have hdirect : ∀ b ∈ before, b.isDirect := fun b hb => ha b (hmem (List.mem_append_left _ hb))
    have hd : (run setup before).Direct before := direct_run hdirect
    have hd' : (run setup (before.filterMap (Act.stay keep (begun acts)))).Direct _ := direct_run fun b hb => by
      obtain ⟨b', hb', hstay⟩ := List.mem_filterMap.1 hb
      exact Act.isDirect_stay hstay (hdirect b' hb')
    have hbegun : begun acts = begun before ++ begun (a :: more) := by rw [← hacts, List.append_assoc, Act.begun_append]; rfl
    have hplaced {me : JobId} {i : Nat} {c : Call} (hc : (run setup before).view.calls me = some (i, c)) :
        (begun acts)[me]? = some i ∧ .call i c.request ∈ acts := by
      obtain ⟨hi, hcall⟩ := hd.placed hc
      rw [hbegun, List.getElem?_append_left (List.getElem?_eq_some_iff.1 hi).1]
      exact ⟨hi, hmem (List.mem_append_left _ hcall)⟩
    have hkeeps := (tidy_run setup before).1
    have hkeeps' := (tidy_run setup (before.filterMap (Act.stay keep (begun acts)))).1
    have hlater : (run setup before).createdElsewhere keep ⊆ (run setup acts).createdElsewhere keep := by
      rw [← hacts, List.append_assoc]
      exact ((log_later setup before _).sublist.filterMap _).subset
    have hdirect' := ha a (hmem (by simp))
    rw [run_concat, run_left_concat]
    cases a with
    | advance env me =>
      cases hi : (begun acts)[me]? with
      | none =>
        have hnone : (run setup before).view.calls me = none := by
          cases hc : (run setup before).view.calls me with
          | none => rfl
          | some call => exact absurd ((hplaced hc).1.symm.trans hi) nofun
        simpa [Act.stay, hi, perform, hd.advance_none hnone] using ih
      | some i =>
        have hp {j : Nat} {c : Call} (hc : (run setup before).view.calls me = some (j, c)) : j = i :=
          Option.some.inj ((hplaced hc).1.symm.trans hi)
        cases hk : keep i with
        | true =>
          simp only [Act.stay, hi, hk, if_true, Option.elim_some]
          refine ih.advance hd hd' hkeeps hkeeps' trivial hi hk hp
            (fun hw => apart_run setup before hi hk hw fun hc => (hplaced hc).1) fun hc he => ?_
          refine asksAlike_run ih (fun hc => (hplaced hc).1) fun params hparams hcreated => ?_
          exact hids _ (Act.mem_asked (hplaced hc).2 hk he hparams) (hlater hcreated)
        | false =>
          simp only [Act.stay, hi, hk, Bool.false_eq_true, if_false, Option.elim_none]
          refine ih.advance_aside hd hkeeps trivial hi hk hp fun hc hw => ?_
          obtain ⟨s, hs, -, horderly⟩ := orderly_run setup before hw
          exact horderly.fit ((hs.calls me _).2 hc)
    | call place request =>
      have hi : (begun acts)[(run setup before).nextJob]? = some place := by
        rw [hbegun, hd.next, List.getElem?_append_right (Nat.le_refl _), Nat.sub_self]
        rfl
      cases hk : keep place with
      | true =>
        simp only [Act.stay, hk, if_true, Option.elim_some]
        exact ih.begins hkeeps hkeeps' hi hk request
      | false =>
        simp only [Act.stay, hk, Bool.false_eq_true, if_false, Option.elim_none]
        exact ih.begins_aside hkeeps hi hk request
    | requestUnload place cause =>
      cases hk : keep place with
      | true =>
        simp only [Act.stay, hk, if_true, Option.elim_some]
        exact ih.unloads place cause
      | false =>
        simp only [Act.stay, hk, Bool.false_eq_true, if_false, Option.elim_none]
        exact ih.unloads_aside hk cause
    | addWorkspace slice => exact ih.adding slice
    | setActiveConfiguration slice =>
      exact ⟨ih.view.activates (congrArg (·.setConfiguration slice) ih.view.active), ih.setup, ih.next, ih.outcomes⟩
    | setActiveEditor slice =>
      exact ⟨ih.view.activates (congrArg (·.setEditor slice) ih.view.active), ih.setup, ih.next, ih.outcomes⟩
    | _ => cases hdirect'

/-- In the places kept the second world is what the first is, with the names that the jobs of calls on those places
have, and whatever the numbers of contexts. -/
structure AgreesIn (keep : Nat → Bool) (acts : List Act) (w w' : World) : Prop where
  /-- The calls end alike, and in the same order. -/
  outcomes : w.outcomesIn keep (begun acts) = w'.outcomes
  /-- Contexts receive the same calls, the same progress is told and the same faults are reported, in the same order. -/
  log : (w.log.filter (keep ·.workspace)).map (·.renamed (nameAmong keep (begun acts))) = w'.log.map (·.renamed id)
  workspaces : ∀ {i ws}, keep i → w.workspace? i = some ws →
    ∃ n, w'.workspace? i = some (ws.renumbered (nameAmong keep (begun acts)) n)

/-- However calls on workspaces mix, and however those on some of them end: where the contexts of these have ids that
no evaluation for the others asks for, the others fare as if the calls on these had been left out. -/
theorem independent (setup : Setup) (keep : Nat → Bool) (acts : List Act) (ha : ∀ a ∈ acts, a.isDirect)
    (hids : ∀ id ∈ Act.asked keep acts, id ∉ (run setup acts).createdElsewhere keep) :
    (run setup acts).AgreesIn keep acts (run setup (Act.only keep acts)) := by
  have h := mirrors_run setup keep ha hids List.prefix_rfl
  refine ⟨h.outcomes, h.view.log, fun {i ws} hk hw => ?_⟩
  rw [← view_workspaces] at hw
  obtain ⟨n, hw'⟩ := h.view.workspaces hk hw
  exact ⟨n, by rwa [← view_workspaces]⟩

/-- An evaluation of another project. -/
def otherEvaluation : Update where
  versions := .empty
  payload := .evaluation
    { project := { path := "/src/b.proj" }
      rules := .ofList
        [(WellKnown.generalRule,
          { after :=
              { properties := .ofList
                  [(WellKnown.language, "C#"), (WellKnown.projectFullPath, "/src/b.proj"),
                    (WellKnown.targetPath, "/src/out/b.dll")] } })] }

/-- Two workspaces: the first batch of the second one is rejected while the first one is evaluated and built. -/
def mixed : List Act :=
  [.addWorkspace .empty, .addWorkspace .empty, .call 1 (.update otherEvaluation), .advance {} 0,
    .call 0 (.update (Sample.evaluation ["a.cs"])), .advance {} 1, .advance { rejection := some "rejected" } 0,
    .advance {} 1, .call 1 (.dispose .unload), .call 0 (.update (Sample.build ["/r:a.dll"])), .advance {} 3,
    .advance {} 2, .advance {} 3, .advance {} 2, .advance {} 3]

set_option maxRecDepth 100000 in
/-- The context of the first workspace comes second, but for that nothing is different without the other one. -/
theorem independent_mixed :
    ((run {} mixed).workspace? 0).bind (·.context.map (·.serial)) = some 1 ∧
      ((run {} (Act.only (· == 0) mixed)).workspace? 0).bind (·.context.map (·.serial)) = some 0 ∧
      (run {} mixed).log.contains ⟨0, 1, .fault (.batch "rejected") .error⟩ ∧
      (run {} mixed).AgreesIn (· == 0) mixed (run {} (Act.only (· == 0) mixed)) :=
  ⟨by decide +kernel, by decide +kernel, by decide +kernel,
    independent {} (· == 0) mixed (by decide +kernel) (by decide +kernel)⟩

end World

end SliceSync
