import SliceSync.Proofs.Commits
/-!
# What is told last

Contexts and handlers are told of an update when its batch is opened, and it is committed when the batch closes. A
`Watch` names something that is told so: what events say of it, and what commits say of it. Where no handler and no
batch fails, what has been told last is what has been committed last, or is to be (`World.watched_run`).
-/

namespace SliceSync

namespace Event

/-- No context is told anything, and no handler is called. -/
def Silent (l : List Event) : Prop :=
  ∀ e ∈ l, (∀ n call, e ≠ .handled n call) ∧ ∀ n mutation, e ≠ .context n (.mutate mutation)

theorem Silent.append {l m : List Event} (h : Silent l) (h' : Silent m) : Silent (l ++ m) :=
  fun e he => (List.mem_append.1 he).elim (h e) (h' e)

theorem silent_nil : Silent [] := nofun

theorem OnlyFaults.is_silent {l : List Event} (h : OnlyFaults l) : Silent l := by
  intro e he
  obtain ⟨error, severity, rfl⟩ := h e he
  exact ⟨nofun, nofun⟩

end Event

/-- A call tells what its passage tells, and of its own fault. -/
theorem Call.conclude_events (setup : Setup) (c : Call) (p : Passage) :
    ∃ faults, (c.conclude setup p).events = p.events ++ faults ∧ Event.OnlyFaults faults := by
  cases hh : p.held with
  | finished result => exact ⟨_, (conclude_finished setup c hh).2, fun _ he => Scene.report_fault he⟩
  | closing batch => exact ⟨[], by rw [(conclude_closing setup c hh).2, List.append_nil], nofun⟩
  | releasing handle => exact ⟨[], by rw [conclude, hh, List.append_nil], nofun⟩

namespace Workspace

variable {setup : Setup} {env : Environment} {session : Session} {w : Workspace}

theorem silent_enroll (u : Update) : Event.Silent (w.enroll setup u).2 := by
  intro e he
  obtain ⟨owner, rfl⟩ := mem_enroll he
  exact ⟨nofun, nofun⟩

theorem silent_tell (w : Workspace) (versions : Versions) : Event.Silent (w.tell versions) := by
  intro e he
  obtain ⟨owner, -, rfl⟩ := Option.map_eq_some_iff.1 (Option.mem_toList.1 he)
  exact ⟨nofun, nofun⟩

theorem silent_unregister (w : Workspace) : Event.Silent w.unregister.2 := by
  intro e he
  obtain ⟨owner, -, rfl⟩ := Option.map_eq_some_iff.1 (Option.mem_toList.1 he)
  exact ⟨nofun, nofun⟩

/-- An update that opens no batch tells nobody anything. -/
theorem Receives.silent {u : Update} {p : Passage} (h : w.Receives setup env session u p)
    (hh : ∀ batch, p.held ≠ .closing batch) : Event.Silent p.events := by
  cases h with
  | refused => exact Event.silent_nil
  | uncreated | misses => exact silent_enroll u
  | skips | skipsBuild => exact (silent_enroll u).append (silent_tell _ _)
  | creates | applies | appliesBuild => exact absurd rfl (hh _)

theorem silent_close (env : Environment) (session : Session) (w : Workspace) (batch : OpenBatch) :
    Event.Silent (w.close env session batch).events := by
  rw [close_events]
  intro e he
  rcases List.mem_cons.1 he with rfl | he
  · exact ⟨nofun, nofun⟩
  · split at he
    · exact silent_tell _ _ e he
    · cases he

theorem silent_finishDispose (session : Session) (w : Workspace) (handle : ContextHandle) :
    Event.Silent (w.finishDispose session handle).events := by
  refine Event.Silent.append (fun e he => ?_) (silent_unregister w)
  obtain ⟨m, -, rfl⟩ := List.mem_map.1 he
  exact ⟨nofun, nofun⟩

end Workspace

/-- A request that opens no batch tells nobody anything. -/
theorem Request.silent_passage {setup : Setup} {env : Environment} {session : Session} {w : Workspace}
    {request : Request} (hh : ∀ batch, (request.passage setup env session w).held ≠ .closing batch) :
    Event.Silent (request.passage setup env session w).events := by
  have h := request.enters setup env session w
  generalize request.passage setup env session w = p at h hh ⊢
  cases h with
  | receives h => exact h.silent hh
  | writes => exact absurd rfl (hh _)
  | releases =>
    intro e he
    rw [List.mem_singleton.1 he]
    exact ⟨nofun, nofun⟩
  | departs => exact Workspace.silent_unregister w
  | refuses | lacks | gone | answers => exact Event.silent_nil

namespace Scene

variable {s : Scene} {past : List Ending} {me job : JobId} {c c' : Call}

/-- Only one call is under the lock. -/
theorem Orderly.alone (h : s.Orderly past) (hc : s.calls me = some c) (hp : c.phase.holds = true)
    (hc' : s.calls job = some c') (hp' : c'.phase.holds = true) : job = me :=
  Option.some.inj ((h.line.holds ⟨c', hc', hp'⟩).symm.trans (h.line.holds ⟨c, hc, hp⟩))

/-- When a call under the lock has ended no batch is left to close. -/
theorem Orderly.none_closing (h : s.Orderly past) {setup : Setup} {p : Passage} {result : Except SyncError Answer}
    (hc : s.calls me = some c) (hp : c.phase.holds = true) (hh : p.held = .finished result)
    (hc' : (s.after me (c.conclude setup p)).calls job = some c') (batch : OpenBatch) : c'.phase ≠ .closing batch := by
  intro hp'
  by_cases hme : job = me
  · subst hme
    have hgoing := after_calls_self.1 hc'
    rw [(Call.conclude_finished _ _ hh).1] at hgoing
    cases hgoing
  · rw [after_calls_of_ne _ _ hme] at hc'
    exact hme (h.alone hc hp hc' (by rw [hp']; rfl))

end Scene

/-- Something that is told in the batches of updates: what events tell of it, and what commits say of it. -/
structure Watch (t : Terms) (β : Type) where
  sees : Event → Option β
  shows : Commit → Option β
  /-- The contexts that are watched. -/
  ready : ContextHandle → Prop
  unseen : ∀ {e}, (∀ n call, e ≠ .handled n call) → (∀ n mutation, e ≠ .context n (.mutate mutation)) → sees e = none
  /-- A round of calls makes no context one that is watched. -/
  back : ∀ {w : Workspace} {x o handle},
    ready { handle with handlers := (w.roundOf x o handle.handlers).state } → ready handle
  /-- Where no handler fails, what is told last in a batch is what is committed with it. -/
  opens : ∀ {env session w u p batch handle}, t.fits env → Workspace.Opens t.setup env session w u p batch handle →
    batch.failure = none → ready handle → (p.events.filterMap sees).getLast? = shows batch.commit
  /-- Writes are no updates. -/
  writes : t.writes → (∀ n mutation, sees (.context n (.mutate mutation)) = none) ∧ ∀ id, shows (.write id) = none

namespace Watch

variable {t : Terms} {β : Type} {W : Watch t β} {s s' : Scene} {past past' : List Ending} {failed : List SyncError}
  {commits more : List Commit}

theorem unseen_of_silent {l : List Event} (h : Event.Silent l) : l.filterMap W.sees = [] :=
  List.filterMap_eq_nil_iff.2 fun e he => W.unseen (h e he).1 (h e he).2

/-- What has been told last at a workspace is what has been committed last, or is to be. -/
structure Holds (W : Watch t β) (s : Scene) (commits : List Commit) : Prop where
  /-- Before there is a context nothing is told. -/
  blank : s.workspace.contextId = none → s.log.filterMap W.sees = [] ∧ lastOf W.shows commits = none
  idle : (∀ me c batch, s.calls me = some c → c.phase ≠ .closing batch) →
    ∀ handle, s.workspace.context = some handle → W.ready handle →
      (s.log.filterMap W.sees).getLast? = lastOf W.shows commits
  closing : ∀ me c batch, s.calls me = some c → c.phase = .closing batch → batch.failure = none →
    ∀ handle, s.workspace.context = some handle → W.ready handle →
      (s.log.filterMap W.sees).getLast? = lastOf W.shows (commits ++ [batch.commit])

/-- A step in which nothing is told and no batch is opened or closed leaves it so. -/
theorem Holds.silently (h : W.Holds s commits) (hl : ∃ l, s'.log = s.log ++ l ∧ Event.Silent l)
    (hid : s'.workspace.contextId = none → s.workspace.contextId = none)
    (hcontext : ∀ handle, s'.workspace.context = some handle → s.workspace.context = some handle)
    (hcalls : ∀ {me c batch}, c.phase = .closing batch → (s'.calls me = some c ↔ s.calls me = some c)) :
    W.Holds s' commits := by
  obtain ⟨l, hl, hsilent⟩ := hl
  have hsame : s'.log.filterMap W.sees = s.log.filterMap W.sees := by
    rw [hl, List.filterMap_append, unseen_of_silent hsilent, List.append_nil]
  constructor
  · rw [hsame]
    exact fun hnone => h.blank (hid hnone)
  · rw [hsame]
    exact fun hidle handle hc => h.idle (fun me c batch hcall hp => hidle me c batch ((hcalls hp).2 hcall) hp)
      handle (hcontext handle hc)
  · rw [hsame]
    exact fun me c batch hcall hp hf handle hc =>
      h.closing me c batch ((hcalls hp).1 hcall) hp hf handle (hcontext handle hc)

/-- A request that opens a batch tells what is to be committed with it. -/
theorem told_of_passage {env : Environment} {session : Session} {w : Workspace} {request : Request}
    {batch : OpenBatch} (he : t.fits env) (hr : request.isWrite → t.writes)
    (hh : (request.passage t.setup env session w).held = .closing batch) (hf : batch.failure = none)
    {handle : ContextHandle} (hc : (request.passage t.setup env session w).workspace.context = some handle)
    (hready : W.ready handle) :
    ((request.passage t.setup env session w).events.filterMap W.sees).getLast? = W.shows batch.commit ∧
      w.status ≠ .disposed ∧ ∀ handle, w.context = some handle → W.ready handle := by
  rcases Request.opening hh with ⟨u, old, rfl, hopens⟩ | ⟨mutations, old, rfl, ha, hold, hpassage, -, hcommit⟩
  · have hback : W.ready old := by
      rw [hopens.left] at hc
      cases hc
      exact W.back hready
    refine ⟨W.opens he hopens hf hback, Turn.not_disposed hopens.admits, fun other hother => ?_⟩
    rcases hopens.context with hthere | ⟨hnone, -⟩
    · cases hthere.symm.trans hother
      exact hback
    · exact absurd (hnone.symm.trans hother) nofun
  · obtain ⟨htold, hshown⟩ := W.writes (hr rfl)
    rw [hpassage] at hc ⊢
    refine ⟨?_, Turn.not_disposed ha, fun other hother => ?_⟩
    · rw [hcommit, hshown, List.getLast?_eq_none_iff, List.filterMap_eq_nil_iff]
      intro e he
      rcases List.mem_cons.1 he with rfl | he
      · exact W.unseen nofun nofun
      · rcases List.mem_cons.1 he with rfl | he
        · exact W.unseen nofun nofun
        · obtain ⟨mutation, -, rfl⟩ := List.mem_map.1 he
          exact htold _ mutation
    · cases hc.symm.trans hother
      exact hready

/-- With nobody closing a batch, and the workspace not disposed of, what has been told last is what has been
committed last, whether there is a context or not. -/
theorem Holds.resting (h : W.Holds s commits) (hr : s.workspace.Regular)
    (hidle : ∀ me c batch, s.calls me = some c → c.phase ≠ .closing batch) (hs : s.workspace.status ≠ .disposed)
    (hready : ∀ handle, s.workspace.context = some handle → W.ready handle) :
    (s.log.filterMap W.sees).getLast? = lastOf W.shows commits := by
  cases hc : s.workspace.context with
  | none =>
    obtain ⟨hnil, hnone⟩ := h.blank (hr.nameless hc hs)
    rw [hnil, hnone]
    rfl
  | some handle => exact h.idle hidle handle hc (hready handle hc)

/-- What is told with the opening of a batch is what is to be committed next. -/
theorem Holds.opened (h : W.Holds s commits) (hr : s.workspace.Regular) {me : JobId} {c : Call} {batch : OpenBatch}
    {events : List Event} (hidle : ∀ me c batch, s.calls me = some c → c.phase ≠ .closing batch)
    (hcalls : s'.calls = Function.update s.calls me (some c)) (hp : c.phase = .closing batch)
    (hlog : s'.log = s.log ++ events) (hid : s'.workspace.contextId ≠ none)
    (htold : batch.failure = none → ∀ handle, s'.workspace.context = some handle → W.ready handle →
      (events.filterMap W.sees).getLast? = W.shows batch.commit ∧
        s.workspace.status ≠ .disposed ∧ ∀ handle, s.workspace.context = some handle → W.ready handle) :
    W.Holds s' commits := by
  constructor
  · exact fun hnone => absurd hnone hid
  · exact fun hnobody => absurd hp (hnobody me c batch (by rw [hcalls, Function.update_self]))
  · intro job c' batch' hjob hp' hf handle hc hready
    have hme : job = me := by
      by_contra hne
      rw [hcalls, Function.update_of_ne hne] at hjob
      exact hidle job c' batch' hjob hp'
    subst hme
    rw [hcalls, Function.update_self] at hjob
    cases hjob
    cases hp.symm.trans hp'
    obtain ⟨hlast, hstatus, hready'⟩ := htold hf handle hc hready
    rw [hlog, List.filterMap_append, List.getLast?_append, hlast, h.resting hr hidle hstatus hready', lastOf_append,
      lastOf_singleton]

/-- What a request tells on getting the lock, it is to commit. -/
theorem Holds.enter (h : W.Holds s commits) (ho : s.Orderly past) {env : Environment} {me : JobId} {c : Call}
    {session : Session} {w : Workspace} (hw : ∃ lock unload, w = { s.workspace with lock, unload })
    (he : t.fits env) (hr : c.request.isWrite → t.writes)
    (hn : ∀ {job c'}, s.calls job = some c' → c'.phase.holds = false)
    (h' : (s.after me (c.conclude t.setup (c.request.passage t.setup env session w))).Orderly past') :
    W.Holds (s.after me (c.conclude t.setup (c.request.passage t.setup env session w))) commits := by
  obtain ⟨lock, unload, rfl⟩ := hw
  generalize hp : c.request.passage t.setup env session { s.workspace with lock, unload } = p at h'
  have hidle (job : JobId) (c' : Call) (batch : OpenBatch) (hjob : s.calls job = some c') :
      c'.phase ≠ .closing batch := Phase.not_closing (hn hjob) batch
  obtain ⟨last, hworkspace⟩ := s.workspace_after_conclude t.setup me c p
  by_cases hopening : ∃ batch, p.held = .closing batch
  · obtain ⟨batch, hheld⟩ := hopening
    obtain ⟨hgoing, hevents⟩ := Call.conclude_closing t.setup c hheld
    have hcalls : (s.after me (c.conclude t.setup p)).calls =
        Function.update s.calls me (some { c with phase := .closing batch }) := by
      simp only [Scene.after, hgoing]
    have hcall : (s.after me (c.conclude t.setup p)).calls me = some { c with phase := .closing batch } := by
      rw [hcalls, Function.update_self]
    refine h.opened ho.regular hidle hcalls rfl (congrArg (s.log ++ ·) hevents) ?_ fun hf handle hc hready => ?_
    · obtain ⟨handle, hhandle⟩ := Option.isSome_iff_exists.1 (h'.closing hcall rfl).2
      rw [h'.regular.identity handle hhandle]
      exact Option.some_ne_none _
    · rw [hworkspace] at hc
      subst hp
      exact W.told_of_passage he hr hheld hf hc hready
  · obtain ⟨faults, hevents, hfaults⟩ := Call.conclude_events t.setup c p
    have hheld (batch : OpenBatch) : p.held ≠ .closing batch := fun hh => hopening ⟨batch, hh⟩
    refine h.silently ⟨p.events ++ faults, ?_, ?_⟩ (fun hnone => ?_) (fun handle hc => ?_)
      fun {job c' batch} hphase => ?_
    · exact congrArg (s.log ++ ·) hevents
    · subst hp
      exact (Request.silent_passage hheld).append hfaults.is_silent
    · rw [hworkspace] at hnone
      by_contra hsome
      have hstays : (c.request.passage t.setup env session
          { s.workspace with lock, unload }).workspace.contextId.isSome :=
        Request.passage_contextId (Option.isSome_iff_ne_none.2 hsome)
      rw [hp] at hstays
      rw [show p.workspace.contextId = none from hnone] at hstays
      cases hstays
    · rw [hworkspace] at hc
      have heard := c.request.passage_heard t.setup env session { s.workspace with lock, unload }
      rw [hp] at heard
      cases heard with
      | nothing _ hsame => exact hsame.symm.trans hc
      | opening hh => exact absurd hh (hheld _)
      | parting _ _ hgone => cases hgone.symm.trans hc
    · refine iff_of_false (fun hjob => ?_) fun hjob => hidle job c' batch hjob hphase
      by_cases hme : job = me
      · subst hme
        obtain ⟨-, -, hgoes⟩ := Call.conclude_going (Scene.after_calls_self.1 hjob)
        rcases hgoes with ⟨other, hh, -⟩ | ⟨handle, -, hreleasing⟩
        · exact hheld other hh
        · cases hphase.symm.trans hreleasing
      · rw [Scene.after_calls_of_ne _ _ hme] at hjob
        exact hidle job c' batch hjob hphase

/-- The closing of a batch tells nothing, and commits what was told with it. -/
theorem Holds.close (h : W.Holds s commits) (ho : s.Orderly past) {env : Environment} {me : JobId} {c : Call}
    {session : Session} {batch : OpenBatch} (hc : s.calls me = some c) (hp : c.phase = .closing batch)
    (hwell : batch.failure.or env.rejected = none) :
    W.Holds (s.after me (c.conclude t.setup (s.workspace.close env session batch))) (commits ++ batch.commits env) := by
  have hheld := Workspace.close_result env session s.workspace batch
  have hfailure : batch.failure = none := (Option.or_eq_none_iff.1 hwell).1
  have hcommits : batch.commits env = [batch.commit] := by rw [OpenBatch.commits, hwell]
  obtain ⟨last, hworkspace⟩ := s.workspace_after_conclude t.setup me c (s.workspace.close env session batch)
  obtain ⟨faults, hevents, hfaults⟩ := Call.conclude_events t.setup c (s.workspace.close env session batch)
  have hsilent := (Workspace.silent_close env session s.workspace batch).append hfaults.is_silent
  have hlog : (s.after me (c.conclude t.setup (s.workspace.close env session batch))).log.filterMap W.sees =
      s.log.filterMap W.sees := by
    rw [show (s.after me (c.conclude t.setup (s.workspace.close env session batch))).log = _ from
      congrArg (s.log ++ ·) hevents, List.filterMap_append, unseen_of_silent hsilent, List.append_nil]
  obtain ⟨handle, hhandle⟩ := Option.isSome_iff_exists.1 (ho.closing hc hp).2
  rw [hcommits]
  constructor
  · intro hnameless
    rw [hworkspace] at hnameless
    have hid := ho.regular.identity handle hhandle
    rw [← Workspace.close_contextId env session s.workspace batch] at hid
    cases hid.symm.trans hnameless
  · intro _ other hother hready
    rw [hworkspace] at hother
    rw [hlog]
    exact h.closing me c batch hc hp hfailure other
      ((Workspace.close_heard env session s.workspace batch).2.1.symm.trans hother) hready
  · exact fun job c' batch' hjob hp' =>
      absurd hp' (ho.none_closing hc (by rw [hp]; rfl) hheld hjob batch')

/-- A context that goes is told nothing more. -/
theorem Holds.part (h : W.Holds s commits) (ho : s.Orderly past) {me : JobId} {c : Call} {session : Session}
    {handle : ContextHandle} (hc : s.calls me = some c) (hp : c.phase = .releasing handle) :
    W.Holds (s.after me (c.conclude t.setup (s.workspace.finishDispose session handle))) commits := by
  have hholds : c.phase.holds = true := by rw [hp]; rfl
  obtain ⟨faults, hevents, hfaults⟩ := Call.conclude_events t.setup c (s.workspace.finishDispose session handle)
  obtain ⟨last, hworkspace⟩ := s.workspace_after_conclude t.setup me c (s.workspace.finishDispose session handle)
  refine h.silently ⟨_, congrArg (s.log ++ ·) hevents,
    (Workspace.silent_finishDispose session s.workspace handle).append hfaults.is_silent⟩ (fun hnone => ?_)
    (fun other hother => ?_) fun {job c' batch} hp' => ?_
  · rwa [hworkspace] at hnone
  · rwa [hworkspace] at hother
  · refine iff_of_false (fun hjob => ho.none_closing hc hholds rfl hjob batch hp') fun hjob => ?_
    obtain rfl := ho.alone hc hholds hjob (by rw [hp']; rfl)
    cases hc.symm.trans hjob
    exact absurd (hp.symm.trans hp') nofun

/-- Where nothing fails, every step keeps what has been told last what has been committed last, or is to be. -/
theorem Holds.step (h : W.Holds s commits) (ho : s.Orderly past) (h' : s'.Orderly past')
    (hs : Scene.Shift t s s' failed more) (hu : failed = []) : W.Holds s' (commits ++ more) := by
  cases hs with
  | waits hw hl hc =>
    obtain ⟨lock, unload, hw⟩ := hw
    obtain ⟨faults, hlog, hfaults⟩ := hl
    rw [List.append_nil]
    refine h.silently ⟨faults, hlog, hfaults.is_silent⟩ (fun hnone => ?_) (fun handle hcontext => ?_) fun hp =>
      hc (by rw [hp]; rfl)
    · rwa [hw] at hnone
    · rwa [hw] at hcontext
  | enters he hr hn =>
    rw [List.append_nil]
    exact h.enter ho ⟨_, _, rfl⟩ he hr hn h'
  | closes hc hp => exact h.close ho hc hp (Option.toList_eq_nil_iff.1 hu)
  | parts hc hp =>
    rw [List.append_nil]
    exact h.part ho hc hp

end Watch

/-- In a run in which nothing fails at a workspace, what has been told there last is what has been committed last, or
is to be. -/
theorem World.watched_run {t : Terms} {β : Type} (W : Watch t β) {acts : List Act} {i : Nat} {s : Scene}
    (ha : ∀ a ∈ acts, a.Within t) (hs : (run t.setup acts).view.HasScene i s)
    (hu : failures t.setup acts i = []) : W.Holds s (commits t.setup acts i) := by
  refine shifts_run (P := fun s failed commits => failed = [] → W.Holds s commits) (fun {s} hf _ => ?_)
    (fun ho h' ih hst hu => ?_) ha hs hu
  · obtain ⟨slice, hslice⟩ := hf.workspace
    have hnone (me : JobId) (c : Call) (batch : OpenBatch) (hc : s.calls me = some c) : c.phase ≠ .closing batch := by
      obtain ⟨request, rfl⟩ := hf.calls me c hc
      exact Phase.not_closing (Call.start_holds request) batch
    refine ⟨fun _ => ⟨by rw [hf.log]; rfl, rfl⟩, fun _ _ hc => ?_, fun me c batch hc hp =>
      absurd hp (hnone me c batch hc)⟩
    rw [hslice] at hc
    cases hc
  · obtain ⟨hbefore, hnow⟩ := List.append_eq_nil_iff.1 hu
    exact (ih hbefore).step ho h' hst hnow

namespace World

variable {t : Terms} {β : Type} {acts earlier : List Act} {env : Environment} {me : JobId} {i : Nat} {u : Update}
  {activity : Activity} {w : Workspace} {handle : ContextHandle}

/-- What has been told by then is what was committed last. -/
theorem EndedWell.told (h : EndedWell t.setup acts env me i u earlier activity w handle) (W : Watch t β)
    (ha : ∀ a ∈ acts ++ [.advance env me], a.Within t)
    (hu : failures t.setup (acts ++ [.advance env me]) i = []) (hready : W.ready handle) :
    (((run t.setup (acts ++ [.advance env me])).eventsAt i).filterMap W.sees).getLast? =
      lastOf W.shows (World.commits t.setup (acts ++ [.advance env me]) i) := by
  obtain ⟨s, hs, hw, -⟩ := orderly_run t.setup (acts ++ [.advance env me]) (i := i)
    (by rw [view_workspaces]; exact h.workspace)
  rw [eventsAt_of_scene hs]
  exact (watched_run W ha hs hu).idle
    (fun job c batch hc => Phase.not_closing (h.nobody job c ((hs.calls job c).1 hc)) batch) handle (hw ▸ h.context)
    hready

end World

end SliceSync
