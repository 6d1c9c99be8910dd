import SliceSync.Proofs.Live
import SliceSync.Proofs.Milestones
/-!
# The chronicle of a workspace

The milestones of a workspace come in one order: its progress is followed, its context comes, is told to go,
and each handler made for it drops what it remembers, progress is followed no more. How far a workspace has
come is told by its status and its context, and by a teardown under way (`Workspace.Story`); so each
milestone comes once, and a workspace that is gone has left nothing behind.
-/

namespace SliceSync

/-- A context made for an evaluation, with the handlers that apply to its project. -/
structure ContextHandle.Made (registry : Registry) (handle : ContextHandle) (params : CreationParams) : Prop where
  id : handle.id = params.id
  unreleased : handle.handlers.released = false
  members : ∃ e : Evaluation, e.creationParams = .ok params ∧
    handle.handlers.members = (registry.resolve e.project).members

theorem Session.create_made {s s' : Session} {env : Environment} {registry : Registry} {e : Evaluation}
    {handle : ContextHandle} {events : List Event} (h : s.create env registry e = .ok (s', handle, events)) :
    ∃ params, handle.Made registry params ∧ events = [.created handle.serial params] := by
  obtain ⟨params, hparams, -, -, -, rfl, rfl⟩ := of_create_ok h
  exact ⟨params, ⟨rfl, rfl, e, hparams, rfl⟩, rfl⟩

/-- Who the handlers of a context are is settled when it is made. -/
theorem ContextHandle.Made.rehandle {registry : Registry} {handle : ContextHandle} {params : CreationParams}
    (h : handle.Made registry params) {handlers : HandlerSet} (hm : handlers.members = handle.handlers.members)
    (hr : handlers.released = handle.handlers.released) : ContextHandle.Made registry { handle with handlers } params :=
  ⟨h.id, hr.trans h.unreleased, by rw [hm]; exact h.members⟩

namespace Event

/-- Progress is followed, if there is an owner. -/
def following (owner : Option String) : List Event := (owner.map registered).toList

/-- Progress is followed no more. -/
def leaving (owner : Option String) : List Event := (owner.map unregistered).toList

/-- A context comes, is told to go, and its handlers drop what they remember. -/
def lifetime (serial : Nat) (params : CreationParams) (members : List (String × Bool)) : List Event :=
  .created serial params :: .context serial .dispose ::
    members.map fun m => .released serial m.1 m.2 params.id

end Event

open Event (milestones following leaving lifetime)

/-- The context that a call waits to see gone. -/
def Held.parting : Held → Option ContextHandle
  | .releasing handle => some handle
  | _ => none

@[simp] theorem Held.parting_finished (result : Except SyncError Answer) : (finished result).parting = none := rfl

@[simp] theorem Held.parting_releasing (handle : ContextHandle) : (releasing handle).parting = some handle := rfl

namespace Workspace

/-- How far a workspace has come, with the context that a teardown waits to see gone, and its milestones so
far. -/
inductive Story (registry : Registry) (w : Workspace) : Option ContextHandle → List Event → Prop
  | early (hs : w.status = .uninitialized) : Story registry w none []
  | bare (hs : w.status = .initialized ∨ w.status = .failed) (hc : w.context = none) :
      Story registry w none (following w.owner)
  | housed {handle : ContextHandle} {params : CreationParams} (hs : w.status = .initialized)
      (hc : w.context = some handle) (hm : handle.Made registry params) :
      Story registry w none (following w.owner ++ [.created handle.serial params])
  | parting {handle : ContextHandle} {params : CreationParams} (hs : w.status = .disposed)
      (hm : handle.Made registry params) :
      Story registry w (some handle)
        (following w.owner ++ [.created handle.serial params, .context handle.serial .dispose])
  | past {owner : Option String} (hs : w.status = .disposed) :
      Story registry w none (following owner ++ leaving owner)
  | gone {owner : Option String} {handle : ContextHandle} {params : CreationParams} (hs : w.status = .disposed)
      (hm : handle.Made registry params) :
      Story registry w none
        (following owner ++ lifetime handle.serial params handle.handlers.members ++ leaving owner)

variable {setup : Setup} {env : Environment} {session : Session} {w w' : Workspace} {u : Update}
  {l : List Event}

theorem Story.congr {parting : Option ContextHandle} {registry : Registry} (h : w.Story registry parting l)
    (hs : w'.status = w.status) (ho : w'.owner = w.owner) (hc : w'.context = w.context) :
    w'.Story registry parting l := by
  cases h with
  | early h => exact .early (hs.trans h)
  | bare h h' => exact ho ▸ .bare (hs ▸ h) (hc.trans h')
  | housed h h' hm => exact ho ▸ .housed (hs.trans h) (hc.trans h') hm
  | parting h hm => exact ho ▸ .parting (hs.trans h) hm
  | past h => exact .past (hs.trans h)
  | gone h hm => exact .gone (hs.trans h) hm

/-- The handlers of the context have done something. -/
theorem Story.rehandle {registry : Registry} (h : w.Story registry none l) {handle handle' : ContextHandle}
    (hc : w.context = some handle) (hs : w.status = .initialized) (hs' : w'.status = w.status)
    (ho : w'.owner = w.owner) (hc' : w'.context = some handle') (hserial : handle'.serial = handle.serial)
    (hm : ∀ {params}, handle.Made registry params → handle'.Made registry params) : w'.Story registry none l := by
  cases h with
  | housed h h' hmade =>
    cases hc.symm.trans h'
    rw [← ho, ← hserial]
    exact .housed (hs'.trans hs) hc' (hm hmade)
  | bare h h' => exact absurd (hc.symm.trans h') nofun
  | early h | past h | gone h => exact absurd (hs.symm.trans h) nofun

/-- The first update follows progress, if anybody does. -/
theorem Story.enroll {registry : Registry} (h : w.Story registry none l) (hr : w.Regular) (setup : Setup)
    (ha : w.admits = .ok ()) (u : Update) :
    (w.enroll setup u).1.Story registry none (l ++ (w.enroll setup u).2) := by
  rcases admits_eq_ok_iff.1 ha with hs | hs
  · obtain ⟨ho, hc, -⟩ := hr.uninitialized hs
    have hl : l = [] := by
      cases h with
      | early => rfl
      | bare h => rcases h with h | h <;> exact absurd (hs.symm.trans h) nofun
      | housed h | past h | gone h => exact absurd (hs.symm.trans h) nofun
    rw [hl, List.nil_append]
    unfold Workspace.enroll
    rw [hs]
    dsimp only
    split
    · exact .bare (.inl rfl) hc
    · have hf : following w.owner = [] := by rw [ho]; rfl
      have : Story registry { w with status := .initialized } none (following w.owner) := .bare (.inl rfl) hc
      rwa [hf] at this
  · rw [show w.enroll setup u = (w, []) by simp [Workspace.enroll, hs], List.append_nil]
    exact h

/-- The first evaluation brings a context, or the end. -/
theorem Story.of_bare {registry : Registry} (h : w.Story registry none l) (hs : w.status = .initialized)
    (hc : w.context = none) : l = following w.owner := by
  cases h with
  | bare => rfl
  | housed h h' => exact absurd (hc.symm.trans h') nofun
  | early h | past h | gone h => exact absurd (hs.symm.trans h) nofun

/-- An update takes the story on. -/
theorem Receives.story {p : Passage} (hp : w.Receives setup env session u p)
    (h : w.Story setup.registry none l) (hr : w.Regular) :
    p.workspace.Story setup.registry p.held.parting (l ++ Event.milestones p.events) := by
  -- the events of an update are those of following progress, and of a context that is created
  have told (ha : w.admits = .ok ()) := (hp.milestones.resolve_left (by rw [ha]; rintro ⟨⟨_, he⟩, -⟩; cases he)).2
  have context : (w.enroll setup u).1.context = w.context := enroll_context u
  have enrolled (ha : w.admits = .ok ()) := And.intro (h.enroll hr setup ha u) (hr.enroll setup ha u).2.1
  cases hp with
  | refused ha => simpa using h
  | uncreated ha hu hc hf =>
    obtain ⟨hstory, hstatus⟩ := enrolled ha
    rw [told ha]
    simp only [hc, hu, hf, List.append_nil]
    rw [hstory.of_bare hstatus (context.trans hc)]
    exact .bare (.inr rfl) (context.trans hc)
  | @creates e session' handle events ha hu hc hs =>
    obtain ⟨hstory, hstatus⟩ := enrolled ha
    obtain ⟨params, hmade, rfl⟩ := Session.create_made hs
    rw [told ha]
    simp only [hc, hu, hs]
    rw [← List.append_assoc, hstory.of_bare hstatus (context.trans hc)]
    have housed : Story setup.registry
        { (w.enroll setup u).1 with
          context := some handle
          contextId := (w.enroll setup u).1.contextId.or (some handle.id) } none _ := .housed hstatus rfl hmade
    exact housed.rehandle rfl hstatus rfl rfl rfl rfl fun hm =>
      hm.rehandle HandlerSet.applyBoth_members.1 HandlerSet.applyBoth_members.2
  | @skips e handle ha hu hc hk =>
    rw [told ha]
    simp only [hc, List.append_nil]
    exact (enrolled ha).1
  | @applies e handle ha hu hc =>
    obtain ⟨hstory, hstatus⟩ := enrolled ha
    rw [told ha]
    simp only [hc, List.append_nil]
    exact hstory.rehandle (context.trans hc) hstatus rfl rfl rfl rfl fun hm =>
      hm.rehandle HandlerSet.applyBoth_members.1 HandlerSet.applyBoth_members.2
  | skipsBuild ha hu hk =>
    have hstory := (enrolled ha).1
    rw [told ha]
    cases w.context with
    | none =>
      simp only [hu, List.append_nil]
      exact hstory.congr rfl rfl rfl
    | some handle =>
      simp only [List.append_nil]
      exact hstory.congr rfl rfl rfl
  | misses ha hu hc =>
    rw [told ha]
    simp only [hc, hu, List.append_nil]
    exact (enrolled ha).1
  | @appliesBuild b handle ha hu hc =>
    obtain ⟨hstory, hstatus⟩ := enrolled ha
    rw [told ha]
    simp only [hc, List.append_nil]
    exact hstory.rehandle (context.trans hc) hstatus rfl rfl rfl rfl fun hm =>
      hm.rehandle HandlerSet.applyArguments_members.1 HandlerSet.applyArguments_members.2

/-- Teardown takes the context away, or ends the story of a workspace without one. -/
theorem beginDispose_story {registry : Registry} (h : w.Story registry none l) (hr : w.Regular)
    (session : Session) :
    (w.beginDispose session).workspace.Story registry (w.beginDispose session).held.parting
      (l ++ milestones (w.beginDispose session).events) := by
  unfold beginDispose
  split
  · simpa using h
  · rename_i hd
    split
    · rename_i handle hc
      have hinitialized : w.status = .initialized := by
        cases hs : w.status with
        | initialized => rfl
        | uninitialized => cases hc.symm.trans (hr.uninitialized hs).2.1
        | failed => cases hc.symm.trans (hr.failed hs).1
        | disposed => exact absurd hs hd
      cases h with
      | housed hs hc' hm =>
        cases hc.symm.trans hc'
        have : Story registry { w with status := .disposed, context := none } (some handle) _ := .parting rfl hm
        simpa [Session.beginRelease, Event.isMilestone] using this
      | bare hs hc' => cases hc.symm.trans hc'
      | early hs | past hs | gone hs => cases hinitialized.symm.trans hs
    · rename_i hc
      have hl : l = following w.owner := by
        cases h with
        | early hs =>
          rw [(hr.uninitialized hs).1]
          rfl
        | bare => rfl
        | housed hs hc' => cases hc.symm.trans hc'
        | past hs | gone hs => exact absurd hs hd
      rw [milestones_unregister, hl]
      exact .past rfl

theorem beginWrite_story {registry : Registry} (h : w.Story registry none l) (session : Session)
    (mutations : List Mutation) :
    (w.beginWrite session mutations).workspace.Story registry (w.beginWrite session mutations).held.parting
      (l ++ milestones (w.beginWrite session mutations).events) := by
  rw [milestones_beginWrite, List.append_nil]
  unfold beginWrite
  split
  · exact h
  · split <;> exact h

/-- The closing of a batch leaves the story where it is. -/
theorem close_story {registry : Registry} (h : w.Story registry none l) (env : Environment) (session : Session)
    (batch : OpenBatch) :
    (w.close env session batch).workspace.Story registry (w.close env session batch).held.parting
      (l ++ milestones (w.close env session batch).events) := by
  rw [milestones_close, List.append_nil]
  unfold close
  dsimp only
  split
  · exact h
  · cases batch.commit <;> exact h.congr rfl rfl rfl

/-- The end of a release ends the story. -/
theorem finishDispose_story {registry : Registry} {handle : ContextHandle}
    (h : w.Story registry (some handle) l) (session : Session) :
    (w.finishDispose session handle).workspace.Story registry (w.finishDispose session handle).held.parting
      (l ++ milestones (w.finishDispose session handle).events) := by
  cases h with
  | @parting _ params hs hm =>
    have hreleased : handle.handlers.release.2 = handle.handlers.members := by
      simp [HandlerSet.release, hm.unreleased]
    have hstory : (w.finishDispose session handle).workspace.Story registry none
        (following w.owner ++ lifetime handle.serial params handle.handlers.members ++ leaving w.owner) := .gone hs hm
    rw [milestones_finishDispose, hreleased, hm.id]
    show (w.finishDispose session handle).workspace.Story registry none _
    simpa [lifetime, leaving] using hstory

end Workspace

/-- Every request that gets the lock takes the story on. -/
theorem Request.passage_story {setup : Setup} {w : Workspace} {l : List Event}
    (h : w.Story setup.registry none l) (hr : w.Regular) (env : Environment) (session : Session)
    (request : Request) :
    (request.passage setup env session w).workspace.Story setup.registry
      (request.passage setup env session w).held.parting
      (l ++ milestones (request.passage setup env session w).events) := by
  cases request with
  | update u => exact (Workspace.receives u).story h hr
  | write mutations => exact Workspace.beginWrite_story h session mutations
  | dispose cause => exact Workspace.beginDispose_story h hr session
  | status | whenEvaluation | whenBuild => simpa [passage] using h

/-! ## Scenes -/

namespace Scene

/-- The milestones of a workspace tell its story. -/
def Told (registry : Registry) (s : Scene) : Prop :=
  ∃ parting, (∀ handle, parting = some handle ↔ ∃ me c, s.calls me = some c ∧ c.phase = .releasing handle) ∧
    s.workspace.Story registry parting (milestones s.log)

variable {t : Terms} {i : Nat} {s s' : Scene} {past ended : List Ending}

theorem told_fresh (h : s.Fresh) (registry : Registry) : s.Told registry := by
  obtain ⟨slice, hslice⟩ := h.workspace
  refine ⟨none, fun handle => iff_of_false nofun ?_, ?_⟩
  · rintro ⟨me, c, hc, hp⟩
    obtain ⟨request, rfl⟩ := h.calls me c hc
    exact absurd (Call.start_holds request) (by simp [hp, Phase.holds])
  · rw [h.log, hslice]
    exact .early rfl

/-- What a passage waits to see gone is what is being released after it. -/
theorem releasing_conclude {setup : Setup} {me : JobId} {c : Call} {p : Passage} {handle : ContextHandle}
    (hme : ∀ {job c'}, s.calls job = some c' → c'.phase.holds = true → job = me) :
    p.held.parting = some handle ↔
      ∃ job c', (s.after me (c.conclude setup p)).calls job = some c' ∧ c'.phase = .releasing handle := by
  constructor
  · intro hp
    have hheld : p.held = .releasing handle := by
      cases hheld : p.held <;> simp_all [Held.parting]
    exact ⟨me, { c with phase := .releasing handle }, by rw [after_calls_self, Call.conclude, hheld], rfl⟩
  · rintro ⟨job, c', hjob, hp⟩
    obtain rfl : job = me := by
      by_contra hne
      rw [after_calls_of_ne _ _ hne] at hjob
      exact hne (hme hjob (by rw [hp]; rfl))
    obtain ⟨-, -, ⟨batch, -, hp'⟩ | ⟨other, hheld, hp'⟩⟩ := Call.conclude_going (after_calls_self.1 hjob)
    · cases hp.symm.trans hp'
    · cases hp.symm.trans hp'
      rw [hheld]
      rfl

/-- Every step takes the story on. -/
theorem Told.step (h : s.Told t.setup.registry) (ho : s.Orderly past) (hs : Step t i s s' ended) :
    s'.Told t.setup.registry := by
  obtain ⟨parting, hparting, hstory⟩ := h
  cases hs with
  | rests => exact ⟨parting, hparting, hstory⟩
  | unloads cause => exact ⟨parting, hparting, hstory.congr rfl rfl rfl⟩
  | @begins me request hc hr =>
    refine ⟨parting, fun handle => (hparting handle).trans ?_, hstory⟩
    exact exists_congr fun job => exists_congr fun c => and_congr_left fun hp =>
      (calls_begin hc (by rw [hp]; rfl)).symm
  | @goes env me c session he hc =>
    have hgoes : Goes t env s me c session _ := ho.goes hc (Call.paths t.setup env me session s.workspace (ho.fit hc))
    generalize c.advance t.setup env me session s.workspace = a at hgoes ⊢
    cases hgoes with
    | quiet _ hw hfaults hgo hdone _ =>
      obtain ⟨lock, unload, hw⟩ := hw
      refine ⟨parting, fun handle => (hparting handle).trans ?_, ?_⟩
      · refine exists_congr fun job => exists_congr fun c' => and_congr_left fun hp => ?_
        refine (after_calls_of_quiet hc (fun c' hgoing => ?_) (fun result hresult => ?_) (by rw [hp]; rfl)).symm
        · exact (hgo c' hgoing).imp_right fun h => ⟨h.1, h.2.1⟩
        · exact (hdone result hresult).1
      · have hnone : milestones a.events = [] := by
          refine Event.milestones_eq_nil fun e he => ?_
          obtain ⟨error, severity, rfl⟩ := hfaults e he
          rfl
        show (s.after me a).workspace.Story _ parting (milestones (s.log ++ a.events))
        rw [show (s.after me a).workspace = _ from hw, Event.milestones_append, hnone, List.append_nil]
        exact hstory.congr rfl rfl rfl
    | @passes p lock unload hme _ _ _ hk =>
      obtain ⟨last, hw⟩ := Call.conclude_workspace t.setup c p
      refine ⟨p.held.parting, fun handle => releasing_conclude hme, ?_⟩
      show (s.after me (c.conclude t.setup p)).workspace.Story _ _ (milestones (s.log ++ (c.conclude t.setup p).events))
      rw [show (s.after me (c.conclude t.setup p)).workspace = _ from hw, Event.milestones_append,
        Call.milestones_conclude]
      suffices p.workspace.Story t.setup.registry p.held.parting (milestones s.log ++ milestones p.events) from
        this.congr rfl rfl rfl
      -- no context is being released unless by this call
      have alone (hn : ∀ handle, c.phase ≠ .releasing handle) : parting = none := by
        cases hpart : parting with
        | none => rfl
        | some handle =>
          obtain ⟨job, c', hjob, hphase⟩ := (hparting handle).1 hpart
          obtain rfl := hme hjob (by rw [hphase]; rfl)
          cases hc.symm.trans hjob
          exact absurd hphase (hn handle)
      rcases hk with ⟨hholds, rfl⟩ | ⟨batch, hphase, -, rfl⟩ | ⟨handle, hphase, -, rfl⟩
      · obtain rfl := alone fun handle hphase => by simp [hphase, Phase.holds] at hholds
        have hstory' : Workspace.Story t.setup.registry { s.workspace with lock, unload } none _ :=
          hstory.congr rfl rfl rfl
        exact c.request.passage_story hstory' (ho.regular.with_lock lock unload) env session
      · obtain rfl := alone fun handle => by simp [hphase]
        exact Workspace.close_story hstory env session batch
      · rw [(hparting handle).2 ⟨me, c, hc, hphase⟩] at hstory
        exact Workspace.finishDispose_story hstory session

end Scene

namespace World

/-- In every run the milestones of a workspace tell its story. -/
theorem told_run (setup : Setup) (acts : List Act) {i : Nat} {s : Scene}
    (hs : (run setup acts).view.HasScene i s) : s.Told setup.registry := by
  have hplays : (run setup acts).Keeps (freely setup) ∧
      (run setup acts).view.Plays i (fun s past => s.Orderly past ∧ s.Told setup.registry) _ :=
    plays_run (fun hf hp => ⟨Scene.orderly_fresh hf hp, Scene.told_fresh hf _⟩)
      (fun h hst => ⟨h.1.step hst, h.2.step h.1 hst⟩) fun a _ => within_freely setup a
  obtain ⟨-, ⟨hv, -⟩ | ⟨s', hs', -, h⟩⟩ := hplays
  · exact absurd (hv.workspace.symm.trans hs.workspace) nofun
  · exact hs.unique hs' ▸ h

end World

end SliceSync
