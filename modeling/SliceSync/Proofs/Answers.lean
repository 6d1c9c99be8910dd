import SliceSync.Proofs.Notices
/-!
# How updates end

An update ends in one of five ways, each told of in its own way: it has been processed, teardown has cut it short,
the workspace accepts no updates, the context could not be created, its batch failed. `Call.Account` sums a step
of a call up; that nothing else can happen rests on what calls and workspace keep to (`Scene.Answerable`).
-/

namespace SliceSync

open Event (notices)

/-! ## One step of a call -/

namespace Call

variable {setup : Setup} {c : Call} {p : Passage} {u : Update}

theorem report_of_not_update (hr : ∀ u, c.request ≠ .update u) (result : Except SyncError Answer) :
    c.report setup result = [] := by
  unfold report
  split
  · rename_i u error hu
    exact absurd hu (hr u)
  · rfl

theorem report_ok (setup : Setup) (c : Call) (answer : Answer) : c.report setup (.ok answer) = [] := by
  unfold report
  split
  · rename_i h
    cases h
  · rfl

theorem report_update (hr : c.request = .update u) (error : SyncError) :
    c.report setup (.error error) = if error.isFault then [.fault error setup.settings.faultSeverity] else [] := by
  simp [report, hr]

theorem conclude_finished (setup : Setup) (c : Call) {result : Except SyncError Answer} (hh : p.held = .finished result) :
    (c.conclude setup p).progress = .done result ∧
      (c.conclude setup p).events = p.events ++ c.report setup result := by
  rw [conclude, hh]
  exact ⟨rfl, rfl⟩

theorem conclude_closing (setup : Setup) (c : Call) {batch : OpenBatch} (hh : p.held = .closing batch) :
    (c.conclude setup p).progress = .going { c with phase := .closing batch } ∧
      (c.conclude setup p).events = p.events := by
  rw [conclude, hh]
  exact ⟨rfl, rfl⟩

/-- What is told of a step of a call, and what it leaves. -/
inductive Account (setup : Setup) (env : Environment) (c : Call) (w : Workspace) (a : Advance) : Prop
  /-- The call goes on, or is no update. -/
  | silent (hn : (∃ c', a.progress = .going c') ∨ ∀ u, c.request ≠ .update u) (he : notices a.events = [])
  /-- The update has been processed. -/
  | processed {u : Update} {before : List Event} (hr : c.request = .update u) (hp : a.progress = .done (.ok .done))
      (hs : a.workspace.status = .initialized) (he : a.events = before ++ a.workspace.tell u.versions)
      (hn : notices before = [])
  /-- Teardown has cut the update short. -/
  | cut {u : Update} {cause : DisposeCause} (hr : c.request = .update u)
      (hp : a.progress = .done (.error cause.error)) (hu : a.workspace.unload.cause = some cause)
      (he : a.events = [])
  /-- The workspace accepts no updates. -/
  | rejected {u : Update} (hr : c.request = .update u) (hp : a.progress = .done (.error .failed))
      (hs : a.workspace.status = .failed ∨ a.workspace.status = .disposed) (he : a.events = [])
  /-- The context could not be created. -/
  | uncreated {u : Update} {error : SyncError} {before : List Event} (hr : c.request = .update u)
      (hp : a.progress = .done (.error error)) (hc : error.isCreation = true ∨ env.refused = some error)
      (hb : w.status = .uninitialized ∨ w.status = .initialized) (hs : a.workspace.status = .failed)
      (he : a.events = before ++ c.report setup (.error error)) (hn : notices before = [])
  /-- A handler or the batch has failed. -/
  | failed {u : Update} {batch : OpenBatch} {error : SyncError} {before : List Event} (hr : c.request = .update u)
      (hb : c.phase = .closing batch) (hp : a.progress = .done (.error error))
      (hf : batch.failure = some error ∨ env.rejected = some error) (hi : a.workspace.contextId.isSome)
      (he : a.events = before ++ c.report setup (.error error)) (hn : notices before = [])

end Call

namespace Workspace

variable {setup : Setup} {env : Environment} {session : Session} {w : Workspace} {u : Update}

/-- Progress is followed from the first update on, if anybody follows it. -/
def Followed (setup : Setup) (w : Workspace) : Prop := w.status = .initialized → w.owner.isSome = setup.tracksProgress

/-- Lock and token are of no account. -/
theorem Followed.with_lock (h : w.Followed setup) (lock : Lock) (unload : UnloadToken) :
    Followed setup { w with lock, unload } := h

theorem Followed.enroll (h : w.Followed setup) (hr : w.Regular) (ha : w.admits = .ok ()) (u : Update) :
    (w.enroll setup u).1.Followed setup := by
  intro _
  rcases admits_eq_ok_iff.1 ha with hs | hs
  · have howner := (hr.uninitialized hs).1
    unfold Workspace.enroll
    rw [hs]
    dsimp only
    split
    · rename_i htracks
      exact htracks.symm
    · rename_i htracks
      simpa [howner] using htracks
  · simpa [Workspace.enroll, hs] using h hs

theorem Receives.followed {p : Passage} (hp : w.Receives setup env session u p) (h : w.Followed setup)
    (hr : w.Regular) : p.workspace.Followed setup := by
  cases hp with
  | refused => exact h
  | uncreated => nofun
  | creates ha | skips ha | applies ha | skipsBuild ha | misses ha | appliesBuild ha => exact h.enroll hr ha u

end Workspace

namespace Request

variable {setup : Setup} {env : Environment} {session : Session} {w : Workspace}

theorem passage_followed (h : w.Followed setup) (hr : w.Regular) (env : Environment) (session : Session)
    (request : Request) : (request.passage setup env session w).workspace.Followed setup := by
  have hp := request.enters setup env session w
  generalize request.passage setup env session w = p at hp ⊢
  cases hp with
  | receives hp => exact hp.followed h hr
  | releases | departs => rintro ⟨⟩
  | refuses | lacks | writes | gone | answers => exact h

/-- Only a teardown leaves a workspace torn down that was not. -/
theorem passage_disposed {request : Request} (hd : (request.passage setup env session w).workspace.status = .disposed)
    (hr : ∀ cause, request ≠ .dispose cause) : w.status = .disposed := by
  have hp := request.enters setup env session w
  generalize request.passage setup env session w = p at hp hd
  cases hp with
  | @receives u p hp =>
    have enrolled (ha : w.admits = .ok ()) : (w.enroll setup u).1.status ≠ .disposed := by
      rw [Workspace.enroll_status ha]
      nofun
    cases hp with
    | refused => exact hd
    | uncreated => cases hd
    | creates ha | skips ha | applies ha | skipsBuild ha | misses ha | appliesBuild ha => exact absurd hd (enrolled ha)
  | releases | departs => exact absurd rfl (hr _)
  | refuses | lacks | writes | gone | answers => exact hd

end Request

/-! ## Scenes -/

namespace Scene

/-- Every call can be accounted for: unload has been requested where a teardown got on, a batch is that of its
request, and who accepts updates has a registration if progress is followed. -/
structure Answerable (t : Terms) (s : Scene) (past : List Ending) : Prop extends s.Orderly past where
  torn : s.workspace.status = .disposed → s.workspace.unload.cause.isSome
  asked : ∀ {me c cause}, s.calls me = some c → c.request = .dispose cause → c.phase ≠ .entering →
    s.workspace.unload.cause.isSome
  own : ∀ {me c batch}, s.calls me = some c → c.phase = .closing batch → batch.Of t.Kinds c.request
  followed : s.workspace.Followed t.setup

variable {t : Terms} {i : Nat} {s s' : Scene} {past ended : List Ending} {env : Environment}
  {me : JobId} {c : Call} {session : Session} {a : Advance} {u : Update}

theorem answerable_fresh (h : s.Fresh) (hpast : ∀ e ∈ past, ∃ error, e.result = .error error) :
    s.Answerable t past := by
  obtain ⟨slice, hslice⟩ := h.workspace
  refine ⟨orderly_fresh h hpast, ?_, fun hc hr hp => ?_, fun hc hp => ?_, ?_⟩
  · rw [hslice]
    rintro ⟨⟩
  · obtain ⟨request, rfl⟩ := h.calls _ _ hc
    obtain rfl : request = .dispose _ := hr
    exact absurd rfl hp
  · obtain ⟨request, rfl⟩ := h.calls _ _ hc
    exact absurd (Call.start_holds request) (by simp [hp, Phase.holds])
  · rw [hslice]
    rintro ⟨⟩

/-- Where no unload is requested a workspace that refuses updates has failed. -/
theorem Answerable.admits_error (h : s.Answerable t past) (hu : s.workspace.unload.cause = none)
    {lock : Lock} {unload : UnloadToken} {error : SyncError}
    (ha : Workspace.admits { s.workspace with lock, unload } = .error error) :
    s.workspace.status = .failed ∧ error = .failed := by
  cases hs : s.workspace.status with
  | failed =>
    simp only [Workspace.admits, hs] at ha
    cases ha
    exact ⟨rfl, rfl⟩
  | disposed =>
    have := h.torn hs
    rw [hu] at this
    cases this
  | uninitialized | initialized => simp [Workspace.admits, hs] at ha

/-- An update that got the lock, with no unload requested. -/
theorem Answerable.account_receive (h : s.Answerable t past) (hc : s.calls me = some c)
    (hr : c.request = .update u) (hw : c.phase ≠ .awaitingEvaluation) (hu : s.workspace.unload.cause = none)
    (lock : Lock) (unload : UnloadToken) {p : Passage} (hp : p.Notified env { s.workspace with lock, unload } u) :
    c.Account t.setup env s.workspace (c.conclude t.setup p) := by
  obtain ⟨last, hlast⟩ := Call.conclude_workspace t.setup c p
  have hstatus : (c.conclude t.setup p).workspace.status = p.workspace.status := by rw [hlast]
  have htell (versions : Versions) :
      (c.conclude t.setup p).workspace.tell versions = p.workspace.tell versions := by
    rw [hlast]
    rfl
  cases hp with
  | @refused error ha hh hsame he =>
    obtain ⟨hfailed, rfl⟩ := h.admits_error hu ha
    obtain ⟨hdone, hevents⟩ := Call.conclude_finished t.setup c hh
    rw [hsame] at hstatus
    rw [Call.report_update hr, he] at hevents
    exact .rejected hr hdone (.inl (hstatus.trans hfailed)) hevents
  | @uncreated error ha hcreation hh hs he =>
    obtain ⟨hdone, hevents⟩ := Call.conclude_finished t.setup c hh
    have hbefore := Workspace.admits_eq_ok_iff.1 ha
    exact .uncreated hr hdone hcreation hbefore (hstatus.trans hs) hevents he
  | misses ha hcontext hb hh he =>
    -- a build does not get by without the first evaluation
    have hawaits : c.request.awaits = true := by
      rw [hr]
      cases hpayload : u.payload <;> simp [Update.kind, Request.awaits, hpayload] at hb ⊢
    rcases h.regular.integrated (h.awaited hc hawaits hw) with ⟨-, hsome⟩ | hd
    · rw [show s.workspace.context = none from hcontext] at hsome
      cases hsome
    · have := h.torn hd
      rw [hu] at this
      cases this
  | skipped hh hs he hn =>
    obtain ⟨hdone, hevents⟩ := Call.conclude_finished t.setup c hh
    rw [Call.report_ok, List.append_nil, he, ← htell] at hevents
    exact .processed hr hdone (hstatus.trans hs) hevents hn
  | opened hh hb he =>
    obtain ⟨hgoing, hevents⟩ := Call.conclude_closing t.setup c hh
    exact .silent (.inl ⟨_, hgoing⟩) (by rw [hevents, he])

/-- An update that closes its batch. -/
theorem Answerable.account_close (h : s.Answerable t past) (hc : s.calls me = some c)
    (hr : c.request = .update u) {batch : OpenBatch} (hp : c.phase = .closing batch) (env : Environment)
    (session : Session) :
    c.Account t.setup env s.workspace (c.conclude t.setup (s.workspace.close env session batch)) := by
  obtain ⟨hinitialized, hcontext⟩ := h.closing hc hp
  have hown := h.own hc hp
  have hversions := hown.versions u hr
  have hevents := Workspace.close_events env session s.workspace batch
  obtain ⟨hstatus, howner⟩ := Workspace.close_keeps env session s.workspace batch
  have hid := Workspace.close_contextId env session s.workspace batch
  have hheld := Workspace.close_result env session s.workspace batch
  generalize s.workspace.close env session batch = p at hevents hstatus howner hid hheld ⊢
  obtain ⟨last, hlast⟩ := Call.conclude_workspace t.setup c p
  obtain ⟨hdone, hconcluded⟩ := Call.conclude_finished t.setup c hheld
  rw [hevents, hversions] at hconcluded
  cases hresult : batch.result env with
  | error error =>
    obtain ⟨handle, hhandle⟩ := Option.isSome_iff_exists.1 hcontext
    rw [hresult] at hdone hconcluded
    refine .failed hr hp hdone (OpenBatch.of_result_error hresult) ?_ hconcluded rfl
    rw [hlast]
    show p.workspace.contextId.isSome
    rw [hid, h.regular.identity handle hhandle]
    rfl
  | ok answer =>
    -- the batch of an update answers nothing but that it is done
    have hanswer : answer = .done := by
      unfold OpenBatch.result at hresult
      split at hresult
      · cases hresult
      · cases hresult
        cases hcommit : batch.commit with
        | write id => simp [hcommit, Commit.versions?] at hversions
        | _ => rfl
    rw [hresult, hanswer] at hdone
    rw [hresult, Call.report_ok, List.append_nil] at hconcluded
    have htold : (c.conclude t.setup p).events =
        [.context batch.serial .endBatch] ++ (c.conclude t.setup p).workspace.tell u.versions := by
      rw [hconcluded, hlast]
      simp [Workspace.tell, howner]
    refine .processed hr hdone ?_ htold rfl
    rw [hlast]
    exact hstatus.trans hinitialized

/-- What is no update is told nothing of. -/
theorem Answerable.account_other (h : s.Answerable t past) (hc : s.calls me = some c)
    (hr : ∀ u, c.request ≠ .update u) (ha : c.Paths t.setup env me session s.workspace a) :
    c.Account t.setup env s.workspace a := by
  have concluded {p : Passage} (hp : notices p.events = []) : notices (c.conclude t.setup p).events = [] := by
    unfold Call.conclude
    cases p.held with
    | finished result => simp [hp, Call.report_of_not_update hr]
    | _ => exact hp
  refine .silent (.inr hr) ?_
  cases ha with
  | stays | passes | queues => rfl
  | yields | despairs | learns => simp [Call.finish, Call.report_of_not_update hr]
  | enters | succeeds => exact concluded (Request.passage_notices hr)
  | @closes batch hp hg =>
    refine concluded ?_
    have hwrite : ∃ id, batch.commit = .write id := by
      have hsuits := (h.fit hc).closing hp
      cases hcommit : batch.commit with
      | write id => exact ⟨id, rfl⟩
      | _ =>
        rw [hcommit] at hsuits
        cases hrequest : c.request with
        | update u => exact absurd hrequest (hr u)
        | _ =>
          rw [hrequest] at hsuits
          cases hsuits
    obtain ⟨id, hcommit⟩ := hwrite
    rw [Workspace.close_events, hcommit]
    cases batch.result env <;> rfl
  | parts hp hd => exact concluded (Workspace.finishDispose_notices ..)

/-- Every step of a call can be accounted for. -/
theorem Answerable.account (h : s.Answerable t past) (hc : s.calls me = some c)
    (ha : c.Paths t.setup env me session s.workspace a) : c.Account t.setup env s.workspace a := by
  by_cases hother : ∀ u, c.request ≠ .update u
  · exact h.account_other hc hother ha
  obtain ⟨u, hr⟩ := not_forall.1 hother
  rw [not_not] at hr
  have hheeds : c.request.heeds = true := by rw [hr]; rfl
  have finished {error : SyncError} {w : Workspace} (hf : error.isFault = false) :
      (c.finish t.setup session w (.error error)).events = [] := by
    rw [Call.finish, Call.report_update hr, hf]
    rfl
  cases ha with
  | stays | passes | queues => exact .silent (.inl ⟨_, rfl⟩) rfl
  | yields _ _ hu => exact .cut hr rfl hu (finished (DisposeCause.error_isCancellation _).2.1)
  | despairs hp hu hevaluation => exact .rejected hr rfl (h.regular.barred hevaluation) (finished rfl)
  | learns _ _ hsame => rcases hsame with ⟨hsame, -⟩ | ⟨hsame, -⟩ <;> cases hr.symm.trans hsame
  | enters hp hh hu =>
    refine h.account_receive hc hr (by simp [hp]) (hu hheeds)
      { s.workspace.lock with holder := some me } (c.request.raise s.workspace.unload) ?_
    rw [hr]
    exact (Workspace.receives u).notified
  | succeeds hp hh hu =>
    refine h.account_receive hc hr (by simp [hp]) (hu hheeds) s.workspace.lock s.workspace.unload ?_
    rw [hr]
    exact (Workspace.receives u).notified
  | closes hp hg => exact h.account_close hc hr hp env session
  | parts hp hd =>
    obtain ⟨cause, hdispose⟩ := (h.fit hc).releasing hp
    cases hr.symm.trans hdispose

/-- What a step leaves of the workspace as far as its calls can be accounted for. -/
theorem Answerable.workspace (h : s.Answerable t past) (hc : s.calls me = some c)
    (ha : c.Paths t.setup env me session s.workspace a) :
    a.workspace.Followed t.setup ∧ (a.workspace.status = .disposed → a.workspace.unload.cause.isSome) := by
  have kept (hu : s.workspace.unload.cause.isSome = true) : a.workspace.unload.cause.isSome = true := by
    obtain ⟨cause, hcause⟩ := Option.isSome_iff_exists.1 hu
    rw [ha.keeps_cause hcause]
    rfl
  have raised (w : Workspace) {cause : DisposeCause} (hr : c.request = .dispose cause) :
      (c.request.raise w.unload).cause.isSome = true := by
    rw [hr]
    cases hu : w.unload.cause <;> simp [Request.raise, UnloadToken.cancel, hu]
  have concluded {p : Passage} (hf : p.workspace.Followed t.setup) :
      (c.conclude t.setup p).workspace.Followed t.setup := by
    obtain ⟨last, hlast⟩ := Call.conclude_workspace t.setup c p
    rw [hlast]
    exact hf
  have status (p : Passage) : (c.conclude t.setup p).workspace.status = p.workspace.status := by
    obtain ⟨last, hlast⟩ := Call.conclude_workspace t.setup c p
    rw [hlast]
  cases ha with
  | stays | yields | despairs | learns | passes => exact ⟨h.followed, h.torn⟩
  | queues => exact ⟨h.followed, fun hd => kept (h.torn hd)⟩
  | enters hp hh hu =>
    refine ⟨concluded (Request.passage_followed (h.followed.with_lock _ _) (h.regular.with_lock _ _) env session
      c.request), ?_⟩
    intro hd
    rw [status] at hd
    by_cases hr : ∀ cause, c.request ≠ .dispose cause
    · have hbefore := Request.passage_disposed hd hr
      exact kept (h.torn hbefore)
    · obtain ⟨cause, hr⟩ := not_forall.1 hr
      rw [Call.conclude_unload, Request.passage_unload]
      exact raised s.workspace (not_not.1 hr)
  | succeeds hp hh hu =>
    refine ⟨concluded (Request.passage_followed h.followed h.regular env session c.request), ?_⟩
    intro hd
    rw [status] at hd
    by_cases hr : ∀ cause, c.request ≠ .dispose cause
    · exact kept (h.torn (Request.passage_disposed hd hr))
    · -- a teardown has asked for the lock before
      obtain ⟨cause, hr⟩ := not_forall.1 hr
      exact kept (h.asked hc (not_not.1 hr) (by simp [hp]))
  | @closes batch hp hg =>
    obtain ⟨hstatus, howner⟩ := Workspace.close_keeps env session s.workspace batch
    refine ⟨concluded fun hs => ?_, fun hd => kept (h.torn ?_)⟩
    · rw [howner]
      exact h.followed (hstatus.symm.trans hs)
    · rw [status] at hd
      exact hstatus.symm.trans hd
  | parts hp hd =>
    have hdisposed := h.releasing hc hp
    refine ⟨concluded fun hs => ?_, fun _ => kept (h.torn hdisposed)⟩
    cases hdisposed.symm.trans hs

/-- A call that goes on has asked for unload if it is a teardown, and a batch it opened is its own. -/
theorem Answerable.going (h : s.Answerable t past) (hc : s.calls me = some c) (he : t.fits env)
    (ha : c.Paths t.setup env me session s.workspace a) {c' : Call} (hgo : a.progress = .going c') :
    (∀ cause, c'.request = .dispose cause → c'.phase ≠ .entering → a.workspace.unload.cause.isSome) ∧
      ∀ batch, c'.phase = .closing batch → batch.Of t.Kinds c'.request := by
  have kept (hu : s.workspace.unload.cause.isSome = true) : a.workspace.unload.cause.isSome = true := by
    obtain ⟨cause, hcause⟩ := Option.isSome_iff_exists.1 hu
    rw [ha.keeps_cause hcause]
    rfl
  obtain ⟨hfit, hsame⟩ := fit_goes (t := ⟨t.setup, True, fun _ => True⟩) (h.fit hc) ha hgo
  rw [hsame]
  refine ⟨fun cause hr hp' => ?_, fun batch hp' => ?_⟩
  · by_cases hp : c.phase = .entering
    · rw [ha.requests hp hr]
      rfl
    · exact kept (h.asked hc hr hp)
  · have concluded {w : Workspace}
        (hgo : (c.conclude t.setup (c.request.passage t.setup env session w)).progress = .going c') :
        batch.Of t.Kinds c.request := by
      obtain ⟨-, -, ⟨other, hh, hother⟩ | ⟨handle, hh, hother⟩⟩ := Call.conclude_going hgo
      · cases hp'.symm.trans hother
        exact (Request.passage_of hh).mono fun hk => hk env he
      · exact absurd (hp'.symm.trans hother) nofun
    cases ha with
    | stays =>
      cases hgo
      exact h.own hc hp'
    | yields | despairs | learns => cases hgo
    | passes | queues =>
      cases hgo
      cases hp'
    | enters => exact concluded hgo
    | succeeds => exact concluded hgo
    | closes hp hg =>
      rw [(Call.conclude_finished _ _ (Workspace.close_result ..)).1] at hgo
      cases hgo
    | parts hp hd => cases hgo

/-- Every step keeps the calls so that they can be accounted for. -/
theorem Answerable.step (h : s.Answerable t past) (hs : Step t i s s' ended) :
    s'.Answerable t (past ++ ended) := by
  have ho := h.toOrderly.step hs
  cases hs with
  | rests => exact ⟨ho, h.torn, h.asked, h.own, h.followed⟩
  | unloads cause =>
    have kept (hu : s.workspace.unload.cause.isSome = true) : (s.workspace.unload.cancel cause).cause.isSome = true := by
      obtain ⟨first, hfirst⟩ := Option.isSome_iff_exists.1 hu
      rw [UnloadToken.cancel_cause hfirst]
      rfl
    exact ⟨ho, fun hd => kept (h.torn hd), fun hc hr hp => kept (h.asked hc hr hp), h.own, h.followed⟩
  | @begins me request hc hr =>
    refine ⟨ho, h.torn, fun {job c cause} hjob hrequest hp => ?_, fun hjob hp => ?_, h.followed⟩
    · change Function.update s.calls me _ job = _ at hjob
      by_cases hme : job = me
      · subst hme
        rw [Function.update_self] at hjob
        cases hjob
        obtain rfl : request = .dispose cause := hrequest
        exact absurd rfl hp
      · rw [Function.update_of_ne hme] at hjob
        exact h.asked hjob hrequest hp
    · exact h.own ((calls_begin hc (by rw [hp]; rfl)).1 hjob) hp
  | @goes env me c session he hc =>
    have ha := Call.paths t.setup env me session s.workspace (h.fit hc)
    obtain ⟨hfollowed, htorn⟩ := h.workspace hc ha
    refine ⟨ho, htorn, fun {job c' cause} hjob hr hp => ?_, fun {job c' batch} hjob hp => ?_, hfollowed⟩
    · by_cases hme : job = me
      · subst hme
        exact (h.going hc he ha (after_calls_self.1 hjob)).1 cause hr hp
      · rw [after_calls_of_ne _ _ hme] at hjob
        obtain ⟨first, hfirst⟩ := Option.isSome_iff_exists.1 (h.asked hjob hr hp)
        exact Option.isSome_iff_exists.2 ⟨first, ha.keeps_cause hfirst⟩
    · by_cases hme : job = me
      · subst hme
        exact (h.going hc he ha (after_calls_self.1 hjob)).2 batch hp
      · rw [after_calls_of_ne _ _ hme] at hjob
        exact h.own hjob hp

end Scene

end SliceSync
