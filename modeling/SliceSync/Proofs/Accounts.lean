import SliceSync.Proofs.Answers
/-!
# Accounts

The outside is told of every update once it has ended, and of nothing else: that it has been processed, or that
it failed, unless teardown cut it short or the workspace accepted no more updates. What is told goes under one
registration, and a context that cannot be created is told of once, since the workspace accepts nothing after it.

Main statement: `World.accounted`.
-/

namespace SliceSync

open Event (notices milestones)

/-! ## What is told, and when -/

/-- What the outside is to be told of a call that ended so. -/
def Ending.notices (setup : Setup) (e : Ending) : List Notice :=
  match e.request, e.result with
  | .update u, .ok _ => if setup.tracksProgress then [.processed u.versions] else []
  | .update _, .error error =>
    if error.isCancellation || error = .failed then [] else [.fault error setup.settings.faultSeverity]
  | _, _ => []

theorem Ending.notices_of_not_update {setup : Setup} {e : Ending} (hr : ∀ u, e.request ≠ .update u) :
    e.notices setup = [] := by
  unfold notices
  split
  · rename_i hu _
    exact absurd hu (hr _)
  · rename_i hu _
    exact absurd hu (hr _)
  · rfl

/-- A workspace that accepts no updates accepts none later. -/
theorem Status.Leads.spent {s s' : Status} (h : s.Leads s') (hs : s = .failed ∨ s = .disposed) :
    s' = .failed ∨ s' = .disposed := by
  induction h with
  | refl => exact hs
  | tail _ hnext ih =>
    rcases ih with rfl | rfl
    · cases hnext
      exact .inr rfl
    · cases hnext

/-- An end with an error is no word of what has been processed. -/
theorem Call.processed_not_mem_report {setup : Setup} {c : Call} {result : Except SyncError Answer} {owner : String}
    {versions : Versions} (h : .processed owner versions ∈ c.report setup result) : False := by
  unfold Call.report at h
  split at h
  · split at h
    · cases List.mem_singleton.1 h
    · cases h
  · cases h

namespace Event

def isRegistration : Event → Bool
  | registered _ => true
  | _ => false

/-- Whether an event tells that a context could not be created. -/
def isCreationFault : Event → Bool
  | fault error _ => error.isCreation
  | _ => false

/-- What has been processed is told under a registration, before it ends. -/
def Heralded (l : List Event) : Prop :=
  ∀ before owner versions after, l = before ++ .processed owner versions :: after →
    .registered owner ∈ before ∧ ∀ other, .unregistered other ∉ before

variable {l more : List Event}

/-- Nothing is told to have been processed. -/
theorem Heralded.append_silent (h : Heralded l) (hn : ∀ owner versions, .processed owner versions ∉ more) :
    Heralded (l ++ more) := by
  intro before owner versions after heq
  rcases List.append_eq_append_iff.1 heq with ⟨between, rfl, hmore⟩ | ⟨between, hl, hafter⟩
  · exact absurd (by simp [hmore]) (hn owner versions)
  · cases between with
    | nil =>
      rw [List.nil_append] at hafter
      exact absurd (by simp [← hafter]) (hn owner versions)
    | cons e rest =>
      rw [List.cons_append, List.cons.injEq] at hafter
      obtain ⟨rfl, -⟩ := hafter
      exact h before owner versions rest hl

/-- One more update has been processed, under the registration. -/
theorem Heralded.append_processed (h : Heralded l) {owner : String} (hr : .registered owner ∈ l)
    (hu : ∀ other, .unregistered other ∉ l) (versions : Versions) : Heralded (l ++ [.processed owner versions]) := by
  intro before owner' versions' after heq
  rcases List.eq_nil_or_concat after with rfl | ⟨rest, last, rfl⟩
  · obtain ⟨rfl, hlast⟩ := List.append_inj' heq rfl
    cases hlast
    exact ⟨hr, hu⟩
  · rw [List.concat_eq_append, ← List.cons_append, ← List.append_assoc] at heq
    exact h before owner' versions' rest (List.append_inj' heq rfl).1

theorem processed_not_mem (hn : notices l = []) (owner : String) (versions : Versions) :
    .processed owner versions ∉ l := by
  intro hmem
  have := notice?_of_notices_eq_nil hn hmem
  cases this

theorem countP_isCreationFault_eq_zero (hn : notices l = []) : l.countP (·.isCreationFault) = 0 := by
  rw [List.countP_eq_zero]
  intro e he hfault
  have := notice?_of_notices_eq_nil hn he
  cases e <;> first | cases hfault | cases this

end Event

theorem Request.passage_contextId {setup : Setup} {env : Environment} {session : Session} {w : Workspace}
    {request : Request} (hi : w.contextId.isSome) : (request.passage setup env session w).workspace.contextId.isSome := by
  have h := request.enters setup env session w
  generalize request.passage setup env session w = p at h ⊢
  cases h with
  | @receives u p hp =>
    have enrolled : (w.enroll setup u).1.contextId.isSome := by rwa [Workspace.enroll_contextId]
    cases hp with
    | refused => exact hi
    | creates =>
      show ((w.enroll setup u).1.contextId.or _).isSome
      simp
    | uncreated | skips | applies | skipsBuild | misses | appliesBuild => exact enrolled
  | _ => exact hi

namespace Scene

variable {t : Terms} {i : Nat} {s s' : Scene} {past ended : List Ending} {env : Environment} {me : JobId} {c : Call}
  {u : Update}

/-- Progress is followed once, and as long as updates are accepted. -/
theorem Told.registered {registry : Registry} (h : s.Told registry) :
    s.log.countP (·.isRegistration) ≤ 1 ∧ (s.workspace.status = .initialized →
      (∀ owner, s.workspace.owner = some owner → .registered owner ∈ s.log) ∧
        ∀ owner, .unregistered owner ∉ s.log) := by
  obtain ⟨parting, -, hstory⟩ := h
  have hcount : s.log.countP (·.isRegistration) = (milestones s.log).countP (·.isRegistration) := by
    rw [milestones, List.countP_filter]
    refine List.countP_congr fun e _ => ?_
    cases e <;> simp [Event.isRegistration, Event.isMilestone]
  have hmem (e : Event) (he : e.isMilestone = true) : e ∈ s.log ↔ e ∈ milestones s.log := by
    rw [Event.mem_milestones]
    simp [he]
  have hfollowing (owner : Option String) : (Event.following owner).countP (·.isRegistration) ≤ 1 := by
    cases owner <;> simp [Event.following, Event.isRegistration]
  have hleaving (owner : Option String) : (Event.leaving owner).countP (·.isRegistration) = 0 := by
    cases owner <;> simp [Event.leaving, Event.isRegistration]
  have hlifetime (serial : Nat) (params : CreationParams) (members : List (String × Bool)) :
      (Event.lifetime serial params members).countP (·.isRegistration) = 0 := by
    simp [Event.lifetime, Event.isRegistration]
  rw [hcount]
  simp only [hmem (.registered _) rfl, hmem (.unregistered _) rfl]
  generalize milestones s.log = l at hstory
  cases hstory with
  | early hs => exact ⟨by simp, fun hi => by cases hs.symm.trans hi⟩
  | bare hs hc =>
    refine ⟨hfollowing _, fun _ => ⟨fun owner ho => ?_, fun owner ho => ?_⟩⟩
    · simp [Event.following, ho]
    · simp [Event.following] at ho
  | housed hs hc hm =>
    refine ⟨?_, fun _ => ⟨fun owner ho => ?_, fun owner ho => ?_⟩⟩
    · simpa [Event.isRegistration] using hfollowing _
    · simp [Event.following, ho]
    · simp [Event.following] at ho
  | parting hs hm =>
    refine ⟨?_, fun hi => by cases hs.symm.trans hi⟩
    simpa [Event.isRegistration] using hfollowing _
  | @past owner hs =>
    refine ⟨?_, fun hi => by cases hs.symm.trans hi⟩
    simpa [hleaving] using hfollowing owner
  | @gone owner handle params hs hm =>
    refine ⟨?_, fun hi => by cases hs.symm.trans hi⟩
    simpa [hleaving, hlifetime] using hfollowing owner

/-- What stays as it is once an update has failed. -/
structure Remains (w w' : Workspace) : Prop where
  spent : w.status = .failed ∨ w.status = .disposed → w'.status = .failed ∨ w'.status = .disposed
  known : w.contextId.isSome ∨ w.unload.cause.isSome → w'.contextId.isSome ∨ w'.unload.cause.isSome

theorem Remains.refl (w : Workspace) : Remains w w := ⟨id, id⟩

theorem Remains.trans {w w' w'' : Workspace} (h : Remains w w') (h' : Remains w' w'') : Remains w w'' :=
  ⟨h'.spent ∘ h.spent, h'.known ∘ h.known⟩

/-- The context of a workspace is known once it was there. -/
theorem Orderly.keeps_contextId (h : s.Orderly past) (hs : Step t i s s' ended) (hi : s.workspace.contextId.isSome) :
    s'.workspace.contextId.isSome := by
  rcases h.workspace_step hs with ⟨lock, unload, hw⟩ | ⟨env, me, c, session, lock, unload, p, last, -, -, hk, hw⟩
  · rw [hw]
    exact hi
  · rw [hw]
    show p.workspace.contextId.isSome
    rcases hk with rfl | ⟨batch, -, rfl⟩ | ⟨handle, -, rfl⟩
    · exact Request.passage_contextId hi
    · rwa [Workspace.close_contextId]
    · exact hi

theorem Orderly.remains (h : s.Orderly past) (hs : Step t i s s' ended) : Remains s.workspace s'.workspace := by
  refine ⟨(h.leads hs).spent, ?_⟩
  rintro (hi | hu)
  · exact .inl (h.keeps_contextId hs hi)
  · obtain ⟨cause, hcause⟩ := Option.isSome_iff_exists.1 hu
    exact .inr (Option.isSome_iff_exists.2 ⟨cause, h.keeps_cause hs hcause⟩)

/-- As long as all keep to their kinds a batch fails as one does. -/
theorem Answerable.ofBatch (h : s.Answerable t past) (hk : t.Kinds) (he : t.fits env) (hc : s.calls me = some c)
    {batch : OpenBatch} (hp : c.phase = .closing batch) {error : SyncError}
    (hf : batch.failure = some error ∨ env.rejected = some error) : error.ofBatch = true :=
  (hk env he).ofBatch (hf.imp_left ((h.own hc hp).failure hk error))

/-- A step is told of as the calls that it ends call for. -/
theorem Answerable.tells (h : s.Answerable t past) (hk : t.Kinds) (hs : Step t i s s' ended) :
    notices s'.log = notices s.log ++ ended.flatMap (Ending.notices t.setup) := by
  cases hs with
  | rests | unloads | begins => simp
  | @goes env me c session he hc =>
    have hpaths := Call.paths t.setup env me session s.workspace (h.fit hc)
    have hfollowed := (h.workspace hc hpaths).1
    have haccount := h.account hc hpaths
    generalize c.advance t.setup env me session s.workspace = a at hfollowed haccount
    show notices (s.log ++ a.events) = _
    rw [Event.notices_append]
    congr 1
    have ended {result : Except SyncError Answer} (hp : a.progress = .done result) :
        (a.endings i c.request).flatMap (Ending.notices t.setup) = Ending.notices t.setup ⟨i, c.request, result⟩ := by
      rw [Advance.endings_of_done hp, List.flatMap_singleton]
    cases haccount with
    | silent hn he =>
      rw [he]
      cases hp : a.progress with
      | going c' => simp [Advance.endings, hp]
      | done result =>
        rcases hn with ⟨c', hgo⟩ | hr
        · cases hp.symm.trans hgo
        · rw [ended hp, Ending.notices_of_not_update hr]
    | processed hr hp hstatus he hn =>
      rw [ended hp, he, Event.notices_append, hn, hr]
      have hsome := hfollowed hstatus
      cases ho : a.workspace.owner <;> rw [ho] at hsome <;>
        simp [Workspace.tell, ho, Ending.notices, ← hsome, notices, Event.notice?]
    | @cut u cause hr hp hu he =>
      rw [ended hp, he, hr]
      simp [Ending.notices, (DisposeCause.error_isCancellation cause).1]
    | rejected hr hp hstatus he =>
      rw [ended hp, he, hr]
      simp [Ending.notices]
    | @uncreated u error before hr hp hcreation hb hstatus hevents hn =>
      have hkind := (hk env he).isCreation hcreation
      obtain ⟨hfault, -, hcancellation⟩ := SyncError.isFault_of_isCreation hkind
      have hnot : error ≠ .failed := by
        rintro rfl
        cases hkind
      rw [ended hp, hevents, Event.notices_append, hn, Call.report_update hr, hr]
      simp [Ending.notices, hfault, hcancellation, hnot, notices, Event.notice?]
    | @failed u batch error before hr hb hp hf hi hevents hn =>
      have hkind := h.ofBatch hk he hc hb hf
      obtain ⟨hfault, -, hcancellation, -⟩ := SyncError.isFault_of_ofBatch hkind
      have hnot : error ≠ .failed := by
        rintro rfl
        cases hkind
      rw [ended hp, hevents, Event.notices_append, hn, Call.report_update hr, hr]
      simp [Ending.notices, hfault, hcancellation, hnot, notices, Event.notice?]

/-- An update ends well, or with an error of teardown, of a workspace that has failed, of the creation of its
context or of its batch. -/
theorem Answerable.results (h : s.Answerable t past) (hk : t.Kinds) (hs : Step t i s s' ended) {e : Ending}
    (hmem : e ∈ ended) (hr : e.request = .update u) :
    e.result = .ok .done ∨ ∃ error, e.result = .error error ∧
      (error.isCancellation = true ∨ error = .failed ∨ error.isCreation = true ∨ error.ofBatch = true) := by
  cases hs with
  | rests | unloads | begins => cases hmem
  | @goes env me c session he hc =>
    have haccount := h.account hc (Call.paths t.setup env me session s.workspace (h.fit hc))
    obtain ⟨result, hresult, rfl⟩ := Advance.mem_endings_iff.1 hmem
    cases haccount with
    | silent hn =>
      rcases hn with ⟨c', hgo⟩ | hn
      · exact absurd (hresult.symm.trans hgo) nofun
      · exact absurd hr (hn u)
    | processed _ hp =>
      cases hresult.symm.trans hp
      exact .inl rfl
    | cut _ hp =>
      cases hresult.symm.trans hp
      exact .inr ⟨_, rfl, .inl (DisposeCause.error_isCancellation _).1⟩
    | rejected _ hp =>
      cases hresult.symm.trans hp
      exact .inr ⟨_, rfl, .inr (.inl rfl)⟩
    | uncreated _ hp hcreation =>
      cases hresult.symm.trans hp
      exact .inr ⟨_, rfl, .inr (.inr (.inl ((hk env he).isCreation hcreation)))⟩
    | failed _ hb hp hf =>
      cases hresult.symm.trans hp
      exact .inr ⟨_, rfl, .inr (.inr (.inr (h.ofBatch hk he hc hb hf)))⟩

/-- An update that fails fatally leaves the workspace so that it accepts no updates; one that fails otherwise
leaves a context, or is cut short by teardown. -/
theorem Answerable.upshot (h : s.Answerable t past) (hk : t.Kinds) (hs : Step t i s s' ended) {e : Ending}
    (hmem : e ∈ ended) (hr : e.request = .update u) {error : SyncError} (hresult : e.result = .error error) :
    error.isFatal = true ∧ (s'.workspace.status = .failed ∨ s'.workspace.status = .disposed) ∨
      error.isFatal = false ∧ (s'.workspace.contextId.isSome ∨ s'.workspace.unload.cause.isSome) := by
  cases hs with
  | rests | unloads | begins => cases hmem
  | @goes env me c session he hc =>
    have haccount := h.account hc (Call.paths t.setup env me session s.workspace (h.fit hc))
    obtain ⟨result, hdone, rfl⟩ := Advance.mem_endings_iff.1 hmem
    obtain rfl : result = .error error := hresult
    cases haccount with
    | silent hn =>
      rcases hn with ⟨c', hgo⟩ | hn
      · exact absurd (hdone.symm.trans hgo) nofun
      · exact absurd hr (hn u)
    | processed _ hp => exact absurd (hdone.symm.trans hp) nofun
    | @cut _ cause _ hp hu =>
      cases hdone.symm.trans hp
      refine .inr ⟨by cases cause <;> rfl, .inr ?_⟩
      exact Option.isSome_iff_exists.2 ⟨cause, hu⟩
    | rejected _ hp hstatus =>
      cases hdone.symm.trans hp
      exact .inl ⟨rfl, hstatus⟩
    | uncreated _ hp hcreation _ hstatus =>
      cases hdone.symm.trans hp
      exact .inl ⟨(SyncError.isFault_of_isCreation ((hk env he).isCreation hcreation)).2.1, .inl hstatus⟩
    | failed _ hb hp hf hi =>
      cases hdone.symm.trans hp
      exact .inr ⟨(SyncError.isFault_of_ofBatch (h.ofBatch hk he hc hb hf)).2.1, .inl hi⟩

/-- What was told up to now fits together: processed versions go under a registration, and a context that cannot
be created is told of at most once, after which no updates are accepted. -/
structure Audited (t : Terms) (s : Scene) (past : List Ending) : Prop extends s.Answerable t past where
  told : s.Told t.setup.registry
  heralded : Event.Heralded s.log
  uncreated : t.Kinds → s.log.countP (·.isCreationFault) = 0 ∨
    s.log.countP (·.isCreationFault) = 1 ∧ (s.workspace.status = .failed ∨ s.workspace.status = .disposed)

theorem audited_fresh (h : s.Fresh) (hpast : ∀ e ∈ past, ∃ error, e.result = .error error) : s.Audited t past := by
  refine ⟨answerable_fresh h hpast, told_fresh h _, ?_, fun _ => .inl (by rw [h.log]; rfl)⟩
  rw [h.log]
  intro before owner versions after heq
  simp at heq

/-- Every step keeps what was told in order. -/
theorem Audited.step (h : s.Audited t past) (hs : Step t i s s' ended) : s'.Audited t (past ++ ended) := by
  have hanswerable := h.toAnswerable.step hs
  have htold := h.told.step h.toOrderly hs
  have spent := (h.toOrderly.leads hs).spent
  cases hs with
  | rests | unloads | begins => exact ⟨hanswerable, htold, h.heralded, h.uncreated⟩
  | @goes env me c session he hc =>
    have haccount := h.account hc (Call.paths t.setup env me session s.workspace (h.fit hc))
    generalize c.advance t.setup env me session s.workspace = a at hanswerable htold spent haccount
    have silently {l : List Event} (hn : notices l = []) : Event.Heralded (s.log ++ l) :=
      h.heralded.append_silent (Event.processed_not_mem hn)
    have faulty {l : List Event} (hn : notices l = []) (result : Except SyncError Answer) :
        Event.Heralded (s.log ++ (l ++ c.report t.setup result)) := by
      refine h.heralded.append_silent fun owner versions hmem => ?_
      rcases List.mem_append.1 hmem with hmem | hmem
      · exact Event.processed_not_mem hn owner versions hmem
      · exact Call.processed_not_mem_report hmem
    refine ⟨hanswerable, htold, ?_, fun hk => ?_⟩
    · show Event.Heralded (s.log ++ a.events)
      cases haccount with
      | silent _ he => exact silently he
      | @processed u before hr hp hstatus he hn =>
        obtain ⟨hregistered, hunregistered⟩ := htold.registered.2 hstatus
        change ∀ owner, _ → _ ∈ s.log ++ a.events at hregistered
        change ∀ owner, _ ∉ s.log ++ a.events at hunregistered
        cases ho : a.workspace.owner with
        | none =>
          simp only [Workspace.tell, ho, Option.map_none, Option.toList_none, List.append_nil] at he
          exact silently (he ▸ hn)
        | some owner =>
          simp only [Workspace.tell, ho, Option.map_some, Option.toList_some] at he
          rw [he, ← List.append_assoc]
          rw [he] at hregistered hunregistered
          refine (silently hn).append_processed ?_ (fun other hmem => hunregistered other ?_) u.versions
          · simpa using hregistered owner ho
          · simpa using hmem
      | cut _ _ _ he | rejected _ _ _ he => exact silently (by rw [he]; rfl)
      | uncreated _ _ _ _ _ he hn => exact he ▸ faulty hn _
      | failed _ _ _ _ _ he hn => exact he ▸ faulty hn _
    · have uncounted {l : List Event} (hl : l.countP (·.isCreationFault) = 0) :
          (s.log ++ l).countP (·.isCreationFault) = 0 ∨ (s.log ++ l).countP (·.isCreationFault) = 1 ∧
            (a.workspace.status = .failed ∨ a.workspace.status = .disposed) := by
        rw [List.countP_append, hl, Nat.add_zero]
        exact (h.uncreated hk).imp_right fun hone => ⟨hone.1, spent hone.2⟩
      show (s.log ++ a.events).countP _ = 0 ∨ (s.log ++ a.events).countP _ = 1 ∧ _
      cases haccount with
      | silent _ he => exact uncounted (Event.countP_isCreationFault_eq_zero he)
      | processed _ _ _ he hn =>
        refine uncounted ?_
        rw [he, List.countP_append, Event.countP_isCreationFault_eq_zero hn]
        cases ho : a.workspace.owner <;> simp [Workspace.tell, ho, Event.isCreationFault]
      | cut _ _ _ he | rejected _ _ _ he => exact uncounted (by rw [he]; rfl)
      | uncreated hr _ hcreation hb hstatus hevents hn =>
        -- updates were accepted, so none was told of before
        have hzero : s.log.countP (·.isCreationFault) = 0 := by
          refine (h.uncreated hk).resolve_right ?_
          rintro ⟨-, hspent⟩
          rcases hb with hb | hb <;> rcases hspent with hspent | hspent <;> cases hb.symm.trans hspent
        have hkind := (hk env he).isCreation hcreation
        refine .inr ⟨?_, .inl hstatus⟩
        rw [List.countP_append, hzero, hevents, List.countP_append, Event.countP_isCreationFault_eq_zero hn,
          Call.report_update hr, (SyncError.isFault_of_isCreation hkind).1]
        simp [Event.isCreationFault, hkind]
      | failed hr hb _ hf _ hevents hn =>
        obtain ⟨hfault, -, -, hnot⟩ := SyncError.isFault_of_ofBatch (h.ofBatch hk he hc hb hf)
        refine uncounted ?_
        rw [hevents, List.countP_append, Event.countP_isCreationFault_eq_zero hn, Call.report_update hr, hfault]
        simp [Event.isCreationFault, hnot]

end Scene

/-! ## Runs -/

namespace World

variable {setup : Setup} {acts : List Act} {i : Nat} {w : Workspace} {s : Scene}

theorem plays_audited {t : Terms} (ha : ∀ a ∈ acts, a.Within t) (i : Nat) :
    (run t.setup acts).Keeps t ∧
      (run t.setup acts).view.Plays i (Scene.Audited t) ((history t.setup acts).filter (·.place = i)) :=
  plays_run (fun hf hp => Scene.audited_fresh hf hp) (fun h hst => h.step hst) ha

/-- In a run within terms what was told of a workspace fits together. -/
theorem audited_within {t : Terms} (ha : ∀ a ∈ acts, a.Within t) (hs : (run t.setup acts).view.HasScene i s) :
    s.Audited t ((history t.setup acts).filter (·.place = i)) := by
  obtain ⟨-, ⟨hv, -⟩ | ⟨s', hs', h⟩⟩ := plays_audited ha i
  · exact absurd (hv.workspace.symm.trans hs.workspace) nofun
  · exact hs.unique hs' ▸ h

/-- In every run what was told of a workspace fits together. -/
theorem audited_run (hs : (run setup acts).view.HasScene i s) :
    s.Audited (freely setup) ((history setup acts).filter (·.place = i)) :=
  audited_within (fun a _ => within_freely setup a) hs

/-- A workspace takes a step with every act within the terms. -/
theorem scene_within {t : Terms} (ha : ∀ a ∈ acts, a.Within t) (hs : (run t.setup acts).view.HasScene i s) {a : Act}
    (hwithin : a.Within t) :
    ∃ s', (run t.setup (acts ++ [a])).view.HasScene i s' ∧
      Scene.Step t i s s' (((run t.setup acts).endings a).filter (·.place = i)) := by
  obtain ⟨s', hs', hstep⟩ := hs.move (perform_moves (plays_audited ha i).1 hwithin)
  exact ⟨s', by rwa [run_concat], hstep⟩

/-- A workspace takes a step with every act. -/
theorem scene_concat (hs : (run setup acts).view.HasScene i s) (a : Act) :
    ∃ s', (run setup (acts ++ [a])).view.HasScene i s' ∧
      Scene.Step (freely setup) i s s' (((run setup acts).endings a).filter (·.place = i)) :=
  scene_within (fun a _ => within_freely setup a) hs (within_freely setup a)

/-- During acts in which all keep to their kinds the outside is told of a workspace what the calls that end call for. -/
theorem tells_run {t : Terms} (hk : t.Kinds) (ha : ∀ a ∈ acts, a.Within t)
    (hs : (run t.setup acts).view.HasScene i s) {more : List Act} (hmore : ∀ a ∈ more, a.Within t) :
    notices ((run t.setup (acts ++ more)).eventsAt i) = notices ((run t.setup acts).eventsAt i) ++
      ((endingsFrom (run t.setup acts) more).filter (·.place = i)).flatMap (Ending.notices t.setup) := by
  induction more generalizing acts s with
  | nil => simp [endingsFrom]
  | cons a rest ih =>
    have hwithin := hmore a List.mem_cons_self
    obtain ⟨s', hs', hstep⟩ := scene_within ha hs hwithin
    have htells : notices s'.log = notices s.log ++ _ := (audited_within ha hs).tells hk hstep
    have hrest := ih (fun b hb => (List.mem_append.1 hb).elim (ha b) fun hb => List.mem_singleton.1 hb ▸ hwithin) hs'
      fun b hb => hmore b (List.mem_cons_of_mem a hb)
    rw [List.append_assoc, List.singleton_append] at hrest
    rw [hrest, endingsFrom_cons, ← run_concat, List.filter_append, List.flatMap_append, ← List.append_assoc]
    congr 1
    rwa [hs.log, hs'.log] at htells

/-- What the outside is told of a workspace, and what its updates return, as long as all collaborators keep to the
errors meant for them. -/
structure Accounted (setup : Setup) (acts : List Act) (i : Nat) : Prop where
  /-- It is told of every update once, when the update ends, as its end calls for, and of nothing else. -/
  told : ∀ more : List Act, (∀ a ∈ more, a.Within (.inKind setup)) →
    notices ((run setup (acts ++ more)).eventsAt i) = notices ((run setup acts).eventsAt i) ++
      ((endingsFrom (run setup acts) more).filter (·.place = i)).flatMap (Ending.notices setup)
  /-- Updates end well or with one of these errors; that the workspace was disposed of without a cause is none. -/
  results : ∀ a : Act, a.Within (.inKind setup) →
    ∀ e ∈ (run setup acts).endings a, e.place = i → ∀ u, e.request = .update u →
      e.result = .ok .done ∨ ∃ error, e.result = .error error ∧
        (error.isCancellation = true ∨ error = .failed ∨ error.isCreation = true ∨ error.ofBatch = true)
  registered : ((run setup acts).eventsAt i).countP (·.isRegistration) ≤ 1
  /-- What has been processed is told between registration and its end. -/
  heralded : Event.Heralded ((run setup acts).eventsAt i)
  /-- That the context cannot be created is told once at most. -/
  uncreated : ((run setup acts).eventsAt i).countP (·.isCreationFault) ≤ 1
  /-- An error is fatal if and only if the workspace has failed from then on, as long as it is not disposed of. -/
  fatal : ∀ a : Act, a.Within (.inKind setup) →
    ∀ e ∈ (run setup acts).endings a, e.place = i → ∀ u error, e.request = .update u →
      e.result = .error error → ∀ more w', (run setup (acts ++ [a] ++ more)).workspace? i = some w' →
        w'.unload.cause = none → (error.isFatal = true ↔ w'.status = .failed)

/-- Every update of a workspace is accounted for, whatever calls mix and whatever fails, as long as whoever fails keeps
to the error meant for it. -/
theorem accounted (setup : Setup) (acts : List Act) (ha : ∀ a ∈ acts, a.Within (.inKind setup)) (i : Nat)
    (w : Workspace) (hw : (run setup acts).workspace? i = some w) : Accounted setup acts i := by
  have hk : (Terms.inKind setup).Kinds := fun _ => id
  obtain ⟨s, hs, rfl, -⟩ := orderly_run setup acts (i := i) (by rwa [view_workspaces])
  have haudited := audited_within (t := .inKind setup) ha hs
  have hevents : (run setup acts).eventsAt i = s.log := hs.log.symm
  constructor
  case told => exact fun more hmore => tells_run hk ha hs hmore
  case results =>
    intro a hwithin e hmem hi u hr
    obtain ⟨s', hs', hstep⟩ := scene_within ha hs hwithin
    exact haudited.results hk hstep (List.mem_filter.2 ⟨hmem, by simpa using hi⟩) hr
  case registered =>
    rw [hevents]
    exact haudited.told.registered.1
  case heralded =>
    rw [hevents]
    exact haudited.heralded
  case uncreated =>
    rw [hevents]
    rcases haudited.uncreated hk with h | ⟨h, -⟩ <;> omega
  case fatal =>
    intro a hwithin e hmem hi u error hr hresult more w' hw' hu
    obtain ⟨s', hs', hstep⟩ := scene_within ha hs hwithin
    have hupshot := haudited.upshot hk hstep (List.mem_filter.2 ⟨hmem, by simpa using hi⟩) hr hresult
    have hthen : (run setup (acts ++ [a])).workspace? i = some s'.workspace := by
      rw [← view_workspaces]
      exact hs'.workspace
    obtain ⟨later, hlater, hspent⟩ := later_run (R := fun w w' => Scene.Remains w w') (fun w => .refl w)
      (fun h h' => h.trans h') (fun h hst => h.remains hst) hthen more
    cases hlater.symm.trans hw'
    obtain ⟨s'', hs'', rfl, -⟩ := orderly_run setup (acts ++ [a] ++ more) (i := i) (by rwa [view_workspaces])
    have hafter := audited_run hs''
    have hlive : s''.workspace.status ≠ .disposed := by
      intro hd
      have := hafter.torn hd
      rw [hu] at this
      cases this
    rcases hupshot with ⟨hfatal, hstatus⟩ | ⟨hfatal, hstatus⟩
    · simpa [hfatal] using (hspent.spent hstatus).resolve_right hlive
    · have hid : s''.workspace.contextId.isSome := by simpa [hu] using hspent.known hstatus
      -- a workspace that has failed never had a context
      have hnot : s''.workspace.status ≠ .failed := by
        intro hf
        have hnone := hafter.regular.nameless (hafter.regular.failed hf).1 hlive
        rw [hnone] at hid
        cases hid
      simp [hfatal, hnot]

set_option maxRecDepth 100000 in
/-- An evaluation is processed and the batch of a build is rejected: one notice of each, and the workspace has not
failed. -/
theorem accounted_rejected :
    let acts := Sample.twoCalls (Sample.evaluation ["a.cs"]) (Sample.build ["/r:a.dll"]) ++
      [.advance { rejection := some "full" } 1]
    ∃ w, (run {} acts).workspace? 0 = some w ∧ w.status = .initialized ∧
      notices ((run {} acts).eventsAt 0) = [.processed .empty, .fault (.batch "full") .error] ∧
      Accounted {} acts 0 := by
  intro acts
  have h : ((run {} acts).workspace? 0).map (·.status) = some .initialized := by decide +kernel
  have hnotices : notices ((run {} acts).eventsAt 0) = [.processed .empty, .fault (.batch "full") .error] := by
    decide +kernel
  have hkinds : ∀ a ∈ acts, a.Within (.inKind {}) := by
    intro a ha
    rcases List.mem_append.1 ha with ha | ha
    · exact Sample.twoCalls_within Environment.inKind_default _ _ a ha
    · rw [List.mem_singleton.1 ha]
      exact Environment.inKind_of_rejection "full"
  obtain ⟨w, hw, hstatus⟩ := Option.map_eq_some_iff.1 h
  exact ⟨w, hw, hstatus, hnotices, accounted _ _ hkinds _ w hw⟩

end World

end SliceSync
