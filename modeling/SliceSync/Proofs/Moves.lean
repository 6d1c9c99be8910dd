import SliceSync.Proofs.Runs
/-!
# Acts as moves

Hosts, drivers, senders and teardowns do nothing to a workspace but make calls on it, one at a time. So
every act moves the view in one of the ways of `Move` (`perform_moves`).
-/

namespace SliceSync

/-! ## Jobs by number -/

namespace Job

/-- The job of a number among those at work. -/
def among (jobs : List (JobId × Job)) (me : JobId) : Option Job := (jobs.find? (·.1 = me)).map (·.2)

theorem among_nil (me : JobId) : among [] me = none := rfl

theorem among_cons (e : JobId × Job) (jobs : List (JobId × Job)) (me : JobId) :
    among (e :: jobs) me = if e.1 = me then some e.2 else among jobs me := by
  unfold among
  by_cases h : e.1 = me <;> simp [h]

/-- A job that ended is at work no more. -/
theorem among_filter (jobs : List (JobId × Job)) (me : JobId) :
    among (jobs.filter (·.1 ≠ me)) = Function.update (among jobs) me none := by
  funext other
  -- a job has one entry at most, so all that matters of an entry is whether its number is asked for
  induction jobs with
  | nil => by_cases h : other = me <;> simp [among_nil, h]
  | cons e rest ih =>
    by_cases he : e.1 = me
    · by_cases ho : other = me
      · subst ho
        simpa [he] using ih
      · have hne : ¬me = other := fun h => ho h.symm
        simpa [he, among_cons, ho, hne] using ih
    · by_cases ho : other = me
      · subst ho
        simpa [he, among_cons] using ih
      · by_cases heo : e.1 = other
        · simp [heo, among_cons, ho]
        · simpa [he, heo, among_cons, ho] using ih

/-- A job that goes on is what it is now. -/
theorem among_map {jobs : List (JobId × Job)} {me : JobId} {job : Job}
    (h : (among jobs me).isSome) :
    among (jobs.map fun e => if e.1 = me then (me, job) else e) =
      Function.update (among jobs) me (some job) := by
  funext other
  induction jobs with
  | nil => cases h
  | cons e rest ih =>
    by_cases he : e.1 = me
    · by_cases ho : other = me
      · subst ho
        simp [he, among_cons]
      · -- the entries of other numbers stay what they were, in `rest` too
        have hne : ¬me = other := fun h => ho h.symm
        have hrest : among (rest.map fun e => if e.1 = me then (me, job) else e) other =
            among rest other := by
          clear ih h
          induction rest with
          | nil => rfl
          | cons d rest ih =>
            by_cases hd : d.1 = me
            · simpa [hd, among_cons, hne] using ih
            · simp [hd, among_cons, ih]
        simp [he, among_cons, ho, hne, hrest]
    · have hr : (among rest me).isSome := by simpa [he, among_cons] using h
      by_cases heo : e.1 = other
      · have ho : ¬other = me := fun h => he (heo.trans h)
        simp [among_cons, heo, ho]
      · simpa [he, among_cons, heo, Function.update_apply] using ih hr

theorem among_fresh {jobs : List (JobId × Job)} {n : JobId} (h : ∀ e ∈ jobs, e.1 < n) :
    among jobs n = none := by
  induction jobs with
  | nil => rfl
  | cons e rest ih =>
    have he : e.1 < n := h e (by simp)
    rw [among_cons, if_neg (Nat.ne_of_lt he)]
    exact ih fun d hd => h d (by simp [hd])

/-- A new job has the number it was given. -/
theorem among_append {jobs : List (JobId × Job)} {n : JobId} {job : Job} (h : ∀ e ∈ jobs, e.1 < n) :
    among (jobs ++ [(n, job)]) = Function.update (among jobs) n (some job) := by
  funext other
  induction jobs with
  | nil =>
    by_cases ho : other = n
    · subst ho
      simp [among_cons]
    · have hne : ¬n = other := fun h => ho h.symm
      simp [among_cons, among_nil, ho, hne]
  | cons e rest ih =>
    have he : e.1 < n := h e (by simp)
    have ih := ih fun d hd => h d (by simp [hd])
    by_cases heo : e.1 = other
    · have ho : ¬other = n := heo ▸ Nat.ne_of_lt he
      simp [among_cons, heo, ho]
    · simpa [among_cons, heo, Function.update_apply] using ih

/-- The call that the job of a number is making, read off the jobs at work. -/
def callIn (jobs : List (JobId × Job)) (me : JobId) : Option (Nat × Call) := (among jobs me).bind call?

theorem callIn_eq (jobs : List (JobId × Job)) : callIn jobs = (Option.bind · call?) ∘ among jobs := rfl

/-- A job that ended makes no call. -/
theorem callIn_filter (jobs : List (JobId × Job)) (me : JobId) :
    callIn (jobs.filter (·.1 ≠ me)) = Function.update (callIn jobs) me none := by
  rw [callIn_eq, among_filter, Function.comp_update, ← callIn_eq]
  rfl

/-- A job that goes on makes the call it has now. -/
theorem callIn_map {jobs : List (JobId × Job)} {me : JobId} {job : Job} (h : (among jobs me).isSome) :
    callIn (jobs.map fun e => if e.1 = me then (me, job) else e) =
      Function.update (callIn jobs) me job.call? := by
  rw [callIn_eq, among_map h, Function.comp_update, ← callIn_eq]
  rfl

/-- A new job makes its call. -/
theorem callIn_append {jobs : List (JobId × Job)} {n : JobId} {job : Job} (h : ∀ e ∈ jobs, e.1 < n) :
    callIn (jobs ++ [(n, job)]) = Function.update (callIn jobs) n job.call? := by
  rw [callIn_eq, among_append h, Function.comp_update, ← callIn_eq]
  rfl

theorem callIn_fresh {jobs : List (JobId × Job)} {n : JobId} (h : ∀ e ∈ jobs, e.1 < n) :
    callIn jobs n = none := by
  rw [callIn, among_fresh h]
  rfl

end Job

namespace World

/-- What a world shows of its workspaces. -/
def view (w : World) : View where
  session := w.session
  workspaces := w.hosted.map (·.workspace)
  calls := Job.callIn w.jobs
  log := w.log

@[simp] theorem view_addWorkspace (w : World) (slice : Slice) :
    (w.addWorkspace slice).view = w.view.adding [slice] := by
  simp [addWorkspace, view, View.adding]

/-- What is known of a driver is not seen. -/
theorem view_modifyHosted (w : World) (i : Nat) {f : Hosted → Hosted}
    (hf : ∀ h, (f h).workspace = h.workspace) : (w.modifyHosted i f).view = w.view := by
  have : (w.hosted.modify i f).map (·.workspace) = w.hosted.map (·.workspace) := by
    refine List.ext_getElem? fun j => ?_
    rw [List.getElem?_map, List.getElem?_map, List.getElem?_modify]
    by_cases hij : i = j <;> cases w.hosted[j]? <;> simp [hij, hf]
  simp [modifyHosted, view, this]

/-- Nor is who has claimed its exit. -/
theorem view_claimExit (w : World) (place : Nat) : (w.perform (.claimExit place)).view = w.view := by
  obtain ⟨hosted, hclaim, hsame⟩ := w.perform_claimExit place
  rw [hclaim, view, hsame, view]

end World

/-! ## What a step leaves of a job -/

/-- A driver that has done nothing yet. -/
def Driver.IsNew (d : Driver) : Prop :=
  ∃ workspace pair threshold, d = { workspace, pair, holdback := { threshold } }

theorem Driver.IsNew.handing {d : Driver} (h : d.IsNew) : d.handing = none := by
  obtain ⟨workspace, pair, threshold, rfl⟩ := h
  rfl

namespace World

/-- Nothing that is seen differs between the worlds, nor who is at work. -/
structure Alike (w w' : World) : Prop where
  setup : w'.setup = w.setup
  jobs : w'.jobs = w.jobs
  nextJob : w'.nextJob = w.nextJob
  view : w'.view = w.view

theorem Alike.refl (w : World) : Alike w w := ⟨rfl, rfl, rfl, rfl⟩

theorem Alike.trans {w w' w'' : World} (h : Alike w w') (h' : Alike w' w'') : Alike w w'' :=
  ⟨h'.setup.trans h.setup, h'.jobs.trans h.jobs, h'.nextJob.trans h.nextJob, h'.view.trans h.view⟩

/-- At most a driver has begun since, and has done nothing yet. -/
structure Grows (w w' : World) : Prop where
  setup : w'.setup = w.setup
  jobs : (w'.jobs = w.jobs ∧ w'.nextJob = w.nextJob) ∨
    ∃ d : Driver, d.IsNew ∧ w'.jobs = w.jobs ++ [(w.nextJob, .drive d)] ∧ w'.nextJob = w.nextJob + 1

theorem Alike.grows {w w' : World} (h : Alike w w') : Grows w w' := ⟨h.setup, .inl ⟨h.jobs, h.nextJob⟩⟩

theorem Grows.alike {w w' w'' : World} (h : Grows w w') (h' : Alike w' w'') : Grows w w'' := by
  refine ⟨h'.setup.trans h.setup, ?_⟩
  rw [h'.jobs, h'.nextJob]
  exact h.jobs

/-- What a step of the job `me` leaves behind, the job not put back yet: the call it makes now and
whether it has a write before it. -/
structure Leads (t : Terms) (env : Environment) (me : JobId) (w w' : World)
    (call : Option (Nat × Call)) (writing : Bool) : Prop where
  grows : Grows w w'
  writes : writing → t.writes
  move : Move t w.view (w'.view.withCall me call) (w.endings (.advance env me))
  /-- The call that the job was making is taken ahead. -/
  ahead : ∀ {i c ws}, w.callAt me = some (i, c) → w.view.workspaces[i]? = some ws → ∃ slices,
    w'.view.withCall me call = (w.view.after me i (c.advance w.setup env me w.session ws)).adding slices
  /-- Where no call is taken ahead the workspaces and the log stay as they are; other workspaces may come. -/
  still : (∀ i c ws, w.callAt me = some (i, c) → w.view.workspaces[i]? ≠ some ws) →
    (∃ slices, w'.view.workspaces = (w.view.adding slices).workspaces) ∧ w'.view.log = w.view.log

end World

/-- The call that is made by what goes on. -/
def Onward.callBy {α ρ : Type} (f : α → Option (Nat × Call)) : Onward α ρ → Option (Nat × Call)
  | .going state => f state
  | .done _ => none

/-- Whether what goes on has a write before it. -/
def Onward.writesBy {α ρ : Type} (f : α → Bool) : Onward α ρ → Bool
  | .going state => f state
  | .done _ => false

namespace World

variable {t : Terms} {env : Environment} {me : JobId} {w w' w'' : World}

theorem Leads.alike {call : Option (Nat × Call)} {writing : Bool} (h : Leads t env me w w' call writing)
    (ha : Alike w' w'') : Leads t env me w w'' call writing :=
  ⟨h.grows.alike ha, h.writes, ha.view ▸ h.move, ha.view ▸ h.ahead, ha.view ▸ h.still⟩

theorem endings_of_none (hc : w.callAt me = none) : w.endings (.advance env me) = [] := by
  simp [endings, hc]

/-- A job that takes a call ahead ends it as the call's step says. -/
theorem endings_of_call {i : Nat} {c : Call} {ws : Workspace} (hc : w.callAt me = some (i, c))
    (hw : w.view.workspaces[i]? = some ws) :
    w.endings (.advance env me) = (c.advance w.setup env me w.session ws).endings i c.request := by
  have hwi : w.view.workspaces[i]? = (w.hosted[i]?).map (·.workspace) := List.getElem?_map
  obtain ⟨h, hi, rfl⟩ := Option.map_eq_some_iff.1 (hwi.symm.trans hw)
  simp only [endings, hc, advanceCall, hi, Advance.endings]
  cases (c.advance w.setup env me w.session h.workspace).progress <;> rfl

/-- A job that makes no call goes on without one. -/
theorem leads_idle {writing : Bool} (hc : w.callAt me = none) (ha : Alike w w')
    (hw : writing → t.writes) : Leads t env me w w' none writing := by
  refine ⟨ha.grows, hw, ?_, fun hc' => absurd (hc.symm.trans hc') nofun,
    fun _ => ⟨⟨[], by simp [ha.view]⟩, congrArg View.log ha.view⟩⟩
  rw [ha.view, View.withCall_self hc, endings_of_none hc]
  simpa using Move.adds (t := t) (v := w.view) []

/-- A job that makes no call begins one. -/
theorem leads_begin {writing : Bool} {i : Nat} {request : Request} (hc : w.callAt me = none)
    (ha : Alike w w') (hw : writing → t.writes) (hr : request.isWrite → t.writes) :
    Leads t env me w w' (some (i, .start request)) writing := by
  refine ⟨ha.grows, hw, ?_, fun hc' => absurd (hc.symm.trans hc') nofun,
    fun _ => ⟨⟨[], by simp [ha.view]⟩, congrArg View.log ha.view⟩⟩
  rw [ha.view, endings_of_none hc]
  exact .begins hc hr

theorem advanceCall_grows (w : World) (env : Environment) (me : JobId) (i : Nat) (c : Call) :
    (w.advanceCall env me i c).1.setup = w.setup ∧ (w.advanceCall env me i c).1.jobs = w.jobs ∧
      (w.advanceCall env me i c).1.nextJob = w.nextJob := by
  unfold advanceCall
  split <;> exact ⟨rfl, rfl, rfl⟩

/-- A job that makes a call takes it ahead; workspaces may come with it. -/
theorem leads_call {i : Nat} {c : Call} (writing : Bool) (slices : List Slice) (hs : w.setup = t.setup)
    (he : t.fits env) (hc : w.callAt me = some (i, c))
    (hg : Grows (w.advanceCall env me i c).1 w')
    (hv : w'.view = (w.advanceCall env me i c).1.view.adding slices) (hw : writing → t.writes) :
    Leads t env me w w' ((w.advanceCall env me i c).2.callBy fun c => some (i, c)) writing := by
  obtain ⟨hsetup, hjobs, hnext⟩ := w.advanceCall_grows env me i c
  have hgrows : Grows w w' := ⟨hg.setup.trans hsetup, by rw [← hjobs, ← hnext]; exact hg.jobs⟩
  have hwi : w.view.workspaces[i]? = (w.hosted[i]?).map (·.workspace) := List.getElem?_map
  cases hi : w.hosted[i]? with
  | none =>
    -- there is no workspace in the place, and the call ends
    rw [hi] at hwi
    refine ⟨hgrows, hw, ?_, fun hc' hw' => ?_, fun _ => ⟨⟨slices, ?_⟩, ?_⟩⟩
    · rw [hv]
      simp only [endings, hc, advanceCall, hi]
      exact .misses slices hc hwi
    · cases hc.symm.trans hc'
      cases hwi.symm.trans hw'
    · rw [hv]
      simp only [advanceCall, hi]
    · rw [hv]
      simp only [advanceCall, hi]
      rfl
  | some h =>
    rw [hi] at hwi
    have hview : w'.view.withCall me ((w.advanceCall env me i c).2.callBy fun c => some (i, c)) =
        (w.view.after me i (c.advance w.setup env me w.session h.workspace)).adding slices := by
      rw [hv]
      simp only [advanceCall, hi]
      generalize c.advance w.setup env me w.session h.workspace = a
      obtain ⟨session, ws, events, progress⟩ := a
      cases progress <;>
        simp [view, List.map_set, Onward.callBy, View.adding, View.withCall, View.after]
    have hends : w.endings (.advance env me) = _ := endings_of_call hc hwi
    refine ⟨hgrows, hw, ?_, fun hc' hw' => ?_, fun hn => absurd hwi (hn _ _ _ hc)⟩
    · rw [hview, hends, hs]
      exact .steps slices he hc hwi
    · cases hc.symm.trans hc'
      cases hwi.symm.trans hw'
      exact ⟨slices, hview⟩

/-- A teardown makes its call, then none. -/
theorem leads_retirement {i : Nat} {r : Retirement} (writing : Bool) (hs : w.setup = t.setup)
    (he : t.fits env) (hc : w.callAt me = r.call?.map (i, ·)) (hw : writing → t.writes) :
    Leads t env me w (w.advanceRetirement env me i r).1
      ((w.advanceRetirement env me i r).2.callBy fun r => r.call?.map (i, ·)) writing := by
  cases r with
  | disposing c =>
    have h : Leads t env me w (w.advanceCall env me i c).1 _ writing :=
      leads_call writing [] hs he hc (Alike.refl _).grows (by simp) hw
    unfold advanceRetirement
    dsimp only
    generalize w.advanceCall env me i c = r at h ⊢
    obtain ⟨w', going | done⟩ := r <;> exact h
  | claiming =>
    unfold advanceRetirement
    dsimp only
    split
    · exact leads_idle hc (Alike.refl w) hw
    · split
      · exact leads_idle hc (Alike.refl w) hw
      · exact leads_idle hc ⟨rfl, rfl, rfl, view_modifyHosted w i fun _ => rfl⟩ hw
  | joining =>
    unfold advanceRetirement
    dsimp only
    split <;> exact leads_idle hc (Alike.refl w) hw

/-- A driver makes the call that hands an update over, or begins it. -/
theorem leads_driver {d : Driver} (hs : w.setup = t.setup) (he : t.fits env)
    (hc : w.callAt me = d.handing.map (d.workspace, ·)) :
    Leads t env me w (w.advanceDriver env me d).1
      ((w.advanceDriver env me d).2.callBy fun d => d.handing.map (d.workspace, ·)) false := by
  have ends (w : World) (exit : DriverExit) : Alike w (w.endDriver d exit).1 :=
    ⟨rfl, rfl, rfl, view_modifyHosted w _ fun _ => rfl⟩
  have no : false = true → t.writes := nofun
  unfold advanceDriver
  cases hd : d.handing with
  | some c =>
    rw [hd] at hc
    have h : Leads t env me w (w.advanceCall env me d.workspace c).1 _ false :=
      leads_call false [] hs he hc (Alike.refl _).grows (by simp) no
    dsimp only
    generalize w.advanceCall env me d.workspace c = r at h ⊢
    obtain ⟨w', going | (error | answer)⟩ := r
    · exact h
    · -- an update that failed ends the driver
      exact h.alike (ends w' _)
    · exact h
  | none =>
    rw [hd] at hc
    have waits {d' : Driver} (h : d'.handing = none) {w' : World} (ha : Alike w w') :
        Leads t env me w w' (d'.handing.map (d'.workspace, ·)) false := by
      rw [h]
      exact leads_idle hc ha no
    dsimp only
    split
    · exact leads_begin hc (Alike.refl w) no nofun
    · split
      · exact leads_idle hc (ends w _) no
      · split
        · exact leads_idle hc (ends w _) no
        · split
          · exact waits hd (Alike.refl w)
          · rename_i kind _
            split
            · exact waits hd ⟨rfl, rfl, rfl, rfl⟩
            · refine waits ?_ ⟨rfl, rfl, rfl, rfl⟩
              cases kind <;> exact hd

/-- A new job without a call is not seen. -/
theorem view_spawn {job : Job} (hf : ∀ e ∈ w.jobs, e.1 < w.nextJob) (hc : job.call? = none) :
    (w.spawn job).view = w.view := by
  have hj : Job.callIn (w.jobs ++ [(w.nextJob, job)]) = Job.callIn w.jobs := by
    rw [Job.callIn_append hf, hc, ← Job.callIn_fresh hf, Function.update_eq_self]
  simp [spawn, view, hj]

/-- Creating a workspace with its driver shows the workspace, if it is created. -/
theorem createHosted_view (env : Environment) (hf : ∀ e ∈ w.jobs, e.1 < w.nextJob) (slice : Slice) :
    Grows w (w.createHosted env slice).1 ∧
      ∃ slices, (w.createHosted env slice).1.view = w.view.adding slices := by
  unfold createHosted
  split
  · exact ⟨(Alike.refl w).grows, [], by simp⟩
  · split
    · exact ⟨(Alike.refl w).grows, [], by simp⟩
    · refine ⟨⟨rfl, .inr ⟨_, ⟨_, _, _, rfl⟩, rfl, rfl⟩⟩, [slice], ?_⟩
      dsimp only
      rw [view_spawn]
      · exact view_addWorkspace _ slice
      · exact hf
      · rfl

theorem createWanted_view (env : Environment) (hf : ∀ e ∈ w.jobs, e.1 < w.nextJob) (r : Reconciliation)
    (slice : Slice) :
    Grows w (w.createWanted env r slice).1 ∧
      (∃ slices, (w.createWanted env r slice).1.view = w.view.adding slices) ∧
      (w.createWanted env r slice).2.callBy HostCall.call? = none ∧
      (w.createWanted env r slice).2.writesBy HostCall.isWriting = false := by
  have h := createHosted_view env hf slice
  unfold createWanted
  generalize w.createHosted env slice = made at h ⊢
  obtain ⟨w', error | i⟩ := made
  · exact ⟨h.1, h.2, rfl, rfl⟩
  · exact ⟨h.1.alike ⟨rfl, rfl, rfl, rfl⟩, h.2, rfl, rfl⟩

/-- What comes of a task on the slots: a call only if the task is a write. -/
structure Tasked (w : World) (task : SlotTask) (r : World × Onward HostCall (Except SyncError HostAnswer)) :
    Prop where
  alike : Alike w r.1
  call : r.2.callBy HostCall.call? = none ∨
    ∃ i mutations, r.2.callBy HostCall.call? = some (i, .start (.write mutations)) ∧
      (HostCall.queued task).isWriting
  writes : r.2.writesBy HostCall.isWriting → (HostCall.queued task).isWriting

theorem performSlotTask_tasked (w : World) (task : SlotTask) : Tasked w task (w.performSlotTask task) := by
  cases task with
  | target slice mutations attempts =>
    unfold performSlotTask
    dsimp only
    split
    · exact ⟨⟨rfl, rfl, rfl, rfl⟩, .inr ⟨_, _, rfl, rfl⟩, fun _ => rfl⟩
    · exact ⟨⟨rfl, rfl, rfl, rfl⟩, .inl rfl, nofun⟩
  | forget i cause retired error =>
    have ha : Alike w (w.forgetRetired i) := by
      unfold forgetRetired
      split
      · exact .refl w
      · split
        · split
          · exact ⟨rfl, rfl, rfl, rfl⟩
          · exact .refl w
        · exact .refl w
    exact ⟨ha.trans ⟨rfl, rfl, rfl, rfl⟩, .inl rfl, nofun⟩
  | _ => exact ⟨⟨rfl, rfl, rfl, rfl⟩, .inl rfl, nofun⟩

theorem askSlots_tasked (w : World) (me : JobId) (task : SlotTask) :
    Tasked w task (w.askSlots me task) := by
  unfold askSlots
  dsimp only
  split
  · have ha : Alike w { w with slots := { w.slots with lock := w.slots.lock.request me } } :=
      ⟨rfl, rfl, rfl, rfl⟩
    have h := performSlotTask_tasked { w with slots := { w.slots with lock := w.slots.lock.request me } } task
    exact ⟨ha.trans h.alike, h.call, h.writes⟩
  · exact ⟨⟨rfl, rfl, rfl, rfl⟩, .inl rfl, id⟩

/-- A job that makes no call turns to the slots. -/
theorem Tasked.leads {task : SlotTask} {r : World × Onward HostCall (Except SyncError HostAnswer)}
    (h : Tasked w task r) (hc : w.callAt me = none) (hw : (HostCall.queued task).isWriting → t.writes) :
    Leads t env me w r.1 (r.2.callBy HostCall.call?) (r.2.writesBy HostCall.isWriting) := by
  rcases h.call with hn | ⟨i, mutations, hm, hq⟩
  · rw [hn]
    exact leads_idle hc h.alike fun hx => hw (h.writes hx)
  · rw [hm]
    exact leads_begin hc h.alike (fun hx => hw (h.writes hx)) fun _ => hw hq

/-- Beginning a call on the host turns to the slots or answers; a switch of the active slice is seen. -/
theorem leads_startHost {request : HostRequest} (hc : w.callAt me = none)
    (hw : request.isWrite → t.writes) :
    Leads t env me w (w.startHost me request).1 ((w.startHost me request).2.callBy HostCall.call?)
      ((w.startHost me request).2.writesBy HostCall.isWriting) := by
  cases request with
  | setSlices slices => exact (askSlots_tasked w me _).leads hc nofun
  | activate slices active =>
    have h := askSlots_tasked (w.setActiveConfiguration active) me
      (.reconcile (Slice.sortedSet (slices ++ [active])) .activeConfigurationChanged)
    have hn : ((w.setActiveConfiguration active).askSlots me
        (.reconcile (Slice.sortedSet (slices ++ [active])) .activeConfigurationChanged)).2.callBy
          HostCall.call? = none := h.call.resolve_right fun ⟨_, _, _, hq⟩ => (nomatch hq)
    unfold startHost
    refine ⟨⟨h.alike.setup, .inl ⟨h.alike.jobs, h.alike.nextJob⟩⟩, fun hx => (nomatch h.writes hx), ?_,
      fun hc' => absurd (hc.symm.trans hc') nofun, fun _ => ⟨⟨[], ?_⟩, ?_⟩⟩
    rotate_left
    · rw [h.alike.view, View.adding_nil]
      rfl
    · rw [h.alike.view]
      rfl
    rw [hn, h.alike.view, endings_of_none hc]
    have : ((w.setActiveConfiguration active).view).withCall me none =
        (w.setActiveConfiguration active).view := View.withCall_self hc
    rw [this]
    exact .activates _
  | handles => exact (askSlots_tasked w me _).leads hc nofun
  | activeHandle =>
    unfold startHost
    dsimp only
    split
    · exact leads_idle hc (Alike.refl w) nofun
    · exact (askSlots_tasked w me _).leads hc nofun
  | writeActive mutations attempts =>
    unfold startHost
    dsimp only
    split
    · exact leads_idle hc (Alike.refl w) nofun
    · split
      · exact leads_idle hc (Alike.refl w) nofun
      · exact (askSlots_tasked w me _).leads hc fun _ => hw rfl
  | shutdown => exact (askSlots_tasked w me _).leads hc nofun

/-- Where a step of a call on the host leads. -/
def HostLeads (t : Terms) (env : Environment) (me : JobId) (w : World) (c : HostCall) : Prop :=
  Leads t env me w (w.advanceHost env me c).1 ((w.advanceHost env me c).2.callBy HostCall.call?)
    ((w.advanceHost env me c).2.writesBy HostCall.isWriting)

/-- A call that sets slices creates the workspaces it wants, and evicts what is in the way. -/
theorem leads_creating {r : Reconciliation} (hk : w.Keeps t) (hc : w.callAt me = none) : HostLeads t env me w (.creating r) := by
  unfold HostLeads advanceHost
  dsimp only
  split
  · exact leads_idle hc ⟨rfl, rfl, rfl, rfl⟩ (by rintro ⟨⟩)
  · split
    · exact leads_idle hc (Alike.refl w) (by rintro ⟨⟩)
    · split
      · exact leads_begin hc ⟨rfl, rfl, rfl, rfl⟩ (by rintro ⟨⟩) (by rintro ⟨⟩)
      · rename_i slice rest _ _ _ _
        obtain ⟨hg, ⟨slices, hv⟩, hn, hq⟩ := createWanted_view env hk.fresh { r with wanted := rest } slice
        rw [hn, hq]
        refine ⟨hg, by rintro ⟨⟩, ?_, fun hc' => (by cases hc.symm.trans hc'),
          fun _ => ⟨⟨slices, by rw [hv]⟩, by rw [hv]; rfl⟩⟩
        have : (w.view.adding slices).withCall me none = w.view.adding slices := View.withCall_self hc
        rw [hv, this, endings_of_none hc]
        exact .adds slices

theorem leads_evicting {r : Reconciliation} {slice : Slice} {i : Nat} {call : Call} (hk : w.Keeps t)
    (he : t.fits env) (hc : w.callAt me = some (i, call)) :
    HostLeads t env me w (.evicting r slice i call) := by
  obtain ⟨-, hjobs, hnext⟩ := w.advanceCall_grows env me i call
  have h (w' : World) (slices : List Slice) hg hv : Leads t env me w w' _ false :=
    leads_call false slices hk.setup he hc hg hv nofun
  unfold HostLeads advanceHost
  dsimp only
  cases hr : w.advanceCall env me i call with
  | mk w' onward =>
    rw [hr] at h hjobs hnext
    cases onward with
    | going call => exact h w' [] (Alike.refl _).grows (by simp)
    | done result =>
      obtain ⟨hg, ⟨slices, hv⟩, hn, hq⟩ := createWanted_view (w := w') env
        (by rw [hjobs, hnext]; exact hk.fresh) r slice
      dsimp only
      rw [hn, hq]
      exact h _ slices hg hv

theorem leads_disposing {r : Reconciliation} {i : Nat} {retirement : Retirement} (hk : w.Keeps t)
    (he : t.fits env) (hc : w.callAt me = retirement.call?.map (i, ·)) :
    HostLeads t env me w (.disposing r i retirement) := by
  have h := leads_retirement false hk.setup he hc nofun
  unfold HostLeads advanceHost
  dsimp only
  cases hr : w.advanceRetirement env me i retirement with
  | mk w' onward =>
    rw [hr] at h
    cases onward with
    | going retirement => exact h
    | done exit =>
      -- once the workspace is gone, its slot is asked for again
      have ha := askSlots_tasked w' me (.forget i r.cause r.retired r.error)
      have hn := ha.call.resolve_right fun ⟨_, _, _, hq⟩ => nomatch hq
      have hq := ha.writes
      dsimp only
      rw [hn]
      exact ⟨(h.alike ha.alike).grows, fun hx => (nomatch hq hx), (h.alike ha.alike).move,
        (h.alike ha.alike).ahead, (h.alike ha.alike).still⟩

theorem leads_writing {mutations : List Mutation} {attempts i : Nat} {call : Call} (hk : w.Keeps t)
    (he : t.fits env) (hc : w.callAt me = some (i, call)) (hw : t.writes) :
    HostLeads t env me w (.writing mutations attempts i call) := by
  have h := leads_call true [] hk.setup he hc (Alike.refl _).grows (by simp) fun _ => hw
  unfold HostLeads advanceHost
  dsimp only
  cases hr : w.advanceCall env me i call with
  | mk w' onward =>
    rw [hr] at h
    obtain call | (error | answer) := onward
    · exact h
    · dsimp only
      split
      · exact h
      · exact ⟨h.grows, nofun, h.move, h.ahead, h.still⟩
    · cases answer <;> exact ⟨h.grows, nofun, h.move, h.ahead, h.still⟩

/-- A call on the host makes its calls on workspaces one after the other. -/
theorem leads_host {c : HostCall} (hk : w.Keeps t) (he : t.fits env) (hc : w.callAt me = c.call?)
    (hw : c.isWriting → t.writes) :
    HostLeads t env me w c := by
  cases c with
  | starting request => exact leads_startHost hc hw
  | queued task =>
    unfold HostLeads advanceHost
    dsimp only
    split
    · exact (performSlotTask_tasked w task).leads hc hw
    · exact leads_idle hc (Alike.refl w) hw
  | creating r => exact leads_creating hk hc
  | evicting r slice i call => exact leads_evicting hk he hc
  | retiring r =>
    unfold HostLeads advanceHost
    dsimp only
    split
    · exact leads_idle hc (Alike.refl w) nofun
    · exact leads_begin hc (Alike.refl w) nofun nofun
  | disposing r i retirement => exact leads_disposing hk he hc
  | writing mutations attempts i call => exact leads_writing hk he hc (hw rfl)
  | draining rest =>
    unfold HostLeads advanceHost
    dsimp only
    split
    · exact leads_idle hc (Alike.refl w) nofun
    · exact leads_begin hc (Alike.refl w) nofun nofun
  | closing rest i retirement =>
    have h := leads_retirement false hk.setup he hc nofun
    unfold HostLeads advanceHost
    dsimp only
    cases hr : w.advanceRetirement env me i retirement with
    | mk w' onward =>
      rw [hr] at h
      cases onward <;> exact h

/-- Every step of a job is one move. -/
theorem leads_job {job : Job} (hk : w.Keeps t) (he : t.fits env) (hc : w.callAt me = job.call?)
    (hw : job.isWriting → t.writes) :
    Leads t env me w (w.advanceJob env me job).1 ((w.advanceJob env me job).2.callBy Job.call?)
      ((w.advanceJob env me job).2.writesBy Job.isWriting) := by
  cases job with
  | call i c =>
    have h : Leads t env me w (w.advanceCall env me i c).1 _ false :=
      leads_call false [] hk.setup he hc (Alike.refl _).grows (by simp) nofun
    unfold advanceJob
    dsimp only
    generalize w.advanceCall env me i c = r at h ⊢
    obtain ⟨w', going | done⟩ := r <;> exact h
  | retire i r =>
    have h := leads_retirement false hk.setup he hc nofun
    unfold advanceJob
    dsimp only
    generalize w.advanceRetirement env me i r = r at h ⊢
    obtain ⟨w', going | done⟩ := r <;> exact h
  | drive d =>
    have h := leads_driver hk.setup he hc
    unfold advanceJob
    dsimp only
    generalize w.advanceDriver env me d = r at h ⊢
    obtain ⟨w', going | done⟩ := r <;> exact h
  | send s =>
    have ha : Alike w (w.advanceSending me s).1 := by
      obtain ⟨source, hsource⟩ := w.advanceSending_eq me s
      rw [hsource]
      exact ⟨rfl, rfl, rfl, rfl⟩
    unfold advanceJob
    dsimp only
    generalize w.advanceSending me s = r at ha ⊢
    obtain ⟨w', going | done⟩ := r <;> exact leads_idle hc ha nofun
  | host c =>
    have h := leads_host hk he hc hw
    unfold HostLeads at h
    unfold advanceJob
    dsimp only
    generalize w.advanceHost env me c = r at h ⊢
    obtain ⟨w', going | done⟩ := r <;> exact h

theorem job?_mem {job : Job} (h : w.job? me = some job) : (me, job) ∈ w.jobs := by
  obtain ⟨e, he, rfl⟩ := Option.map_eq_some_iff.1 h
  have hn : e.1 = me := by simpa using List.find?_some he
  exact hn ▸ List.mem_of_find?_eq_some he

theorem Grows.fresh (h : Grows w w') (hf : ∀ e ∈ w.jobs, e.1 < w.nextJob) :
    ∀ e ∈ w'.jobs, e.1 < w'.nextJob := by
  intro e he
  obtain ⟨hj, hn⟩ | ⟨d, -, hj, hn⟩ := h.jobs
  · rw [hn]
    exact hf e (hj ▸ he)
  · rw [hn]
    rw [hj] at he
    rcases List.mem_append.1 he with he | he
    · exact Nat.lt_succ_of_lt (hf e he)
    · rw [List.mem_singleton.1 he]
      exact Nat.lt_succ_self _

theorem Grows.writes (h : Grows w w') (hw : ∀ e ∈ w.jobs, e.2.isWriting → t.writes) :
    ∀ e ∈ w'.jobs, e.2.isWriting → t.writes := by
  intro e he
  obtain ⟨hj, -⟩ | ⟨d, -, hj, -⟩ := h.jobs
  · exact hw e (hj ▸ he)
  · rw [hj] at he
    rcases List.mem_append.1 he with he | he
    · exact hw e he
    · rw [List.mem_singleton.1 he]
      nofun

/-- Who is at work stays so. -/
theorem Grows.job? {job : Job} (h : Grows w w') (hj : w.job? me = some job) : w'.job? me = some job := by
  obtain ⟨hj', -⟩ | ⟨d, -, hj', -⟩ := h.jobs
  · rw [World.job?, hj']
    exact hj
  · obtain ⟨e, he, rfl⟩ := Option.map_eq_some_iff.1 hj
    rw [World.job?, hj', List.find?_append, he]
    rfl

/-- The world keeps to the terms, whatever is done. -/
theorem keeps_advance (hk : w.Keeps t) (he : t.fits env) : (w.advance env me).Keeps t := by
  cases hj : w.job? me with
  | none => rwa [advance_of_none hj]
  | some job =>
    have hc : w.callAt me = job.call? := by simp [callAt, hj]
    have h := leads_job hk he hc (hk.writes _ (job?_mem hj))
    have hme : me < (w.advanceJob env me job).1.nextJob := by
      have := hk.fresh _ (job?_mem hj)
      obtain ⟨-, hn⟩ | ⟨d, -, -, hn⟩ := h.grows.jobs
      · rwa [hn]
      · rw [hn]
        exact Nat.lt_succ_of_lt this
    obtain ⟨jobs, outcomes, hadvance⟩ := advance_eq env hj
    have hnext : (w.advance env me).nextJob = (w.advanceJob env me job).1.nextJob := by rw [hadvance]
    have hsetup : (w.advance env me).setup = (w.advanceJob env me job).1.setup := by rw [hadvance]
    refine ⟨hsetup.trans (h.grows.setup.trans hk.setup), fun e hm => hnext ▸ ?_, fun e hm => ?_⟩
    · obtain hm | ⟨job', -, rfl⟩ := mem_jobs_advance hj hm
      · exact h.grows.fresh hk.fresh e hm
      · exact hme
    · obtain hm | ⟨job', hgoing, rfl⟩ := mem_jobs_advance hj hm
      · exact h.grows.writes hk.writes e hm
      · have hw := h.writes
        rw [hgoing] at hw
        exact hw

/-- What a step of a job leaves, the job put back. -/
theorem leads_advance {job : Job} (hk : w.Keeps t) (he : t.fits env) (hj : w.job? me = some job) :
    ∃ w' call writing, Leads t env me w w' call writing ∧ (w.advance env me).view = w'.view.withCall me call := by
  have hc : w.callAt me = job.call? := by simp [callAt, hj]
  have h := leads_job hk he hc (hk.writes _ (job?_mem hj))
  have hfind : (Job.among (w.advanceJob env me job).1.jobs me).isSome :=
    Option.isSome_iff_exists.2 ⟨job, h.grows.job? hj⟩
  refine ⟨_, _, _, h, ?_⟩
  unfold advance
  rw [hj]
  dsimp only
  generalize w.advanceJob env me job = r at hfind ⊢
  obtain ⟨w', job' | outcome⟩ := r
  · simp only [view, View.withCall, Onward.callBy, Job.callIn_map hfind]
  · simp only [view, View.withCall, Onward.callBy, Job.callIn_filter]

/-- A step of a job moves the view. -/
theorem advance_moves (hk : w.Keeps t) (he : t.fits env) :
    Move t w.view (w.advance env me).view (w.endings (.advance env me)) := by
  cases hj : w.job? me with
  | none =>
    rw [endings_of_none (by simp [callAt, hj])]
    simpa [advance, hj] using Move.adds (t := t) (v := w.view) []
  | some job =>
    obtain ⟨w', call, writing, h, hv⟩ := leads_advance hk he hj
    rw [hv]
    exact h.move

/-- A step of a job that makes a call takes the call ahead. -/
theorem advance_view {i : Nat} {c : Call} {ws : Workspace} (hk : w.Keeps t) (he : t.fits env)
    (hc : w.callAt me = some (i, c)) (hw : w.view.workspaces[i]? = some ws) : ∃ slices,
    (w.advance env me).view = (w.view.after me i (c.advance w.setup env me w.session ws)).adding slices := by
  cases hj : w.job? me with
  | none => simp [callAt, hj] at hc
  | some job =>
    obtain ⟨w', call, writing, h, hv⟩ := leads_advance hk he hj
    rw [hv]
    exact h.ahead hc hw

/-- A step of a job that makes no call on a workspace leaves all workspaces and the log as they are. -/
theorem advance_still (hk : w.Keeps t) (he : t.fits env)
    (hn : ∀ i c ws, w.callAt me = some (i, c) → w.view.workspaces[i]? ≠ some ws) :
    (∃ slices, (w.advance env me).view.workspaces = (w.view.adding slices).workspaces) ∧
      (w.advance env me).log = w.log := by
  cases hj : w.job? me with
  | none => exact ⟨⟨[], by simp [advance, hj]⟩, by simp [advance, hj]⟩
  | some job =>
    obtain ⟨w', call, writing, h, hv⟩ := leads_advance hk he hj
    have hlog : (w.advance env me).log = w'.log := congrArg View.log hv
    rw [hv, hlog]
    exact h.still hn

/-- At most drivers have begun, and they make no call. -/
theorem Grows.callAt (h : Grows w w') (hf : ∀ e ∈ w.jobs, e.1 < w.nextJob) (me : JobId) :
    w'.callAt me = w.callAt me := by
  show Job.callIn w'.jobs me = Job.callIn w.jobs me
  obtain ⟨hj, -⟩ | ⟨d, hd, hj, -⟩ := h.jobs
  · rw [hj]
  · rw [hj, Job.callIn_append hf]
    by_cases hme : me = w.nextJob
    · subst hme
      rw [Function.update_self, Job.callIn_fresh hf]
      simp [Job.call?, hd.handing]
    · rw [Function.update_of_ne hme]

/-- A step of a job leaves the calls of others alone. -/
theorem callAt_advance_of_ne {other : JobId} (hk : w.Keeps t) (he : t.fits env) (hne : other ≠ me) :
    (w.advance env me).callAt other = w.callAt other := by
  cases hj : w.job? me with
  | none => simp [advance, hj]
  | some job =>
    obtain ⟨w', call, writing, h, hv⟩ := leads_advance hk he hj
    show (w.advance env me).view.calls other = _
    rw [hv, ← h.grows.callAt hk.fresh other]
    exact Function.update_of_ne hne ..

/-- A new job makes its call. -/
theorem view_spawn_call (hf : ∀ e ∈ w.jobs, e.1 < w.nextJob) (job : Job) :
    (w.spawn job).view = w.view.withCall w.nextJob job.call? := by
  simp only [spawn, view, View.withCall, Job.callIn_append hf]

theorem view_requestUnload (w : World) (i : Nat) (cause : DisposeCause) :
    (w.requestUnload i cause).view = w.view ∨
      ∃ ws, w.view.workspaces[i]? = some ws ∧
        (w.requestUnload i cause).view =
          { w.view with workspaces := w.view.workspaces.set i { ws with unload := ws.unload.cancel cause } } := by
  have hwi : w.view.workspaces[i]? = (w.hosted[i]?).map (·.workspace) := List.getElem?_map
  unfold requestUnload modifyHosted
  cases hi : w.hosted[i]? with
  | none =>
    left
    rw [List.modify_eq_self (List.getElem?_eq_none_iff.1 hi)]
  | some h =>
    right
    refine ⟨h.workspace, by rw [hwi, hi]; rfl, ?_⟩
    have : (w.hosted.modify i fun h =>
          { h with workspace := { h.workspace with unload := h.workspace.unload.cancel cause } }).map
            (·.workspace) =
        (w.hosted.map (·.workspace)).set i
          { h.workspace with unload := h.workspace.unload.cancel cause } := by
      have hlt : i < w.hosted.length := (List.getElem?_eq_some_iff.1 hi).1
      refine List.ext_getElem? fun j => ?_
      rw [List.getElem?_map, List.getElem?_modify, List.getElem?_set]
      by_cases hij : i = j
      · subst hij
        rw [hi]
        simp [hlt]
      · cases hj : w.hosted[j]? <;> simp [hij, hj]
    simp only [view, this]

/-- Every act moves the view. -/
theorem perform_moves {a : Act} (hk : w.Keeps t) (ha : a.Within t) :
    Move t w.view (w.perform a).view (w.endings a) := by
  have idle {w' : World} (hv : w'.view = w.view) : Move t w.view w'.view [] := by
    rw [hv]
    simpa using Move.adds (t := t) (v := w.view) []
  cases a with
  | addWorkspace slice => exact view_addWorkspace w slice ▸ .adds [slice]
  | call place request =>
    show Move t w.view (w.spawn _).view []
    rw [view_spawn_call hk.fresh]
    exact .begins (Job.callIn_fresh hk.fresh) ha
  | retire place cause =>
    show Move t w.view (w.spawn _).view []
    rw [view_spawn_call hk.fresh]
    exact .begins (Job.callIn_fresh hk.fresh) nofun
  | host request => exact idle (view_spawn hk.fresh rfl)
  | create env slice =>
    obtain ⟨-, slices, hv⟩ := createHosted_view env hk.fresh slice
    show Move t w.view (w.createHosted env slice).1.view []
    rw [hv]
    exact .adds slices
  | send pair updates => exact idle (view_spawn hk.fresh rfl)
  | setSource source => exact idle rfl
  | setActiveConfiguration slice => exact .activates _
  | setActiveEditor slice => exact .activates _
  | requestUnload place cause =>
    show Move t w.view (w.requestUnload place cause).view []
    obtain hv | ⟨ws, hw, hv⟩ := view_requestUnload w place cause
    · exact idle hv
    · rw [hv]
      exact .unloads cause hw
  | claimExit place => exact idle (view_claimExit w place)
  | advance env me => exact advance_moves hk ha

/-- What an act does to a workspace that is there: unload is requested, a call on it takes a step, or nothing. -/
theorem workspaces_perform {a : Act} {i : Nat} {ws : Workspace} (hk : w.Keeps t) (ha : a.Within t)
    (hw : w.view.workspaces[i]? = some ws) :
    (w.perform a).view.workspaces[i]? = some ws ∨
      (∃ cause, a = .requestUnload i cause ∧
        (w.perform a).view.workspaces[i]? = some { ws with unload := ws.unload.cancel cause }) ∨
      ∃ env me c, a = .advance env me ∧ w.callAt me = some (i, c) ∧
        (w.perform a).view.workspaces[i]? = some (c.advance w.setup env me w.session ws).workspace := by
  have hi := (List.getElem?_eq_some_iff.1 hw).1
  have added (slices : List Slice) : (w.view.adding slices).workspaces[i]? = some ws :=
    (List.getElem?_append_left hi).trans hw
  cases a with
  | addWorkspace slice => exact .inl (by rw [perform, view_addWorkspace]; exact added [slice])
  | call | retire | host | send =>
    left
    show (w.spawn _).view.workspaces[i]? = _
    rw [view_spawn_call hk.fresh]
    exact hw
  | create env slice =>
    obtain ⟨-, slices, hv⟩ := createHosted_view env hk.fresh slice
    left
    show (w.createHosted env slice).1.view.workspaces[i]? = _
    rw [hv]
    exact added slices
  | requestUnload place cause =>
    show (w.requestUnload place cause).view.workspaces[i]? = _ ∨ (∃ _, _ ∧ (w.requestUnload place cause).view.workspaces[i]? = _) ∨ _
    rcases view_requestUnload w place cause with hv | ⟨other, ho, hv⟩
    · exact .inl (by rw [hv]; exact hw)
    · rw [hv]
      by_cases hplace : place = i
      · subst hplace
        cases hw.symm.trans ho
        exact .inr (.inl ⟨cause, rfl, List.getElem?_set_self hi⟩)
      · exact .inl ((List.getElem?_set_ne hplace).trans hw)
  | claimExit place =>
    rw [view_claimExit]
    exact .inl hw
  | advance env me =>
    by_cases hcall : ∃ j c other, w.callAt me = some (j, c) ∧ w.view.workspaces[j]? = some other
    · obtain ⟨j, c, other, hc, ho⟩ := hcall
      obtain ⟨slices, hv⟩ := advance_view hk ha hc ho
      have hj := (List.getElem?_eq_some_iff.1 ho).1
      show (w.advance env me).view.workspaces[i]? = _ ∨ _ ∨ ∃ _, _
      by_cases hij : i = j
      · subst hij
        cases hw.symm.trans ho
        refine .inr (.inr ⟨env, me, c, rfl, hc, ?_⟩)
        show (w.advance env me).view.workspaces[i]? = _
        rw [hv]
        exact (List.getElem?_append_left (by simpa [View.after] using hi)).trans (List.getElem?_set_self hi)
      · left
        rw [hv]
        exact (List.getElem?_append_left (by simpa [View.after] using hi)).trans
          ((List.getElem?_set_ne (Ne.symm hij)).trans hw)
    · left
      obtain ⟨⟨slices, hv⟩, -⟩ := advance_still hk ha fun j c other hc ho => hcall ⟨j, c, other, hc, ho⟩
      show (w.advance env me).view.workspaces[i]? = _
      rw [hv]
      exact added slices
  | _ => exact .inl hw

/-- An act that is no step of a job leaves the call the job is making alone. -/
theorem callAt_perform {a : Act} {me : JobId} {i : Nat} {c : Call} (hk : w.Keeps t) (ha : a.Within t)
    (hc : w.callAt me = some (i, c)) (hne : ∀ env, a ≠ .advance env me) :
    (w.perform a).callAt me = some (i, c) := by
  have begun (job : Job) : (w.spawn job).callAt me = some (i, c) := by
    show (w.spawn job).view.calls me = _
    rw [view_spawn_call hk.fresh]
    -- a new job has a new number
    refine (Function.update_of_ne ?_ ..).trans hc
    rintro rfl
    exact absurd (hc.symm.trans (Job.callIn_fresh hk.fresh)) nofun
  cases a with
  | call | retire | host | send => exact begun _
  | create env slice =>
    obtain ⟨-, slices, hv⟩ := createHosted_view env hk.fresh slice
    show (w.createHosted env slice).1.view.calls me = _
    rw [hv]
    exact hc
  | requestUnload place cause =>
    show (w.requestUnload place cause).view.calls me = _
    obtain hv | ⟨ws, -, hv⟩ := view_requestUnload w place cause <;> rw [hv] <;> exact hc
  | claimExit place =>
    obtain ⟨hosted, hclaim, -⟩ := w.perform_claimExit place
    rw [hclaim]
    exact hc
  | advance env job =>
    have hjob : me ≠ job := by
      rintro rfl
      exact hne env rfl
    exact (callAt_advance_of_ne hk ha hjob).trans hc
  | _ => exact hc

/-- A world keeps to the terms on every act within them. -/
theorem keeps_perform {a : Act} (hk : w.Keeps t) (ha : a.Within t) : (w.perform a).Keeps t := by
  have spawns {job : Job} (hw : job.isWriting → t.writes) : (w.spawn job).Keeps t := by
    refine ⟨hk.setup, fun e he => ?_, fun e he => ?_⟩
    · rcases List.mem_append.1 he with he | he
      · exact Nat.lt_succ_of_lt (hk.fresh e he)
      · rw [List.mem_singleton.1 he]
        exact Nat.lt_succ_self _
    · rcases List.mem_append.1 he with he | he
      · exact hk.writes e he
      · rw [List.mem_singleton.1 he]
        exact hw
  cases a with
  | call place request => exact spawns nofun
  | retire place cause => exact spawns nofun
  | host request => exact spawns ha
  | send pair updates => exact spawns nofun
  | create env slice =>
    obtain ⟨hg, -⟩ := createHosted_view env hk.fresh slice
    exact ⟨hg.setup.trans hk.setup, hg.fresh hk.fresh, hg.writes hk.writes⟩
  | claimExit place =>
    obtain ⟨hosted, hclaim, -⟩ := w.perform_claimExit place
    rw [hclaim]
    exact ⟨hk.setup, hk.fresh, hk.writes⟩
  | advance env me => exact keeps_advance hk ha
  | _ => exact ⟨hk.setup, hk.fresh, hk.writes⟩

theorem keeps_initial (t : Terms) : (initial t.setup).Keeps t :=
  ⟨rfl, fun _ h => absurd h List.not_mem_nil, fun _ h => absurd h List.not_mem_nil⟩

@[simp] theorem runFrom_cons (w : World) (a : Act) (rest : List Act) :
    runFrom w (a :: rest) = runFrom (w.perform a) rest := rfl

@[simp] theorem endingsFrom_cons (w : World) (a : Act) (rest : List Act) :
    endingsFrom w (a :: rest) = w.endings a ++ endingsFrom (w.perform a) rest := rfl

theorem runFrom_append (w : World) (l m : List Act) : runFrom w (l ++ m) = runFrom (runFrom w l) m :=
  List.foldl_append

theorem run_concat (setup : Setup) (acts : List Act) (a : Act) :
    run setup (acts ++ [a]) = (run setup acts).perform a := by
  simp [run, runFrom]

end World

end SliceSync
