import SliceSync.Proofs.Outcomes
import SliceSync.Proofs.Stages
/-!
# Calls that write

What a step of a write on a workspace can do (`Call.Writes`): it waits, or fails before its action has run, or
runs the action in a batch of its own that it then waits to close. While the batch is open nobody else speaks to
the context (`World.callsOf_perform`).
-/

namespace SliceSync

/-- What happens as the action of a write runs for the context with this serial and id. -/
def Event.action (serial : Nat) (id : ContextId) (mutations : List Mutation) : List Event :=
  .context serial .startBatch :: .acted id :: mutations.map fun m => .context serial (.mutate m)

/-- The batch of a write to the context with this serial and id. -/
def OpenBatch.ofWrite (serial : Nat) (id : ContextId) : OpenBatch where
  serial := serial
  failure := none
  commit := .write id

/-- What a write answers when its batch closes. -/
def Environment.written (env : Environment) (id : ContextId) : Except SyncError Answer :=
  match env.rejected with
  | some error => .error error
  | none => .ok (.wrote id)

/-- Whether an error tells that a context did not integrate a batch. -/
def SyncError.isBatch : SyncError → Bool
  | .batch _ => true
  | _ => false

theorem SyncError.eq_batch {error : SyncError} (h : error.isBatch = true) : ∃ message, error = .batch message := by
  cases error <;> first | exact ⟨_, rfl⟩ | cases h

namespace Call

/-- Whether a call waits for its batch to close. -/
def isClosing (c : Call) : Bool :=
  match c.phase with
  | .closing _ => true
  | _ => false

/-- The ways a step of a write can go. -/
inductive Writes (env : Environment) (w : Workspace) (mutations : List Mutation) (c : Call) (a : Advance) : Prop
  | waits {c' : Call} (hc : c.isClosing = false) (he : a.events = []) (hp : a.progress = .going c')
      (hr : c'.request = .write mutations) (hc' : c'.isClosing = false)
  | fails {error : SyncError} (hc : c.isClosing = false) (he : a.events = []) (hp : a.progress = .done (.error error))
      (hb : error.isBatch = false)
      (hu : error = .activeConfigurationChanged → w.unload.cause = some .activeConfigurationChanged)
  | acts {handle : ContextHandle} (hc : c.isClosing = false) (he : a.events = Event.action handle.serial handle.id mutations)
      (hp : a.progress = .going ⟨.write mutations, .closing (.ofWrite handle.serial handle.id)⟩)
  | stays {batch : OpenBatch} (hc : c.phase = .closing batch) (he : a.events = []) (hp : a.progress = .going c)
  | closes {n : Nat} {id : ContextId} (hc : c.phase = .closing (.ofWrite n id)) (he : a.events = [.context n .endBatch])
      (hp : a.progress = .done (env.written id))

variable {setup : Setup} {env : Environment} {me : JobId} {c : Call} {session : Session} {w : Workspace}
  {mutations : List Mutation}

theorem DisposeCause.isBatch_error (cause : DisposeCause) : cause.error.isBatch = false := by
  cases cause <;> rfl

theorem DisposeCause.eq_of_error {cause : DisposeCause} (h : cause.error = .activeConfigurationChanged) :
    cause = .activeConfigurationChanged := by
  cases cause
  · cases h
  · rfl

/-- Without a request to unload only the status can refuse. -/
theorem admits_error {error : SyncError} (hu : w.unload.cause = none) (h : w.admits = .error error) :
    error = .failed ∨ error = .disposed := by
  unfold Workspace.admits UnloadToken.check at h
  rw [hu] at h
  cases hs : w.status with
  | failed =>
    rw [hs] at h
    exact .inl (Except.error.inj h).symm
  | disposed =>
    rw [hs] at h
    exact .inr (Except.error.inj h).symm
  | uninitialized | initialized =>
    rw [hs] at h
    cases h

/-- A write that gets the lock runs its action, or fails. -/
theorem writes_passage (hr : c.request = .write mutations) (hc : c.isClosing = false) (lock : Lock)
    (hu : w.unload.cause = none) :
    c.Writes env w mutations (c.conclude setup ((Request.write mutations).passage setup env session { w with lock })) := by
  unfold Request.passage Workspace.beginWrite
  dsimp only
  split
  · rename_i error ha
    have hwhich : error = .failed ∨ error = .disposed := admits_error hu ha
    refine .fails hc (by simp [conclude, report, hr]) rfl ?_ ?_ <;> rcases hwhich with rfl | rfl
    exacts [rfl, rfl, by simp, by simp]
  · split
    · exact .fails hc (by simp [conclude, report, hr]) rfl rfl (by simp)
    · exact .acts hc rfl (by simp [conclude, OpenBatch.ofWrite, hr])

/-- Every step of a write goes in one of these ways. -/
theorem writes (hr : c.request = .write mutations) (hfit : c.Fit)
    (hb : ∀ batch, c.phase = .closing batch → ∃ n id, batch = .ofWrite n id) :
    c.Writes env w mutations (c.advance setup env me session w) := by
  have hpaths := Call.paths setup env me session w hfit
  have hheeds : c.request.heeds = true := by rw [hr]; rfl
  generalize c.advance setup env me session w = a at hpaths
  have report (result : Except SyncError Answer) : c.report setup result = [] := by simp [Call.report, hr]
  cases hpaths with
  | stays =>
    cases hp : c.phase with
    | closing batch => exact .stays hp rfl rfl
    | _ => exact .waits (by simp [isClosing, hp]) rfl rfl hr (by simp [isClosing, hp])
  | @yields cause lock _ hp hu _ =>
    refine .fails ?_ (report _) rfl (DisposeCause.isBatch_error cause) fun h => ?_
    · unfold isClosing
      split
      · rename_i hphase
        rw [hphase] at hp
        cases hp
      · rfl
    · rw [hu, DisposeCause.eq_of_error h]
  | despairs hp => exact .fails (by simp [isClosing, hp]) (report _) rfl rfl nofun
  | learns hp hu hwhich => rcases hwhich with ⟨h, -⟩ | ⟨h, -⟩ <;> cases hr.symm.trans h
  | passes hp => exact .waits (by simp [isClosing, hp]) rfl rfl hr rfl
  | queues hp => exact .waits (by simp [isClosing, hp]) rfl rfl hr rfl
  | enters hp hh hu =>
    rw [hr]
    exact writes_passage hr (by simp [isClosing, hp]) _ (hu hheeds)
  | succeeds hp hh hu =>
    rw [hr]
    exact writes_passage hr (by simp [isClosing, hp]) w.lock (hu hheeds)
  | @closes batch hp hg =>
    obtain ⟨n, id, rfl⟩ := hb batch hp
    unfold Workspace.close
    dsimp only [OpenBatch.ofWrite]
    cases hrejected : env.rejected with
    | some error =>
      exact .closes hp (by simp [conclude, report]) (by simp [conclude, Environment.written, hrejected])
    | none =>
      exact .closes hp (by simp [conclude, report, Workspace.commit])
        (by simp [conclude, Environment.written, hrejected, Workspace.commit])
  | parts hp =>
    obtain ⟨cause, hcause⟩ := hfit.releasing hp
    cases hr.symm.trans hcause

end Call

namespace World

variable {t : Terms} {setup : Setup} {acts : List Act} {w : World} {a : Act} {me : JobId} {i : Nat} {c : Call}

/-- An act adds to the log what the step of a call brings that it takes ahead, and nothing else. -/
theorem log_perform (hk : w.Keeps t) (ha : a.Within t) :
    (w.perform a).log = w.log ∨
      ∃ env me i c ws, a = .advance env me ∧ w.callAt me = some (i, c) ∧ w.view.workspaces[i]? = some ws ∧
        (w.perform a).log =
          w.log ++ (c.advance w.setup env me w.session ws).events.map fun event => ⟨me, i, event⟩ := by
  cases a with
  | create env slice =>
    obtain ⟨-, slices, hv⟩ := createHosted_view env hk.fresh slice
    exact .inl (congrArg View.log hv)
  | claimExit place =>
    obtain ⟨hosted, hclaim, -⟩ := w.perform_claimExit place
    rw [hclaim]
    exact .inl rfl
  | advance env me =>
    by_cases hn : ∃ i c ws, w.callAt me = some (i, c) ∧ w.view.workspaces[i]? = some ws
    · obtain ⟨i, c, ws, hc, hw⟩ := hn
      obtain ⟨slices, hv⟩ := advance_view hk ha hc hw
      exact .inr ⟨env, me, i, c, ws, rfl, hc, hw, congrArg View.log hv⟩
    · exact .inl (advance_still hk ha fun i c ws hc hw => hn ⟨i, c, ws, hc, hw⟩).2
  | _ => exact .inl rfl

/-- While a call waits for its batch to close, nobody else speaks to the context. -/
theorem callsOf_perform {batch : OpenBatch} (hc : (run setup acts).callAt me = some (i, c))
    (hp : c.phase = .closing batch) (hsame : ((run setup acts).perform a).callAt me = some (i, c)) :
    ((run setup acts).perform a).callsOf batch.serial = (run setup acts).callsOf batch.serial := by
  have hholds : c.phase.holds = true := by rw [hp]; rfl
  obtain ⟨hk, hsound, hshows, -⟩ := tidy_run setup acts
  obtain ⟨-, hsound', -, -⟩ := tidy_run setup (acts ++ [a])
  rw [run_concat] at hsound'
  obtain ⟨ws, hw, -⟩ := hsound.locked hc hholds
  obtain ⟨p, hshow⟩ := hshows i ws hw
  obtain ⟨p', hshow', hturn⟩ := hsound.turn hshow (perform_moves hk (within_freely setup a))
  have hin : p.inside = some c := (hshow.inside c).2 ⟨me, hc, hholds⟩
  have hin' : p'.inside = some c := (hshow'.inside c).2 ⟨me, hsame, hholds⟩
  have heard : p'.received = p.received := by
    generalize ((run setup acts).endings a).filter (·.place = i) = ended at hturn
    cases hturn with
    | aside => rfl
    | enters _ _ hnone => exact absurd (hin.symm.trans hnone) nofun
    | @closes env session request other last =>
      obtain ⟨-, -, ⟨result, hheld⟩, -⟩ := Workspace.close_heard env session p.workspace other
      rw [Place.after, hheld] at hin'
      cases hin'
    | parts hi =>
      cases hin.symm.trans hi
      cases hp
  rw [hshow.received, hshow'.received, View.heardAt, View.heardAt, hsound.closing hc hp,
    hsound'.closing hsame hp] at heard
  exact heard

end World

end SliceSync
