import SliceSync.Proofs.Moves
/-!
# Jobs by their numbers

A job has one number as long as it is at work, and its outcome is noted under that number when it ends. An
act begins at most one job, with a new number; a step of a job leaves all others where they are.
-/

namespace SliceSync

/-- What goes on. -/
def Onward.state? {α ρ : Type} : Onward α ρ → Option α
  | .going state => some state
  | .done _ => none

@[simp] theorem Onward.state?_going {α ρ : Type} (state : α) : (going state : Onward α ρ).state? = some state := rfl

@[simp] theorem Onward.state?_done {α ρ : Type} (result : ρ) : (done result : Onward α ρ).state? = none := rfl

theorem Onward.state?_eq_some_iff {α ρ : Type} {o : Onward α ρ} {state : α} : o.state? = some state ↔ o = .going state := by
  cases o <;> simp

/-- The job that an act begins by itself; to create a workspace may begin a driver. -/
def Act.begins? : Act → Option Job
  | .call place request => some (.call place (.start request))
  | .retire place cause => some (.retire place (World.beginRetirement cause))
  | .host request => some (.host (.starting request))
  | .send pair updates => some (.send { pair, pending := updates })
  | _ => none

theorem Onward.state?_bimap {α β ρ σ : Type} (f : α → β) (g : ρ → σ) (o : Onward α ρ) :
    (o.bimap f g).state? = o.state?.map f := by
  cases o <;> rfl

namespace World

variable {t : Terms} {w w' : World} {env : Environment} {me other : JobId} {job : Job} {a : Act}

/-! ## Jobs at work -/

theorem job?_fresh (hf : ∀ e ∈ w.jobs, e.1 < w.nextJob) : w.job? w.nextJob = none := Job.among_fresh hf

theorem job?_lt (hf : ∀ e ∈ w.jobs, e.1 < w.nextJob) (hj : w.job? me = some job) : me < w.nextJob :=
  hf _ (job?_mem hj)

/-- A new job is at work under the next number. -/
theorem job?_spawn (hf : ∀ e ∈ w.jobs, e.1 < w.nextJob) (job : Job) :
    (w.spawn job).job? = Function.update w.job? w.nextJob (some job) := Job.among_append hf

/-- At most a driver is new. -/
theorem Grows.job?_cases (h : Grows w w') (hf : ∀ e ∈ w.jobs, e.1 < w.nextJob) :
    w'.job? = w.job? ∧ w'.nextJob = w.nextJob ∨ ∃ d : Driver, d.IsNew ∧ w'.nextJob = w.nextJob + 1 ∧
      w'.job? = Function.update w.job? w.nextJob (some (.drive d)) := by
  rcases h.jobs with ⟨hj, hn⟩ | ⟨d, hd, hj, hn⟩
  · exact .inl ⟨congrArg Job.among hj, hn⟩
  · exact .inr ⟨d, hd, hn, (congrArg Job.among hj).trans (Job.among_append hf)⟩

/-- What a step leaves of the jobs, before the job that took it is put back. -/
theorem advanceJob_grows (hk : w.Keeps t) (he : t.fits env) (hj : w.job? me = some job) :
    Grows w (w.advanceJob env me job).1 :=
  (leads_job hk he (by simp [callAt, hj]) (hk.writes _ (job?_mem hj))).grows

/-- The job that took a step goes on as what it is now, or is at work no more. -/
theorem job?_advance (hk : w.Keeps t) (he : t.fits env) (hj : w.job? me = some job) :
    (w.advance env me).job? =
      Function.update (w.advanceJob env me job).1.job? me (w.advanceJob env me job).2.state? := by
  have hme := (advanceJob_grows hk he hj).job? hj
  unfold advance
  rw [hj]
  dsimp only
  generalize w.advanceJob env me job = r at hme ⊢
  obtain ⟨w', job' | outcome⟩ := r
  · exact Job.among_map (Option.isSome_iff_exists.2 ⟨job, hme⟩)
  · exact Job.among_filter w'.jobs me

/-- A job that takes a step. -/
theorem job?_advance_self (hk : w.Keeps t) (he : t.fits env) (hj : w.job? me = some job) :
    (w.advance env me).job? me = (w.advanceJob env me job).2.state? := by
  rw [job?_advance hk he hj, Function.update_self]

/-- What is at work after a step of another job was so before, or is a new driver. -/
theorem job?_of_advance (hk : w.Keeps t) (he : t.fits env) (hne : other ≠ me) :
    (w.advance env me).job? other = w.job? other ∨
      other = w.nextJob ∧ ∃ d : Driver, d.IsNew ∧ (w.advance env me).job? other = some (.drive d) := by
  cases hj : w.job? me with
  | none =>
    left
    simp [advance, hj]
  | some job =>
    rw [job?_advance hk he hj, Function.update_of_ne hne]
    rcases (advanceJob_grows hk he hj).job?_cases hk.fresh with ⟨hsame, -⟩ | ⟨d, hd, -, hnew⟩
    · exact .inl (congrFun hsame other)
    · rw [hnew]
      by_cases hother : other = w.nextJob
      · exact .inr ⟨hother, d, hd, by rw [hother, Function.update_self]⟩
      · exact .inl (Function.update_of_ne hother ..)

/-- A number under which no step is taken keeps its job, or it is the next one and a job begins under it. -/
theorem job?_perform (hk : w.Keeps t) (ha : a.Within t) (hne : ∀ env, a ≠ .advance env me) :
    (w.perform a).job? me = w.job? me ∨
      me = w.nextJob ∧ ∃ job, (w.perform a).job? me = some job ∧
        (a.begins? = some job ∨ ∃ d : Driver, d.IsNew ∧ job = .drive d) := by
  have spawned {w' : World} {job : Job} (hjob : a.begins? = some job ∨ ∃ d : Driver, d.IsNew ∧ job = .drive d)
      (hnew : w'.job? = Function.update w.job? w.nextJob (some job)) :
      w'.job? me = w.job? me ∨ me = w.nextJob ∧ ∃ job, w'.job? me = some job ∧
        (a.begins? = some job ∨ ∃ d : Driver, d.IsNew ∧ job = .drive d) := by
    rw [hnew]
    by_cases hme : me = w.nextJob
    · exact .inr ⟨hme, job, by rw [hme, Function.update_self], hjob⟩
    · exact .inl (Function.update_of_ne hme ..)
  cases a with
  | call | retire | host | send => exact spawned (.inl rfl) (job?_spawn hk.fresh _)
  | create env slice =>
    rcases (createHosted_view env hk.fresh slice).1.job?_cases hk.fresh with ⟨hsame, -⟩ | ⟨d, hd, -, hnew⟩
    · exact .inl (congrFun hsame me)
    · exact spawned (.inr ⟨d, hd, rfl⟩) hnew
  | claimExit place =>
    obtain ⟨hosted, hclaim, -⟩ := w.perform_claimExit place
    rw [hclaim]
    exact .inl rfl
  | advance env other =>
    have hme : me ≠ other := by
      rintro rfl
      exact hne env rfl
    rcases job?_of_advance hk ha hme with hsame | ⟨hme, d, hd, hnew⟩
    · exact .inl hsame
    · exact .inr ⟨hme, .drive d, hnew, .inr ⟨d, hd, rfl⟩⟩
  | _ => exact .inl rfl

/-- Numbers are given in order. -/
theorem nextJob_perform (hk : w.Keeps t) (ha : a.Within t) : w.nextJob ≤ (w.perform a).nextJob := by
  have grown {w' : World} (h : Grows w w') : w.nextJob ≤ w'.nextJob := by
    rcases h.jobs with ⟨-, hn⟩ | ⟨-, -, -, hn⟩
    · exact Nat.le_of_eq hn.symm
    · exact Nat.le_trans (Nat.le_succ _) (Nat.le_of_eq hn.symm)
  cases a with
  | call | retire | host | send => exact Nat.le_succ _
  | create env slice => exact grown (createHosted_view env hk.fresh slice).1
  | claimExit place =>
    obtain ⟨hosted, hclaim, -⟩ := w.perform_claimExit place
    exact Nat.le_of_eq (congrArg nextJob hclaim).symm
  | advance env me =>
    cases hj : w.job? me with
    | none => simp [perform, advance, hj]
    | some job =>
      have h := grown (advanceJob_grows hk ha hj)
      obtain ⟨jobs, outcomes, hadvance⟩ := advance_eq env hj
      rw [perform, hadvance]
      exact h
  | _ => exact Nat.le_refl _

/-! ## What only calls on a host touch -/

/-- The slots are as they were, no job has an outcome it had not, and there are as many places. -/
structure Spares (w w' : World) : Prop where
  slots : w'.slots = w.slots
  outcomes : w'.outcomes = w.outcomes
  places : w'.hosted.length = w.hosted.length

theorem Spares.refl (w : World) : Spares w w := ⟨rfl, rfl, rfl⟩

theorem Spares.trans {w w' w'' : World} (h : Spares w w') (h' : Spares w' w'') : Spares w w'' :=
  ⟨h'.slots.trans h.slots, h'.outcomes.trans h.outcomes, h'.places.trans h.places⟩

theorem modifyHosted_spares (w : World) (i : Nat) (f : Hosted → Hosted) : Spares w (w.modifyHosted i f) :=
  ⟨rfl, rfl, by simp [modifyHosted]⟩

theorem advanceCall_spares (w : World) (env : Environment) (me : JobId) (i : Nat) (c : Call) :
    Spares w (w.advanceCall env me i c).1 := by
  unfold advanceCall
  split
  · exact .refl w
  · exact ⟨rfl, rfl, by simp⟩

theorem advanceRetirement_spares (w : World) (env : Environment) (me : JobId) (i : Nat) (r : Retirement) :
    Spares w (w.advanceRetirement env me i r).1 := by
  unfold advanceRetirement
  split
  · rename_i c
    have h := w.advanceCall_spares env me i c
    generalize w.advanceCall env me i c = r at h ⊢
    obtain ⟨w', going | done⟩ := r <;> exact h
  · split
    · exact .refl w
    · split
      · exact .refl w
      · exact w.modifyHosted_spares ..
  · split <;> exact .refl w

theorem endDriver_spares (w : World) (d : Driver) (exit : DriverExit) : Spares w (w.endDriver d exit).1 :=
  have h := w.modifyHosted_spares d.workspace fun h => { h with exit := some exit }
  ⟨h.slots, h.outcomes, h.places⟩

theorem advanceDriver_spares (w : World) (env : Environment) (me : JobId) (d : Driver) :
    Spares w (w.advanceDriver env me d).1 := by
  unfold advanceDriver
  split
  · rename_i c _
    have h := w.advanceCall_spares env me d.workspace c
    generalize w.advanceCall env me d.workspace c = r at h ⊢
    obtain ⟨w', going | (error | answer)⟩ := r
    · exact h
    · exact h.trans (w'.endDriver_spares d _)
    · exact h
  · split
    · exact .refl w
    · split
      · exact w.endDriver_spares d _
      · split
        · exact w.endDriver_spares d _
        · split
          · exact .refl w
          · split <;> exact ⟨rfl, rfl, rfl⟩

theorem advanceSending_spares (w : World) (me : JobId) (s : Sending) : Spares w (w.advanceSending me s).1 := by
  unfold advanceSending
  split
  · exact ⟨rfl, rfl, rfl⟩
  · split
    · exact ⟨rfl, rfl, rfl⟩
    · exact ⟨rfl, rfl, rfl⟩
    · split <;> exact ⟨rfl, rfl, rfl⟩

end World

end SliceSync
