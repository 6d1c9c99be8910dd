import SliceSync.Proofs.Batches
import SliceSync.Proofs.HostSteps
/-!
# Outcomes of jobs

The outcome of a job is noted once, when it ends, and stays: at every time a job that has begun is at work or
has an outcome, never both (`World.numbered_run`).
-/

namespace SliceSync

namespace World

variable {t : Terms} {w w' : World} {env : Environment} {me : JobId} {job : Job}

theorem advanceJob_outcomes (w : World) (env : Environment) (me : JobId) (job : Job) :
    (w.advanceJob env me job).1.outcomes = w.outcomes := by
  cases hjob : job.host? with
  | none => exact (w.advanceJob_spares env me hjob).1.outcomes
  | some c =>
    cases job with
    | host c =>
      obtain ⟨step, -, hcomes⟩ := w.advanceHost_paths env me c
      rw [advanceJob_host]
      exact hcomes.outcomes
    | _ => cases hjob

/-- Outcomes are noted as jobs end. -/
theorem outcomes_advance (env : Environment) (hj : w.job? me = some job) : (w.advance env me).outcomes = w.outcomes ++
    match (w.advanceJob env me job).2 with
    | .going _ => []
    | .done outcome => [(me, outcome)] := by
  have h := w.advanceJob_outcomes env me job
  unfold advance
  rw [hj]
  dsimp only
  generalize w.advanceJob env me job = r at h ⊢
  obtain ⟨w', job' | outcome⟩ := r
  · simpa using h
  · exact congrArg (· ++ [(me, outcome)]) h

/-- Only a step of a job can bring an outcome, and that of the job. -/
theorem outcomes_perform (w : World) (a : Act) :
    (w.perform a).outcomes = w.outcomes ∨ ∃ env me job outcome, a = .advance env me ∧ w.job? me = some job ∧
      (w.advanceJob env me job).2 = .done outcome ∧ (w.perform a).outcomes = w.outcomes ++ [(me, outcome)] := by
  cases a with
  | create env slice =>
    left
    show (w.createHosted env slice).1.outcomes = w.outcomes
    rcases w.createHosted_cases env slice with ⟨error, heq, -⟩ | ⟨w', heq, -, houtcomes, -⟩
    · rw [heq]
    · rw [heq, houtcomes]
  | claimExit place =>
    obtain ⟨hosted, hclaim, -⟩ := w.perform_claimExit place
    rw [hclaim]
    exact .inl rfl
  | advance env me =>
    cases hj : w.job? me with
    | none =>
      left
      simp [perform, advance, hj]
    | some job =>
      have h := outcomes_advance env hj
      cases hd : (w.advanceJob env me job).2 with
      | going job' =>
        left
        rw [hd] at h
        exact h.trans (List.append_nil _)
      | done outcome =>
        right
        rw [hd] at h
        exact ⟨env, me, job, outcome, rfl, hj, hd, h⟩
  | _ => exact .inl rfl

theorem outcome?_append (w' : World) (more : List (JobId × Outcome)) (h : w'.outcomes = w.outcomes ++ more) :
    w'.outcome? me = (w.outcome? me).or ((more.find? (·.1 = me)).map (·.2)) := by
  unfold outcome?
  rw [h, List.find?_append]
  cases w.outcomes.find? (·.1 = me) <;> rfl

/-- What is known of the outcome of a job stays known. -/
theorem outcome?_perform {outcome : Outcome} (h : w.outcome? me = some outcome) (a : Act) :
    (w.perform a).outcome? me = some outcome := by
  rcases w.outcomes_perform a with hsame | ⟨_, _, _, _, -, -, -, hmore⟩
  · rw [outcome?_append _ [] (by simpa using hsame), h]
    rfl
  · rw [outcome?_append _ _ hmore, h]
    rfl

/-- Outcomes are those of the jobs that have begun and are at work no more. -/
structure Numbered (w : World) : Prop where
  begun : ∀ me, w.nextJob ≤ me → w.outcome? me = none
  apart : ∀ {me job}, w.job? me = some job → w.outcome? me = none
  left : ∀ me < w.nextJob, w.job? me = none → (w.outcome? me).isSome

theorem numbered_initial (setup : Setup) : (initial setup).Numbered :=
  ⟨fun _ _ => rfl, nofun, fun _ h => absurd h (Nat.not_lt_zero _)⟩

theorem Numbered.spawn (h : w.Numbered) (hf : ∀ e ∈ w.jobs, e.1 < w.nextJob) (job : Job) : (w.spawn job).Numbered := by
  constructor
  · intro me hme
    exact h.begun me (Nat.le_of_succ_le hme)
  · intro me job' hj
    rw [job?_spawn hf] at hj
    by_cases hme : me = w.nextJob
    · exact h.begun me (Nat.le_of_eq hme.symm)
    · rw [Function.update_of_ne hme] at hj
      exact h.apart hj
  · intro me hme hj
    rw [job?_spawn hf] at hj
    by_cases hnew : me = w.nextJob
    · rw [hnew, Function.update_self] at hj
      cases hj
    · rw [Function.update_of_ne hnew] at hj
      exact h.left me (Nat.lt_of_le_of_ne (Nat.le_of_lt_succ hme) hnew) hj

theorem Numbered.grows (h : w.Numbered) (hg : Grows w w') (hf : ∀ e ∈ w.jobs, e.1 < w.nextJob)
    (ho : w'.outcomes = w.outcomes) : w'.Numbered := by
  have houtcome (me : JobId) : w'.outcome? me = w.outcome? me := by
    unfold outcome?
    rw [ho]
  rcases hg.job?_cases hf with ⟨hj, hn⟩ | ⟨d, -, hn, hj⟩
  · refine ⟨fun me hme => (houtcome me).trans (h.begun me (hn ▸ hme)),
      fun hjob => (houtcome _).trans (h.apart (hj ▸ hjob)), fun me hme hnone => ?_⟩
    rw [houtcome]
    exact h.left me (hn ▸ hme) (hj ▸ hnone)
  · constructor
    · intro me hme
      exact (houtcome me).trans (h.begun me (by rw [hn] at hme; exact Nat.le_of_succ_le hme))
    · intro me job hjob
      rw [houtcome]
      rw [hj] at hjob
      by_cases hme : me = w.nextJob
      · exact h.begun me (Nat.le_of_eq hme.symm)
      · rw [Function.update_of_ne hme] at hjob
        exact h.apart hjob
    · intro me hme hnone
      rw [houtcome]
      rw [hn] at hme
      rw [hj] at hnone
      by_cases hnew : me = w.nextJob
      · rw [hnew, Function.update_self] at hnone
        cases hnone
      · rw [Function.update_of_ne hnew] at hnone
        exact h.left me (Nat.lt_of_le_of_ne (Nat.le_of_lt_succ hme) hnew) hnone

theorem Numbered.advance (h : w.Numbered) (hk : w.Keeps t) (he : t.fits env) : (w.advance env me).Numbered := by
  cases hj : w.job? me with
  | none =>
    have hsame : w.advance env me = w := by simp [World.advance, hj]
    rwa [hsame]
  | some job =>
    have hg := advanceJob_grows hk he hj
    have hw := h.grows hg hk.fresh (w.advanceJob_outcomes env me job)
    have hme := hg.job? hj
    have hlt := job?_lt (hg.fresh hk.fresh) hme
    have hjobs := job?_advance hk he hj
    unfold World.advance at hjobs ⊢
    rw [hj] at hjobs ⊢
    dsimp only at hjobs ⊢
    generalize w.advanceJob env me job = r at hw hme hlt hjobs ⊢
    obtain ⟨w', job' | outcome⟩ := r
    · refine ⟨hw.begun, fun {other job''} hother => ?_, fun other hlt' hother => ?_⟩
      · rw [hjobs] at hother
        by_cases hne : other = me
        · subst hne
          exact hw.apart hme
        · rw [Function.update_of_ne hne] at hother
          exact hw.apart hother
      · rw [hjobs] at hother
        by_cases hne : other = me
        · rw [hne, Function.update_self] at hother
          cases hother
        · rw [Function.update_of_ne hne] at hother
          exact hw.left other hlt' hother
    · have hmore (other : JobId) (hne : other ≠ me) : outcome? { w' with
          jobs := w'.jobs.filter (·.1 ≠ me), outcomes := w'.outcomes ++ [(me, outcome)] } other = w'.outcome? other := by
        rw [outcome?_append (w := w') _ [(me, outcome)] rfl]
        simp [hne.symm]
      constructor
      · intro other hother
        have hne : other ≠ me := Nat.ne_of_gt (Nat.lt_of_lt_of_le hlt hother)
        exact (hmore other hne).trans (hw.begun other hother)
      · intro other job' hother
        rw [hjobs] at hother
        have hne : other ≠ me := by
          rintro rfl
          simp at hother
        rw [Function.update_of_ne hne] at hother
        exact (hmore other hne).trans (hw.apart hother)
      · intro other hlt' hother
        rw [hjobs] at hother
        by_cases hne : other = me
        · rw [hne, outcome?_append (w := w') _ [(me, outcome)] rfl, hw.apart hme]
          simp
        · rw [Function.update_of_ne hne] at hother
          rw [hmore other hne]
          exact hw.left other hlt' hother

/-- In every run the outcomes are those of jobs that have ended. -/
theorem numbered_run (setup : Setup) (acts : List Act) :
    (run setup acts).Keeps (freely setup) ∧ (run setup acts).Numbered := by
  induction acts using List.reverseRecOn with
  | nil => exact ⟨keeps_initial (freely setup), numbered_initial setup⟩
  | append_singleton acts a ih =>
    obtain ⟨hk, hn⟩ := ih
    rw [run_concat]
    refine ⟨keeps_perform hk (within_freely setup a), ?_⟩
    cases a with
    | call | retire | host | send => exact hn.spawn hk.fresh _
    | create env slice =>
      refine hn.grows (createHosted_view env hk.fresh slice).1 hk.fresh ?_
      rcases (run setup acts).outcomes_perform (.create env slice) with hsame | ⟨_, _, _, _, ha, -⟩
      · exact hsame
      · cases ha
    | claimExit place =>
      obtain ⟨hosted, hclaim, -⟩ := (run setup acts).perform_claimExit place
      rw [hclaim]
      exact ⟨hn.begun, hn.apart, hn.left⟩
    | advance env me => exact hn.advance hk (show (freely setup).fits env from trivial)
    | _ => exact ⟨hn.begun, hn.apart, hn.left⟩

/-- A job that ends leaves its outcome. -/
theorem outcome?_advance {outcome : Outcome} (hn : w.Numbered) (hj : w.job? me = some job)
    (hd : (w.advanceJob env me job).2 = .done outcome) : (w.advance env me).outcome? me = some outcome := by
  have hmore := outcomes_advance env hj
  rw [hd] at hmore
  rw [outcome?_append _ _ hmore, hn.apart hj]
  simp

/-- A call on the host that ends leaves its answer. -/
theorem outcome?_host {c : HostCall} {result : Except SyncError HostAnswer} (hn : w.Numbered)
    (hc : w.hostAt me = some c) (hd : (w.advanceHost env me c).2 = .done result) :
    (w.advance env me).outcome? me = some (.hosted result) := by
  refine outcome?_advance hn (hostAt_eq_some_iff.1 hc) ?_
  rw [advanceJob_host]
  exact Onward.bimap_of_done hd

/-- A driver that ends leaves its exit. -/
theorem outcome?_driver {d : Driver} {exit : DriverExit} (hn : w.Numbered) (hj : w.job? me = some (.drive d))
    (hd : (w.advanceDriver env me d).2 = .done exit) : (w.advance env me).outcome? me = some (.drove exit) := by
  refine outcome?_advance hn hj ?_
  rw [advanceJob_drive]
  exact Onward.bimap_of_done hd

end World

end SliceSync
