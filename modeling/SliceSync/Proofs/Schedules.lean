import SliceSync.Proofs.Settling
/-!
# Schedules come to rest

A schedule takes one job ahead at a time, whoever can go on, and forgets nobody. Since work runs out it comes to a
world in which nobody can go on, and what every step of a job that can take one keeps holds there
(`Schedule.settle_induction`).
-/

namespace SliceSync

namespace World

variable {w : World} {env : Environment} {me : JobId}

theorem job?_isSome_of_canAdvance (h : w.canAdvance env me = true) : (w.job? me).isSome := by
  unfold canAdvance at h
  cases hj : w.job? me with
  | none => simp [hj] at h
  | some job => rfl

/-- Nobody can go on. -/
def AtRest (w : World) (env : Environment) : Prop := ∀ me, w.canAdvance env me = false

/-- Every job at work is stuck then. -/
theorem AtRest.stuck (h : w.AtRest env) {job : Job} (hj : w.job? me = some job) : w.isJobStuck env me job = true := by
  simpa [canAdvance, hj] using h me

end World

namespace Schedule

variable {s : Schedule} {env : Environment}

/-- Whoever is at work is in line or has been set aside. -/
def Attends (s : Schedule) : Prop := ∀ me, (s.world.job? me).isSome → me ∈ s.line ∨ me ∈ s.stuck

/-- Who has been set aside cannot go on. -/
def SetsAside (s : Schedule) (env : Environment) : Prop := ∀ me ∈ s.stuck, s.world.canAdvance env me = false

theorem Attends.spawn (h : s.Attends) (hf : s.world.Fit) (job : Job) : (s.spawn job).Attends := by
  intro me hme
  change ((s.world.spawn job).job? me).isSome at hme
  rw [World.job?_spawn hf.fresh] at hme
  by_cases hnew : me = s.world.nextJob
  · exact .inl (List.mem_append_right _ (List.mem_singleton.2 hnew))
  · rw [Function.update_of_ne hnew] at hme
    exact (h me hme).imp_left (List.mem_append_left _)

theorem isWaitingFor_cases {w : World} {me : JobId} (h : (w.job? me).isSome) :
    w.isWaitingFor .news me = true ∨ w.isWaitingFor .lock me = true ∨ w.isWaitingFor .ending me = true := by
  obtain ⟨job, hj⟩ := Option.isSome_iff_exists.1 h
  simp only [World.isWaitingFor, hj, Option.any_some, decide_eq_true_eq]
  cases w.jobWait job <;> simp

/-- Whoever is freed joins the line. -/
theorem Attends.wake (h : s.Attends) (env : Environment) : (s.wake env).Attends ∧ (s.wake env).SetsAside env := by
  refine ⟨fun me hme => ?_, fun me hme => ?_⟩
  · change (s.world.job? me).isSome at hme
    rcases h me hme with hline | hstuck
    · exact .inl (by simp [Schedule.wake, hline])
    · cases hc : s.world.canAdvance env me with
      | false => exact .inr (by simp [Schedule.wake, hstuck, hc])
      | true =>
        left
        rcases isWaitingFor_cases hme with hw | hw | hw <;> simp [Schedule.wake, hstuck, hc, hw]
  · exact Bool.eq_false_of_not_eq_true' (List.mem_filter.1 hme).2

/-- Who is at the head of the line and cannot go on is set aside. -/
theorem park_spec (env : Environment) (line : List JobId) {s : Schedule}
    (h : ∀ me, (s.world.job? me).isSome → me ∈ line ∨ me ∈ s.stuck) (ha : s.SetsAside env) :
    (s.park env line).world = s.world ∧ (s.park env line).Attends ∧ (s.park env line).SetsAside env ∧
      ∀ me rest, (s.park env line).line = me :: rest → s.world.canAdvance env me = true := by
  induction line generalizing s with
  | nil => exact ⟨rfl, h, ha, nofun⟩
  | cons id rest ih =>
    unfold park
    split
    · rename_i hc
      refine ⟨rfl, h, ha, fun me rest' hline => ?_⟩
      cases hline
      exact hc
    · rename_i hc
      split
      · refine ih (s := { s with stuck := s.stuck ++ [id] }) (fun me hme => ?_) fun me hme => ?_
        · rcases h me hme with hline | hstuck
          · rcases List.mem_cons.1 hline with rfl | hline
            · exact .inr (by simp)
            · exact .inl hline
          · exact .inr (List.mem_append_left _ hstuck)
        · rcases List.mem_append.1 hme with hme | hme
          · exact ha me hme
          · rw [List.mem_singleton.1 hme]
            simpa using hc
      · rename_i hgone
        refine ih (fun me hme => ?_) ha
        refine (h me hme).imp_left fun hline => ?_
        rcases List.mem_cons.1 hline with rfl | hline
        · exact absurd hme hgone
        · exact hline

/-- A step takes the job at the head of the line ahead; jobs that begin with it join the line. -/
theorem step_spec {id : JobId} {rest : List JobId} (h : s.Attends) (hf : s.world.Fit) (hline : s.line = id :: rest)
    (env : Environment) :
    (s.step env).world = s.world.advance env id ∧ (s.step env).Attends ∧ (s.step env).SetsAside env := by
  have hfit := hf.advance env id
  -- who is at work now has been so before, or has just begun
  have hbegun : ∀ me, ((s.world.advance env id).job? me).isSome → me ∈ s.line ∨ me ∈ s.stuck ∨
      me ∈ List.range' s.world.nextJob ((s.world.advance env id).nextJob - s.world.nextJob) := by
    intro me hme
    by_cases hne : me = id
    · subst hne
      simp [hline]
    · rcases World.job?_of_advance hf.keeps (show (World.freely s.world.setup).fits env from trivial) hne with hsame | ⟨hnew, -⟩
      · rw [hsame] at hme
        rcases h me hme with hme | hme
        · exact .inl hme
        · exact .inr (.inl hme)
      · obtain ⟨job, hjob⟩ := Option.isSome_iff_exists.1 hme
        have hlt := World.job?_lt hfit.fresh hjob
        rw [hnew] at hlt ⊢
        exact .inr (.inr (List.mem_range'_1.2 ⟨Nat.le_refl _, Nat.lt_add_of_pos_right (Nat.sub_pos_of_lt hlt)⟩))
  unfold step
  rw [hline]
  dsimp only
  rw [← hline]
  generalize hadded : List.range' s.world.nextJob ((s.world.advance env id).nextJob - s.world.nextJob) = begun at hbegun
  refine ⟨rfl, fun me hme => ?_, fun me hme => Bool.eq_false_of_not_eq_true' (List.mem_filter.1 hme).2⟩
  change ((s.world.advance env id).job? me).isSome at hme
  rcases hbegun me hme with hold | hold | hnew
  · exact .inl (by simp [wake, hold])
  · cases hc : (s.world.advance env id).canAdvance env me with
    | false => exact .inr (by simp [wake, hold, hc])
    | true =>
      left
      rcases isWaitingFor_cases hme with hw | hw | hw <;> simp [wake, hold, hc, hw]
  · exact .inl (by simp [hnew])

variable {P : World → Prop}

/-- With as many steps as there is work the schedule comes to rest. -/
theorem run_induction (hP : ∀ {w : World} {me : JobId}, P w → w.Fit → w.canAdvance env me = true → P (w.advance env me))
    (steps : Nat) {s : Schedule} (hs : P s.world) (hf : s.world.Fit) (ha : s.Attends) (hstuck : s.SetsAside env)
    (hsteps : s.world.work < steps) :
    P (run env steps s).world ∧ (run env steps s).world.Fit ∧ (run env steps s).Attends ∧
      (run env steps s).world.AtRest env := by
  induction steps generalizing s with
  | zero => exact absurd hsteps (Nat.not_lt_zero _)
  | succ steps ih =>
    obtain ⟨hworld, hattends, hset, hhead⟩ := park_spec env s.line ha hstuck
    unfold run
    dsimp only
    generalize s.park env s.line = parked at hworld hattends hset hhead ⊢
    cases hline : parked.line with
    | nil =>
      refine ⟨hworld.symm ▸ hs, hworld.symm ▸ hf, hattends, fun me => ?_⟩
      by_contra hc
      have hme := World.job?_isSome_of_canAdvance (Bool.eq_true_of_not_eq_false hc)
      rcases hattends me hme with hin | hin
      · rw [hline] at hin
        cases hin
      · exact hc (hset me hin)
    | cons id rest =>
      have hc := hhead id rest hline
      obtain ⟨hstep, hattends', hset'⟩ := step_spec hattends (hworld.symm ▸ hf) hline env
      rw [hworld] at hstep
      refine ih (hstep.symm ▸ hP hs hf hc) (hstep.symm ▸ hf.advance env id) hattends' hset' ?_
      rw [hstep]
      exact Nat.lt_of_lt_of_le (World.advance_work hf hc) (Nat.le_of_lt_succ hsteps)

/-- What every step keeps of a job that can take one holds when the schedule has come to rest. -/
theorem settle_induction
    (hP : ∀ {w : World} {me : JobId}, P w → w.Fit → w.canAdvance env me = true → P (w.advance env me))
    (hs : P s.world) (hf : s.world.Fit) (ha : s.Attends) :
    P (s.settle env).world ∧ (s.settle env).world.Fit ∧ (s.settle env).Attends ∧ (s.settle env).world.AtRest env :=
  run_induction hP _ (s := s.wake env) hs hf (ha.wake env).1 (ha.wake env).2 (Nat.lt_succ_self _)

end Schedule

end SliceSync
