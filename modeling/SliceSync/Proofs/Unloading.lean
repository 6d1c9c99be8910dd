import SliceSync.Proofs.Live
import SliceSync.Proofs.Milestones
/-!
# A workspace that is to be unloaded

Once unload is requested its cause stays. A call that heeds the token and is not under the lock ends with the
error of that cause as soon as it is taken ahead, so no batch opens any more; calls under the lock go on to
their end, and those in line for it come closer with every step of its holder (`Scene.rank`).
-/

namespace SliceSync

/-! ## The cause stays -/

theorem UnloadToken.cancel_cause {token : UnloadToken} {cause : DisposeCause} (h : token.cause = some cause)
    (other : DisposeCause) : (token.cancel other).cause = some cause := by
  simp [cancel, h]

/-- Nothing withdraws a request to unload. -/
theorem Request.raise_cause {request : Request} {token : UnloadToken} {cause : DisposeCause}
    (h : token.cause = some cause) : (request.raise token).cause = some cause := by
  unfold raise
  split
  · exact UnloadToken.cancel_cause h _
  · exact h

namespace Workspace

variable {setup : Setup} {env : Environment} {session : Session} {w : Workspace}

theorem Receives.unload {u : Update} {p : Passage} (h : w.Receives setup env session u p) :
    p.workspace.unload = w.unload := by
  have henroll : (w.enroll setup u).1.unload = w.unload := by
    obtain ⟨_, _, h, -⟩ := enroll_eq w u
    rw [h]
  cases h <;> first | rfl | exact henroll

theorem close_unload (env : Environment) (session : Session) (w : Workspace) (batch : OpenBatch) :
    (w.close env session batch).workspace.unload = w.unload := by
  obtain ⟨_, _, _, h⟩ := w.close_workspace env session batch
  rw [h]

end Workspace

/-- A passage leaves the token alone. -/
theorem Request.passage_unload (setup : Setup) (env : Environment) (session : Session) (w : Workspace)
    (request : Request) : (request.passage setup env session w).workspace.unload = w.unload := by
  have h := request.enters setup env session w
  generalize request.passage setup env session w = p at h ⊢
  cases h with
  | receives h => exact h.unload
  | _ => rfl

namespace Call

variable {setup : Setup} {env : Environment} {me : JobId} {c : Call} {session : Session} {w : Workspace}
  {a : Advance} {cause : DisposeCause}

theorem conclude_unload (setup : Setup) (c : Call) (p : Passage) :
    (c.conclude setup p).workspace.unload = p.workspace.unload := by
  obtain ⟨lock, h⟩ := conclude_workspace setup c p
  rw [h]

/-- A step keeps the cause that was given. -/
theorem Paths.keeps_cause (h : c.Paths setup env me session w a) (hu : w.unload.cause = some cause) :
    a.workspace.unload.cause = some cause := by
  cases h with
  | stays | yields | despairs | learns | passes => exact hu
  | queues => exact Request.raise_cause hu
  | enters =>
    rw [conclude_unload, Request.passage_unload]
    exact Request.raise_cause hu
  | succeeds =>
    rw [conclude_unload, Request.passage_unload]
    exact hu
  | closes =>
    rw [conclude_unload, Workspace.close_unload]
    exact hu
  | parts =>
    rw [conclude_unload]
    exact hu

/-- A teardown that asks for the lock requests unload, unless that was done before. -/
theorem Paths.requests (h : c.Paths setup env me session w a) (hp : c.phase = .entering)
    (hr : c.request = .dispose cause) : a.workspace.unload.cause = some (w.unload.cause.getD cause) := by
  have hraise : (c.request.raise w.unload).cause = some (w.unload.cause.getD cause) := by
    rw [hr]
    show (w.unload.cancel cause).cause = _
    cases hu : w.unload.cause <;> simp [UnloadToken.cancel, hu]
  cases h with
  | stays hs => simp [isStuck, hp] at hs
  | yields hr' => simp [hr, Request.heeds] at hr'
  | learns _ _ hr' => rcases hr' with ⟨hr', -⟩ | ⟨hr', -⟩ <;> cases hr.symm.trans hr'
  | despairs hp' | passes hp' | succeeds hp' | closes hp' | parts hp' => cases hp.symm.trans hp'
  | queues => exact hraise
  | enters =>
    rw [conclude_unload, Request.passage_unload]
    exact hraise

/-- Once unload is requested, a call that heeds the token and is not under the lock ends with the error of its
cause. -/
theorem Paths.yielded (h : c.Paths setup env me session w a) (hu : w.unload.cause = some cause)
    (hr : c.request.heeds = true) (hp : c.phase.holds = false) :
    ∃ lock, a = c.finish setup session { w with lock } (.error cause.error) ∧
      (c.phase = .queued ∧ lock = w.lock.leave me ∨ c.phase ≠ .queued ∧ lock = w.lock) := by
  cases h with
  | stays hs =>
    unfold isStuck at hs
    cases hphase : c.phase <;> simp_all [cutShort_eq, Phase.holds]
  | @yields other lock _ _ hu' hl =>
    cases hu.symm.trans hu'
    exact ⟨lock, rfl, hl⟩
  | despairs _ hu' | learns _ hu' | passes _ hu' => cases hu.symm.trans hu'
  | queues _ _ hu' | enters _ _ hu' | succeeds _ _ hu' => cases hu.symm.trans (hu' hr)
  | closes hphase | parts hphase => simp [hphase, Phase.holds] at hp

end Call

/-! ## No batch opens -/

/-- Who does not heed the token opens no batch. -/
theorem Request.passage_opens_nothing {setup : Setup} {env : Environment} {session : Session} {w : Workspace}
    {request : Request} (hr : request.heeds = false) (n : Nat) :
    .startBatch ∉ Event.callsOf n (request.passage setup env session w).events := by
  cases request with
  | dispose cause =>
    rw [Event.mem_callsOf]
    show .context n .startBatch ∉ (w.beginDispose session).events
    unfold Workspace.beginDispose
    split
    · exact List.not_mem_nil
    · split
      · simp [Session.beginRelease]
      · unfold Workspace.unregister
        cases w.owner <;> simp
  | status => exact List.not_mem_nil
  | update | write | whenEvaluation | whenBuild => cases hr

namespace Scene

variable {t : Terms} {i : Nat} {s s' : Scene} {past ended : List Ending} {cause : DisposeCause}

theorem Lined.keeps_cause (h : s.Lined) (hs : Step t i s s' ended) (hu : s.workspace.unload.cause = some cause) :
    s'.workspace.unload.cause = some cause := by
  cases hs with
  | rests | begins => exact hu
  | unloads other => exact UnloadToken.cancel_cause hu other
  | @goes env me c session he hc => exact (Call.paths t.setup env me session s.workspace (h.fit hc)).keeps_cause hu

/-- Once unload is requested no batch opens. -/
theorem Lined.opens_nothing (h : s.Lined) (hs : Step t i s s' ended) (hu : s.workspace.unload.cause = some cause) :
    ∃ more, s'.log = s.log ++ more ∧ ∀ n, .startBatch ∉ Event.callsOf n more := by
  have nothing : ∃ more, s.log = s.log ++ more ∧ ∀ n, .startBatch ∉ Event.callsOf n more :=
    ⟨[], (List.append_nil _).symm, fun _ => List.not_mem_nil⟩
  cases hs with
  | rests | unloads | begins => exact nothing
  | @goes env me c session he hc =>
    have ha := Call.paths t.setup env me session s.workspace (h.fit hc)
    generalize c.advance t.setup env me session s.workspace = a at ha ⊢
    refine ⟨a.events, rfl, fun n hmem => ?_⟩
    have heedless (hu' : c.request.heeds = true → s.workspace.unload.cause = none) : c.request.heeds = false := by
      cases hr : c.request.heeds with
      | false => rfl
      | true => exact absurd (hu.symm.trans (hu' hr)) nofun
    have reported {result : Except SyncError Answer} : .startBatch ∉ Event.callsOf n (c.report t.setup result) := by
      rw [Event.mem_callsOf]
      intro hmem
      obtain ⟨error, severity, he⟩ := report_fault hmem
      cases he
    cases ha with
    | stays | passes | queues => cases hmem
    | yields | despairs | learns => exact reported hmem
    | enters _ _ hu' | succeeds _ _ hu' =>
      rw [Call.callsOf_conclude] at hmem
      exact Request.passage_opens_nothing (heedless hu') n hmem
    | @closes batch =>
      obtain ⟨-, -, -, hheard⟩ := Workspace.close_heard env session s.workspace batch
      rw [Call.callsOf_conclude, hheard] at hmem
      split at hmem <;> simp at hmem
    | @parts handle =>
      obtain ⟨-, -, -, hheard⟩ := Workspace.finishDispose_heard session s.workspace handle
      rw [Call.callsOf_conclude, hheard] at hmem
      cases hmem

end Scene

/-! ## Closer to the lock -/

namespace Lock

/-- How many handovers of the lock are ahead of a job in line. -/
def ahead (l : Lock) (me : JobId) : Nat := if l.holder = some me then 0 else l.waiting.idxOf me + 1

variable {l : Lock} {me other : JobId}

/-- A handover brings those in line closer. -/
theorem ahead_release (hl : l.holder = some other) (hne : other ≠ me) (hm : me ∈ l.waiting) :
    l.release.ahead me < l.ahead me := by
  have hold : l.ahead me = l.waiting.idxOf me + 1 := if_neg (by rw [hl]; simpa using hne)
  rw [hold]
  unfold release
  cases hw : l.waiting with
  | nil => simp [hw] at hm
  | cons next rest =>
    unfold ahead
    dsimp only
    by_cases hnext : next = me
    · rw [if_pos (by rw [hnext])]
      omega
    · rw [if_neg (by simpa using hnext), List.idxOf_cons_ne _ hnext]
      omega

/-- Nobody is overtaken. -/
theorem ahead_join (hm : l.holder = some me ∨ me ∈ l.waiting) (other : JobId) :
    ahead { l with waiting := l.waiting ++ [other] } me = l.ahead me := by
  unfold ahead
  dsimp only
  by_cases hl : l.holder = some me
  · rw [if_pos hl, if_pos hl]
  · rw [if_neg hl, if_neg hl, List.idxOf_append_of_mem (hm.resolve_left hl)]

theorem idxOf_filter_le {l : List JobId} {p : JobId → Bool} (hp : p me = true) :
    (l.filter p).idxOf me ≤ l.idxOf me := by
  induction l with
  | nil => simp
  | cons job rest ih =>
    by_cases hjob : job = me
    · subst hjob
      simp [hp]
    · rw [List.idxOf_cons_ne _ hjob, List.filter_cons]
      split
      · rw [List.idxOf_cons_ne _ hjob]
        omega
      · omega

/-- Who leaves the line brings those behind closer. -/
theorem ahead_leave (hne : other ≠ me) (hm : l.holder = some me ∨ me ∈ l.waiting) :
    (l.leave other).ahead me < l.ahead me ∨
      (l.leave other).holder = l.holder ∧ l.holder ≠ some other ∧ (l.leave other).ahead me ≤ l.ahead me := by
  unfold leave
  split
  · rename_i hl
    exact .inl (ahead_release hl hne (hm.resolve_left fun h => hne (Option.some.inj (hl.symm.trans h))))
  · rename_i hl
    refine .inr ⟨rfl, hl, ?_⟩
    unfold ahead
    dsimp only
    split
    · exact Nat.le_refl 0
    · exact Nat.succ_le_succ (idxOf_filter_le (by simpa using hne.symm))

end Lock

namespace Scene

variable {t : Terms} {i : Nat} {s s' : Scene} {past ended : List Ending} {cause : DisposeCause} {me : JobId} {c : Call}

/-- How far a job in line is from the lock: each handover ahead of it counts twice, less one if the holder is
already waiting under the lock. -/
def rank (s : Scene) (me : JobId) : Nat :=
  2 * s.workspace.lock.ahead me +
    if (s.workspace.lock.holder.bind s.calls).any (·.phase.holds) then 0 else 1

theorem rank_le (s : Scene) (me : JobId) : s.rank me ≤ 2 * s.workspace.lock.ahead me + 1 := by
  unfold rank
  split <;> omega

theorem le_rank (s : Scene) (me : JobId) : 2 * s.workspace.lock.ahead me ≤ s.rank me := by
  unfold rank
  omega

/-- Fewer handovers ahead is closer, whoever holds the lock. -/
theorem rank_lt_of_ahead (h : s'.workspace.lock.ahead me < s.workspace.lock.ahead me) : s'.rank me < s.rank me := by
  have := s'.rank_le me
  have := s.le_rank me
  omega

/-- With the same holder, standing where it stood, nobody in line falls back. -/
theorem rank_le_of_holder (hl : s'.workspace.lock.holder = s.workspace.lock.holder)
    (ha : s'.workspace.lock.ahead me ≤ s.workspace.lock.ahead me)
    (hc : ∀ job, s.workspace.lock.holder = some job → s'.calls job = s.calls job) : s'.rank me ≤ s.rank me := by
  have hflag : (s'.workspace.lock.holder.bind s'.calls) = s.workspace.lock.holder.bind s.calls := by
    rw [hl]
    cases h : s.workspace.lock.holder with
    | none => rfl
    | some job => exact hc job h
  unfold rank
  rw [hflag]
  omega

/-- Who waits for the lock is in line, or was passed it. -/
theorem Lined.in_line (h : s.Lined) (hq : s.Queued me) :
    s.workspace.lock.holder = some me ∨ me ∈ s.workspace.lock.waiting := by
  by_cases hl : s.workspace.lock.holder = some me
  · exact .inl hl
  · exact .inr (h.line.waiting.2 ⟨hl, hq⟩)

/-- The holder of the lock was passed it, or waits under it. -/
theorem Lined.of_holder (h : s.Lined) {job : JobId} {other : Call} (hc : s.calls job = some other)
    (hl : s.workspace.lock.holder = some job) : other.phase = .queued ∨ other.phase.holds = true :=
  (h.line.holder hl).imp (queued_iff hc).1 (holding_iff hc).1

/-- A call that is stuck stands where it stood. -/
theorem calls_stay {job : JobId} {other : Call} {session : Session} {w : Workspace} {events : List Event}
    (hc : s.calls job = some other) : (s.after job ⟨session, w, events, .going other⟩).calls = s.calls :=
  Function.update_eq_self_iff.2 hc.symm

theorem rank_of_holds {job : JobId} {other : Call} (hl : s.workspace.lock.holder = some job)
    (hc : s.calls job = some other) (hp : other.phase.holds = true) :
    s.rank me = 2 * s.workspace.lock.ahead me := by
  simp [rank, hl, hc, hp]

theorem rank_of_not_holds {job : JobId} {other : Call} (hl : s.workspace.lock.holder = some job)
    (hc : s.calls job = some other) (hp : other.phase.holds = false) :
    s.rank me = 2 * s.workspace.lock.ahead me + 1 := by
  simp [rank, hl, hc, hp]

/-- A passage that ends brings those in line closer. -/
theorem rank_finish {setup : Setup} {job : JobId} {other : Call} {p : Passage} {result : Except SyncError Answer}
    (hl : s.workspace.lock.holder = some job) (hne : job ≠ me) (hm : me ∈ s.workspace.lock.waiting)
    (hlock : p.workspace.lock = s.workspace.lock) (hheld : p.held = .finished result) :
    (s.after job (other.conclude setup p)).rank me < s.rank me := by
  refine rank_lt_of_ahead ?_
  have hafter : (s.after job (other.conclude setup p)).workspace.lock = s.workspace.lock.release := by
    simp only [after, Call.conclude, hheld, hlock]
  rw [hafter]
  exact Lock.ahead_release hl hne hm

/-- So does one that goes on to wait under the lock. -/
theorem rank_conclude {setup : Setup} {job : JobId} {other : Call} {p : Passage}
    (hl : s.workspace.lock.holder = some job) (hne : job ≠ me) (hm : me ∈ s.workspace.lock.waiting)
    (hc : s.calls job = some other) (hp : other.phase.holds = false)
    (hlock : p.workspace.lock = s.workspace.lock) :
    (s.after job (other.conclude setup p)).rank me < s.rank me := by
  have waits (phase : Phase) (hphase : phase.holds = true)
      (hgo : (other.conclude setup p).progress = .going { other with phase })
      (hw : (other.conclude setup p).workspace = p.workspace) :
      (s.after job (other.conclude setup p)).rank me < s.rank me := by
    have hlock' : (s.after job (other.conclude setup p)).workspace.lock = s.workspace.lock :=
      (congrArg Workspace.lock hw).trans hlock
    rw [rank_of_not_holds hl hc hp, rank_of_holds (hlock' ▸ hl) (after_calls_self.2 hgo) hphase, hlock']
    exact Nat.lt_succ_self _
  cases hheld : p.held with
  | finished result => exact rank_finish hl hne hm hlock hheld
  | closing batch =>
    exact waits (.closing batch) rfl (by rw [Call.conclude, hheld]) (by rw [Call.conclude, hheld])
  | releasing handle =>
    exact waits (.releasing handle) rfl (by rw [Call.conclude, hheld]) (by rw [Call.conclude, hheld])

/-- A step of any other call leaves those in line no farther from the lock, and a step of the holder of the
lock brings them closer, unless it waits under the lock and is stuck. -/
theorem Lined.rank_goes (h : s.Lined) {env : Environment} {job : JobId} {other : Call} {session : Session}
    {a : Advance} (hc : s.calls job = some other) (hne : job ≠ me) (hq : s.Queued me)
    (ha : other.Paths t.setup env job session s.workspace a) :
    (s.after job a).rank me < s.rank me ∨
      (s.after job a).workspace.lock.holder = s.workspace.lock.holder ∧ (s.after job a).rank me ≤ s.rank me ∧
        (s.workspace.lock.holder = some job → other.phase.holds = true ∧ other.isStuck env job s.workspace = true) := by
  have hline := h.in_line hq
  have hwaiting (hl : s.workspace.lock.holder = some job) : me ∈ s.workspace.lock.waiting :=
    hline.resolve_left fun hme => hne (Option.some.inj (hl.symm.trans hme))
  have holds (hp : other.phase.holds = true) : s.workspace.lock.holder = some job := h.line.holds ⟨other, hc, hp⟩
  -- the lock stays with the one who has it, who is another
  have elsewhere (hp : other.phase ≠ .queued) (hp' : other.phase.holds = false)
      (hl : (s.after job a).workspace.lock.holder = s.workspace.lock.holder)
      (hahead : (s.after job a).workspace.lock.ahead me ≤ s.workspace.lock.ahead me) :
      (s.after job a).workspace.lock.holder = s.workspace.lock.holder ∧ (s.after job a).rank me ≤ s.rank me ∧
        (s.workspace.lock.holder = some job → other.phase.holds = true ∧ other.isStuck env job s.workspace = true) := by
    have hnot : s.workspace.lock.holder ≠ some job := by
      intro hjob
      rcases h.of_holder hc hjob with hphase | hphase
      · exact hp hphase
      · cases hp'.symm.trans hphase
    refine ⟨hl, rank_le_of_holder hl hahead fun holder hholder => ?_, fun hjob => absurd hjob hnot⟩
    exact after_calls_of_ne _ _ fun heq => hnot (heq ▸ hholder)
  cases ha with
  | stays hs =>
    refine .inr ⟨rfl, rank_le_of_holder rfl (Nat.le_refl _) fun holder _ => congrFun (calls_stay hc) holder, ?_⟩
    intro hl
    rcases h.of_holder hc hl with hp | hp
    · simp [Call.isStuck, hp, Lock.isHeldBy, hl] at hs
    · exact ⟨hp, hs⟩
  | @yields cause lock hr hp hu hl =>
    rcases hl with ⟨hphase, rfl⟩ | ⟨hphase, rfl⟩
    · rcases Lock.ahead_leave hne hline with hlt | ⟨hholder, hnot, hle⟩
      · exact .inl (rank_lt_of_ahead hlt)
      · refine .inr ⟨hholder, rank_le_of_holder hholder hle fun holder hl => ?_, fun hl => absurd hl hnot⟩
        exact after_calls_of_ne _ _ fun heq => hnot (heq ▸ hl)
    · exact .inr (elsewhere hphase hp rfl (Nat.le_refl _))
  | despairs hp | passes hp =>
    exact .inr (elsewhere (by simp [hp]) (by rw [hp]; rfl) rfl (Nat.le_refl _))
  | learns hp => exact .inr (elsewhere hp.2 hp.1 rfl (Nat.le_refl _))
  | queues hp hl =>
    exact .inr (elsewhere (by simp [hp]) (by rw [hp]; rfl) rfl (Nat.le_of_eq (Lock.ahead_join hline job)))
  | enters hp hl =>
    rcases hline with hme | hme
    · cases hl.symm.trans hme
    · rw [h.line.free hl] at hme
      cases hme
  | succeeds hp hl =>
    exact .inl (rank_conclude hl hne (hwaiting hl) hc (by rw [hp]; rfl) (Request.passage_lock ..))
  | @closes batch hp =>
    have hl := holds (by rw [hp]; rfl)
    obtain ⟨-, -, ⟨result, hheld⟩, -⟩ := Workspace.close_heard env session s.workspace batch
    exact .inl (rank_finish hl hne (hwaiting hl) (Workspace.close_lock ..) hheld)
  | parts hp =>
    have hl := holds (by rw [hp]; rfl)
    exact .inl (rank_finish hl hne (hwaiting hl) rfl rfl)

/-- Whatever happens, a call that stays in line falls no farther back. -/
theorem Lined.rank_step (h : s.Lined) (hs : Step t i s s' ended) (hc : s.calls me = some c) (hp : c.phase = .queued)
    (hc' : s'.calls me = some c) :
    s'.rank me < s.rank me ∨
      s'.workspace.lock.holder = s.workspace.lock.holder ∧ s'.rank me ≤ s.rank me := by
  have hq : s.Queued me := ⟨c, hc, hp⟩
  cases hs with
  | rests | unloads => exact .inr ⟨rfl, Nat.le_refl _⟩
  | @begins job request hnone hr =>
    refine .inr ⟨rfl, rank_le_of_holder rfl (Nat.le_refl _) fun holder hl => ?_⟩
    -- the holder has a call already
    refine Function.update_of_ne ?_ ..
    rintro rfl
    rcases h.line.holder hl with ⟨other, hother, -⟩ | ⟨other, hother, -⟩
    · exact absurd (hnone.symm.trans hother) nofun
    · exact absurd (hnone.symm.trans hother) nofun
  | @goes env job other session he hother =>
    have ha := Call.paths t.setup env job session s.workspace (h.fit hother)
    generalize other.advance t.setup env job session s.workspace = a at ha hc' ⊢
    by_cases hne : job = me
    · subst hne
      cases hc.symm.trans hother
      have hgo := after_calls_self.1 hc'
      cases ha with
      | stays =>
        exact .inr ⟨rfl, rank_le_of_holder rfl (Nat.le_refl _) fun holder _ => congrFun (calls_stay hc) holder⟩
      | yields | despairs | learns => cases hgo
      | passes hp' | queues hp' | enters hp' | closes hp' | parts hp' => exact absurd (hp.symm.trans hp') nofun
      | succeeds =>
        obtain ⟨-, -, ⟨batch, -, hp'⟩ | ⟨handle, -, hp'⟩⟩ := Call.conclude_going hgo
        · exact absurd (hp.symm.trans hp') nofun
        · exact absurd (hp.symm.trans hp') nofun
    · exact (h.rank_goes hother hne hq ha).imp_right fun ⟨hl, hle, _⟩ => ⟨hl, hle⟩

end Scene

end SliceSync
