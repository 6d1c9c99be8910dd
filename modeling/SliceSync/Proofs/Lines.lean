import SliceSync.Proofs.Scenes
/-!
# The line at the lock

The lock of a workspace is held by a call that waits under it, or was passed to one that stands in line; all
others in line are in its queue, each once (`Lock.Line`). Every step keeps this, whoever asks, gives up
waiting or hands the lock on (`Scene.Lined`).
-/

namespace SliceSync

/-- The lock is held by one of those who hold it or by one to whom it was passed, and its line is made up of
all others who wait for it. -/
structure Lock.Line (l : Lock) (queued holding : JobId → Prop) : Prop where
  holds : ∀ {me}, holding me → l.holder = some me
  holder : ∀ {me}, l.holder = some me → queued me ∨ holding me
  waiting : ∀ {me}, me ∈ l.waiting ↔ l.holder ≠ some me ∧ queued me
  nodup : l.waiting.Nodup
  free : l.holder = none → l.waiting = []

namespace Lock.Line

variable {l : Lock} {queued holding queued' holding' : JobId → Prop} {me : JobId}

theorem congr (h : l.Line queued holding) (hq : ∀ job, queued' job ↔ queued job)
    (hh : ∀ job, holding' job ↔ holding job) : l.Line queued' holding' := by
  obtain rfl : queued' = queued := funext fun job => propext (hq job)
  obtain rfl : holding' = holding := funext fun job => propext (hh job)
  exact h

/-- Who asks for a lock that is held joins the line. -/
theorem join (h : l.Line queued holding) (me : JobId) {other : JobId} (hl : l.holder = some other) (hq : ¬queued me)
    (hh : ¬holding me) :
    Line { l with waiting := l.waiting ++ [me] } (fun job => job = me ∨ queued job) holding := by
  have hne : l.holder ≠ some me := fun hme => (h.holder hme).elim hq hh
  refine ⟨h.holds, fun hother => (h.holder hother).imp_left .inr, ?_, ?_, fun hn => ?_⟩
  · intro job
    rw [List.mem_append, h.waiting, List.mem_singleton]
    constructor
    · rintro (⟨hjob, hqueued⟩ | rfl)
      · exact ⟨hjob, .inr hqueued⟩
      · exact ⟨hne, .inl rfl⟩
    · rintro ⟨hjob, rfl | hqueued⟩
      · exact .inr rfl
      · exact .inl ⟨hjob, hqueued⟩
  · refine List.nodup_append.2 ⟨h.nodup, by simp, ?_⟩
    rintro a ha b hb rfl
    cases List.mem_singleton.1 hb
    exact hq (h.waiting.1 ha).2
  · simp [hl] at hn

/-- Who takes a free lock holds it. -/
theorem take (h : l.Line queued holding) (hl : l.holder = none) :
    Line { l with holder := some me } queued (fun job => job = me ∨ holding job) := by
  have hwaiting := h.free hl
  have hnone (job : JobId) : ¬queued job := by
    intro hjob
    have := h.waiting.2 ⟨by rw [hl]; nofun, hjob⟩
    simp [hwaiting] at this
  refine ⟨?_, ?_, ?_, h.nodup, nofun⟩
  · rintro job (rfl | hjob)
    · rfl
    · exact absurd (h.holds hjob) (by simp [hl])
  · intro job hjob
    exact .inr (.inl (Option.some.inj hjob).symm)
  · intro job
    simp [hwaiting, hnone]

/-- Who was passed the lock holds it from now on. -/
theorem succeed (h : l.Line queued holding) (hl : l.holder = some me) :
    l.Line (fun job => job ≠ me ∧ queued job) (fun job => job = me ∨ holding job) := by
  refine ⟨?_, fun {job} hjob => ?_, fun {job} => ?_, h.nodup, h.free⟩
  · rintro job (rfl | hjob)
    · exact hl
    · exact h.holds hjob
  · rw [hl] at hjob
    exact .inr (.inl (Option.some.inj hjob).symm)
  · rw [h.waiting]
    constructor
    · rintro ⟨hjob, hqueued⟩
      exact ⟨hjob, fun heq => hjob (heq ▸ hl), hqueued⟩
    · rintro ⟨hjob, -, hqueued⟩
      exact ⟨hjob, hqueued⟩

/-- Who gives the lock back passes it to the first in line. -/
theorem release (h : l.Line queued holding) (hl : l.holder = some me) :
    l.release.Line (fun job => job ≠ me ∧ queued job) (fun job => job ≠ me ∧ holding job) := by
  have hwaiting {job : JobId} : job ∈ l.waiting ↔ job ≠ me ∧ queued job := by
    rw [h.waiting, hl]
    exact and_congr_left' (not_congr ⟨fun heq => (Option.some.inj heq).symm, fun heq => by rw [heq]⟩)
  have hnone (job : JobId) : ¬(job ≠ me ∧ holding job) := by
    rintro ⟨hne, hjob⟩
    exact hne (Option.some.inj ((h.holds hjob).symm.trans hl))
  have hnodup := h.nodup
  unfold Lock.release
  cases hw : l.waiting with
  | nil =>
    rw [hw] at hwaiting
    refine ⟨fun hjob => absurd hjob (hnone _), nofun, ?_, List.nodup_nil, fun _ => rfl⟩
    intro job
    simpa using hwaiting
  | cons next rest =>
    rw [hw] at hwaiting hnodup
    rw [List.nodup_cons] at hnodup
    refine ⟨fun hjob => absurd hjob (hnone _), ?_, ?_, hnodup.2, nofun⟩
    · intro job hjob
      cases hjob
      exact .inl (hwaiting.1 (by simp))
    · intro job
      rw [← hwaiting, List.mem_cons, ne_eq, Option.some.injEq]
      constructor
      · intro hjob
        exact ⟨fun heq => hnodup.1 (heq ▸ hjob), .inr hjob⟩
      · rintro ⟨hne, rfl | hjob⟩
        · exact absurd rfl hne
        · exact hjob

/-- Who gives up waiting leaves the line, or passes the lock on. -/
theorem leave (h : l.Line queued holding) (me : JobId) (hh : ¬holding me) :
    (l.leave me).Line (fun job => job ≠ me ∧ queued job) holding := by
  unfold Lock.leave
  split
  · rename_i hl
    refine (h.release hl).congr (fun _ => .rfl) fun job => ⟨fun hjob => ⟨?_, hjob⟩, And.right⟩
    rintro rfl
    exact hh hjob
  · rename_i hl
    refine ⟨h.holds, fun {job} hjob => ?_, fun {job} => ?_, h.nodup.filter _, fun hn => by simp [h.free hn]⟩
    · refine (h.holder hjob).imp_left fun hqueued => ⟨?_, hqueued⟩
      rintro rfl
      exact hl hjob
    · simp only [List.mem_filter, h.waiting, decide_not, Bool.not_eq_true', decide_eq_false_iff_not]
      exact ⟨fun ⟨⟨hjob, hqueued⟩, hne⟩ => ⟨hjob, hne, hqueued⟩,
        fun ⟨hjob, hne, hqueued⟩ => ⟨⟨hjob, hqueued⟩, hne⟩⟩

end Lock.Line

namespace Workspace

/-- The closing of a batch leaves the lock to its call. -/
theorem close_lock (env : Environment) (session : Session) (w : Workspace) (batch : OpenBatch) :
    (w.close env session batch).workspace.lock = w.lock := by
  obtain ⟨_, _, _, h⟩ := w.close_workspace env session batch
  rw [h]

theorem finishDispose_lock (session : Session) (w : Workspace) (handle : ContextHandle) :
    (w.finishDispose session handle).workspace.lock = w.lock := rfl

end Workspace

/-- What the commit of a batch carries suits the request that opened it. -/
theorem Request.passage_suits {setup : Setup} {env : Environment} {session : Session} {w : Workspace}
    {request : Request} {batch : OpenBatch} (h : (request.passage setup env session w).held = .closing batch) :
    batch.commit.Suits request := by
  have hp := request.enters setup env session w
  generalize request.passage setup env session w = p at h hp
  cases hp with
  | receives hr =>
    cases hr with
    | creates _ hu | applies _ hu =>
      cases h
      exact ⟨_, hu⟩
    | appliesBuild _ hu =>
      cases h
      exact ⟨_, hu⟩
    | _ => cases h
  | writes =>
    cases h
    trivial
  | _ => cases h

namespace Scene

/-- A job waits in line for the lock, or was passed it. -/
def Queued (s : Scene) (me : JobId) : Prop := ∃ c, s.calls me = some c ∧ c.phase = .queued

/-- A job waits under the lock. -/
def Holding (s : Scene) (me : JobId) : Prop := ∃ c, s.calls me = some c ∧ c.phase.holds = true

/-- Each call stands where it can, and the line at the lock is made up of those that wait for it. -/
structure Lined (s : Scene) : Prop where
  fit : ∀ {me c}, s.calls me = some c → c.Fit
  line : s.workspace.lock.Line s.Queued s.Holding

theorem queued_after {s : Scene} {me : JobId} {a : Advance} (job : JobId) :
    (s.after me a).Queued job ↔
      job ≠ me ∧ s.Queued job ∨ job = me ∧ ∃ c, a.progress = .going c ∧ c.phase = .queued := by
  unfold Queued
  by_cases hjob : job = me
  · subst hjob
    simp [after_calls_self]
  · simp [after_calls_of_ne _ _ hjob, hjob]

theorem holding_after {s : Scene} {me : JobId} {a : Advance} (job : JobId) :
    (s.after me a).Holding job ↔
      job ≠ me ∧ s.Holding job ∨ job = me ∧ ∃ c, a.progress = .going c ∧ c.phase.holds = true := by
  unfold Holding
  by_cases hjob : job = me
  · subst hjob
    simp [after_calls_self]
  · simp [after_calls_of_ne _ _ hjob, hjob]

variable {t : Terms} {i : Nat} {s s' : Scene} {ended : List Ending}

theorem lined_fresh (h : s.Fresh) : s.Lined := by
  obtain ⟨slice, hslice⟩ := h.workspace
  have started {me : JobId} {c : Call} (hc : s.calls me = some c) : c.phase ≠ .queued ∧ c.phase.holds = false := by
    obtain ⟨request, rfl⟩ := h.calls me c hc
    exact ⟨Call.start_not_queued request, Call.start_holds request⟩
  refine ⟨fun hc => ?_, ?_⟩
  · obtain ⟨request, rfl⟩ := h.calls _ _ hc
    exact Call.start_fit request
  · rw [hslice]
    refine ⟨?_, nofun, fun {me} => ?_, List.nodup_nil, fun _ => rfl⟩
    · rintro me ⟨c, hc, hp⟩
      exact absurd hp (by simp [(started hc).2])
    · simp only [List.not_mem_nil, false_iff, not_and]
      rintro - ⟨c, hc, hp⟩
      exact (started hc).1 hp

/-- A call that has the lock ends and gives it back, or goes on to wait under it. -/
theorem line_conclude {setup : Setup} {me : JobId} {c : Call} {p : Passage}
    (h : p.workspace.lock.Line (fun job => job ≠ me ∧ s.Queued job) (fun job => job = me ∨ s.Holding job)) :
    (s.after me (c.conclude setup p)).workspace.lock.Line (s.after me (c.conclude setup p)).Queued
      (s.after me (c.conclude setup p)).Holding := by
  have hl : p.workspace.lock.holder = some me := h.holds (.inl rfl)
  unfold Call.conclude
  cases p.held with
  | finished result =>
    refine (h.release hl).congr (fun job => ?_) fun job => ?_
    · rw [queued_after]
      simp
    · rw [holding_after]
      simp [and_or_left]
  | closing batch =>
    refine h.congr (fun job => ?_) fun job => ?_
    · rw [queued_after]
      simp
    · rw [holding_after]
      by_cases hjob : job = me <;> simp [hjob, Phase.holds]
  | releasing handle =>
    refine h.congr (fun job => ?_) fun job => ?_
    · rw [queued_after]
      simp
    · rw [holding_after]
      by_cases hjob : job = me <;> simp [hjob, Phase.holds]

/-- A call that ends without the lock is of no account for the line, if it did not stand in it. -/
theorem line_finish {me : JobId} {a : Advance} {result : Except SyncError Answer}
    (h : s.workspace.lock.Line s.Queued s.Holding) (ha : a.progress = .done result)
    (hq : ¬s.Queued me) (hh : ¬s.Holding me) :
    s.workspace.lock.Line (s.after me a).Queued (s.after me a).Holding := by
  refine h.congr (fun job => ?_) fun job => ?_
  · rw [queued_after, ha]
    by_cases hjob : job = me <;> simp [hjob, hq]
  · rw [holding_after, ha]
    by_cases hjob : job = me <;> simp [hjob, hh]

theorem queued_iff {me : JobId} {c : Call} (hc : s.calls me = some c) : s.Queued me ↔ c.phase = .queued := by
  simp [Queued, hc]

theorem holding_iff {me : JobId} {c : Call} (hc : s.calls me = some c) :
    s.Holding me ↔ c.phase.holds = true := by
  simp [Holding, hc]

/-- A step of a call keeps the line at the lock. -/
theorem Lined.line_goes (h : s.Lined) {env : Environment} {me : JobId} {c : Call} {session : Session} {a : Advance}
    (hc : s.calls me = some c) (ha : c.Paths t.setup env me session s.workspace a) :
    (s.after me a).workspace.lock.Line (s.after me a).Queued (s.after me a).Holding := by
  have hq := queued_iff hc
  have hh := holding_iff hc
  have unchanged : a.progress = .going c → s.workspace.lock.Line (s.after me a).Queued (s.after me a).Holding := by
    intro hgo
    refine h.line.congr (fun job => ?_) fun job => ?_
    · rw [queued_after, hgo]
      by_cases hjob : job = me <;> simp [hjob, hq]
    · rw [holding_after, hgo]
      by_cases hjob : job = me <;> simp [hjob, hh]
  have holder (hp : c.phase.holds = true) : s.workspace.lock.holder = some me := h.line.holds (hh.2 hp)
  have passage {p : Passage} (hp : c.phase.holds = true) (hl : p.workspace.lock = s.workspace.lock) :
      (s.after me (c.conclude t.setup p)).workspace.lock.Line (s.after me (c.conclude t.setup p)).Queued
        (s.after me (c.conclude t.setup p)).Holding := by
    refine line_conclude ?_
    rw [hl]
    exact h.line.succeed (holder hp)
  cases ha with
  | stays hs => exact unchanged rfl
  | @yields cause lock hr hp hu hl =>
    rcases hl with ⟨hphase, rfl⟩ | ⟨hphase, rfl⟩
    · refine (h.line.leave me (by simp [hh, hp])).congr (fun job => ?_) fun job => ?_
      · rw [queued_after]
        simp [Call.finish]
      · rw [holding_after]
        by_cases hjob : job = me <;> simp [hjob, hh, hp, Call.finish]
    · exact line_finish h.line rfl (by simp [hq, hphase]) (by simp [hh, hp])
  | despairs hp hu he => exact line_finish h.line rfl (by simp [hq, hp]) (by simp [hh, hp, Phase.holds])
  | learns hp hu hr => exact line_finish h.line rfl (by simp [hq, hp.2]) (by simp [hh, hp.1])
  | passes hp hu he hr =>
    refine h.line.congr (fun job => ?_) fun job => ?_
    · rw [queued_after]
      by_cases hjob : job = me <;> simp [hjob, hq, hp]
    · rw [holding_after]
      by_cases hjob : job = me <;> simp [hjob, hh, hp, Phase.holds]
  | @queues other hp hl hu =>
    refine (h.line.join me hl (by simp [hq, hp]) (by simp [hh, hp, Phase.holds])).congr (fun job => ?_)
      fun job => ?_
    · rw [queued_after]
      by_cases hjob : job = me <;> simp [hjob]
    · rw [holding_after]
      by_cases hjob : job = me <;> simp [hjob, hh, hp, Phase.holds]
  | enters hp hl hu =>
    refine line_conclude ?_
    rw [Request.passage_lock]
    refine (h.line.take hl).congr (fun job => ?_) fun _ => .rfl
    constructor
    · exact And.right
    · intro hjob
      refine ⟨?_, hjob⟩
      rintro rfl
      exact absurd (hq.1 hjob) (by simp [hp])
  | succeeds hp hl hu =>
    refine line_conclude ?_
    rw [Request.passage_lock]
    exact h.line.succeed hl
  | closes hp hg => exact passage (by simp [hp, Phase.holds]) (Workspace.close_lock ..)
  | parts hp hd => exact passage (by simp [hp, Phase.holds]) (Workspace.finishDispose_lock ..)

/-- A call that goes on stands where it can. -/
theorem fit_goes {env : Environment} {me : JobId} {c c' : Call} {session : Session} {w : Workspace} {a : Advance}
    (hc : c.Fit) (ha : c.Paths t.setup env me session w a) (hgo : a.progress = .going c') :
    c'.Fit ∧ c'.request = c.request := by
  have concluded {w : Workspace} (hgo : (c.conclude t.setup (c.request.passage t.setup env session w)).progress =
      .going c') : c'.Fit ∧ c'.request = c.request := by
    obtain ⟨-, hr, ⟨batch, hh, hp⟩ | ⟨handle, hh, hp⟩⟩ := Call.conclude_going hgo
    · exact ⟨by simpa [Call.Fit, hp, hr] using Request.passage_suits hh, hr⟩
    · exact ⟨by simpa [Call.Fit, hp, hr] using Request.passage_releasing hh, hr⟩
  have ended {p : Passage} (hh : ∃ result, p.held = .finished result) :
      (c.conclude t.setup p).progress ≠ .going c' := by
    intro hgo
    obtain ⟨result, hh⟩ := hh
    obtain ⟨-, -, ⟨batch, hb, -⟩ | ⟨handle, hb, -⟩⟩ := Call.conclude_going hgo
    · cases hh.symm.trans hb
    · cases hh.symm.trans hb
  cases ha with
  | stays hs =>
    cases hgo
    exact ⟨hc, rfl⟩
  | yields | despairs | learns => cases hgo
  | passes hp hu he hr =>
    cases hgo
    refine ⟨?_, rfl⟩
    -- what waits for the first evaluation, but to know of it, asks for the lock
    simp only [Call.Fit, hp] at hc ⊢
    revert hc hr
    cases c.request <;> simp [Request.awaits, Request.locks]
  | queues hp hl hu =>
    cases hgo
    refine ⟨?_, rfl⟩
    simpa only [Call.Fit, hp] using hc
  | enters hp hl hu => exact concluded hgo
  | succeeds hp hl hu => exact concluded hgo
  | closes hp hg => exact absurd hgo (ended (Workspace.close_heard ..).2.2.1)
  | parts hp hd => exact absurd hgo (ended (Workspace.finishDispose_heard ..).2.2.1)

/-- Every step keeps the line at the lock. -/
theorem Lined.step (h : s.Lined) (hs : Step t i s s' ended) : s'.Lined := by
  cases hs with
  | rests => exact h
  | unloads cause => exact ⟨h.fit, h.line⟩
  | @begins me request hc hr =>
    refine ⟨fun {job c} hjob => ?_, h.line.congr (fun job => ?_) fun job => ?_⟩
    · dsimp only at hjob
      by_cases hme : job = me
      · subst hme
        rw [Function.update_self] at hjob
        cases hjob
        exact Call.start_fit request
      · rw [Function.update_of_ne hme] at hjob
        exact h.fit hjob
    · by_cases hme : job = me
      · simp [Queued, hme, hc, Call.start_not_queued]
      · simp [Queued, hme]
    · by_cases hme : job = me
      · simp [Holding, hme, hc, Call.start_holds]
      · simp [Holding, hme]
  | @goes env me c session he hc =>
    have ha := Call.paths t.setup env me session s.workspace (h.fit hc)
    refine ⟨fun {job c'} hjob => ?_, h.line_goes hc ha⟩
    by_cases hme : job = me
    · subst hme
      exact (fit_goes (h.fit hc) ha (after_calls_self.1 hjob)).1
    · rw [after_calls_of_ne _ _ hme] at hjob
      exact h.fit hjob

end Scene

namespace World

variable {t : Terms} {i : Nat} {acts : List Act}

/-- In every run the line at a lock is made up of the calls that wait for it. -/
theorem lined_run (ha : ∀ a ∈ acts, a.Within t) {s : Scene} (hs : (run t.setup acts).view.HasScene i s) :
    s.Lined := by
  obtain ⟨-, ⟨hv, -⟩ | ⟨s', hs', h⟩⟩ :=
    plays_run (P := fun s _ => s.Lined) (i := i) (fun hf _ => Scene.lined_fresh hf) (fun h hst => h.step hst) ha
  · exact absurd (hv.workspace.symm.trans hs.workspace) nofun
  · exact hs.unique hs' ▸ h

end World

end SliceSync
