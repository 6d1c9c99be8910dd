import Mathlib.Data.Nat.Pairing
import SliceSync.Proofs.Unloading
/-!
# Calls come to an end

Acts without end are fair to a workspace if every call on it is taken ahead again and again while batches can
be closed and contexts can go. Fair acts end every call that asks for the lock: who is under it when it can, and
who stands in line comes closer to it with every handover. The induction is on `Scene.rank`, and the holder of the
lock is the one whose steps count. Once unload is requested fair acts end every call, since who heeds the token
ends at once.

Main statements: `World.Standing.ends_of_entering` and `World.Unloading.ends`.
-/

namespace SliceSync

theorem Advance.endings_of_done {a : Advance} {result : Except SyncError Answer} (h : a.progress = .done result)
    (i : Nat) (request : Request) : a.endings i request = [⟨i, request, result⟩] := by
  simp only [endings, h]

/-- Who is under the lock can go on when batches can be closed and contexts can go. -/
theorem Call.not_isStuck_of_holds {env : Environment} {me : JobId} {w : Workspace} (c : Call)
    (hp : c.phase.holds = true) (hopen : env.gateOpen = true ∧ env.disposalOpen = true) :
    c.isStuck env me w ≠ true := by
  cases hphase : c.phase <;> simp_all [isStuck, Phase.holds]

namespace Call.Paths

variable {setup : Setup} {env : Environment} {me : JobId} {c : Call} {session : Session} {w : Workspace}
  {a : Advance} {cause : DisposeCause}

/-- Who is under the lock ends when it can. -/
theorem held (h : c.Paths setup env me session w a) (hp : c.phase.holds = true) :
    (∃ result, a.progress = .done result) ∨
      a.progress = .going c ∧ ¬(env.gateOpen = true ∧ env.disposalOpen = true) := by
  cases h with
  | stays hs => exact .inr ⟨rfl, fun hopen => c.not_isStuck_of_holds hp hopen hs⟩
  | yields _ hp' => exact absurd (hp.symm.trans hp') nofun
  | learns hp' => exact absurd (hp.symm.trans hp'.1) nofun
  | despairs hp' | passes hp' | queues hp' | enters hp' | succeeds hp' => simp [hp', Phase.holds] at hp
  | @closes batch =>
    obtain ⟨-, -, ⟨result, hheld⟩, -⟩ := Workspace.close_heard env session w batch
    exact .inl ⟨result, by rw [conclude, hheld]⟩
  | parts => exact .inl ⟨_, rfl⟩

/-- Once unload is requested, who heeds the token ends too. -/
theorem direct (h : c.Paths setup env me session w a) (hu : w.unload.cause = some cause)
    (hr : c.request.heeds = true) :
    (∃ result, a.progress = .done result) ∨
      a.progress = .going c ∧ ¬(env.gateOpen = true ∧ env.disposalOpen = true) := by
  cases hp : c.phase.holds with
  | false =>
    obtain ⟨lock, rfl, -⟩ := h.yielded hu hr hp
    exact .inl ⟨_, rfl⟩
  | true => exact h.held hp

/-- What a passage under the lock leads to. -/
theorem concluded (setup : Setup) (c : Call) (p : Passage) :
    (∃ result, (c.conclude setup p).progress = .done result) ∨
      ∃ c', (c.conclude setup p).progress = .going c' ∧ c'.request = c.request ∧ c'.phase.holds = true := by
  unfold conclude
  cases p.held with
  | finished result => exact .inl ⟨result, rfl⟩
  | closing batch => exact .inr ⟨_, rfl, rfl, rfl⟩
  | releasing handle => exact .inr ⟨_, rfl, rfl, rfl⟩

/-- Who stands in line waits for the lock, and gets it, unless it gives way to the request to unload. -/
theorem queued (h : c.Paths setup env me session w a) (hp : c.phase = .queued) :
    a.progress = .going c ∧ w.lock.holder ≠ some me ∨
      (∃ result, a.progress = .done result) ∨
        ∃ c', a.progress = .going c' ∧ c'.request = c.request ∧ c'.phase.holds = true := by
  cases h with
  | stays hs =>
    refine .inl ⟨rfl, fun hl => ?_⟩
    simp [isStuck, hp, Lock.isHeldBy, hl] at hs
  | yields => exact .inr (.inl ⟨_, rfl⟩)
  | learns hp' => exact absurd hp hp'.2
  | despairs hp' | passes hp' | queues hp' | enters hp' | closes hp' | parts hp' =>
    cases hp.symm.trans hp'
  | succeeds => exact .inr (concluded ..)

/-- Who asks for the lock gets it, or joins the line. -/
theorem entering (h : c.Paths setup env me session w a) (hp : c.phase = .entering) :
    (∃ result, a.progress = .done result) ∨
      ∃ c', a.progress = .going c' ∧ c'.request = c.request ∧ (c'.phase.holds = true ∨ c'.phase = .queued) := by
  cases h with
  | stays hs => simp [isStuck, hp] at hs
  | yields | learns => exact .inl ⟨_, rfl⟩
  | despairs hp' | passes hp' | succeeds hp' | closes hp' | parts hp' => cases hp.symm.trans hp'
  | queues => exact .inr ⟨_, rfl, rfl, .inr rfl⟩
  | enters =>
    refine (concluded ..).imp_right ?_
    rintro ⟨c', hgo, hrequest, hholds⟩
    exact ⟨c', hgo, hrequest, .inl hholds⟩

/-- Who waits for the first evaluation, and has it, goes on to ask for the lock. -/
theorem awaiting (h : c.Paths setup env me session w a) (hp : c.phase = .awaitingEvaluation)
    (he : w.evaluation = .integrated) :
    (∃ result, a.progress = .done result) ∨
      ∃ c', a.progress = .going c' ∧ c'.request = c.request ∧ c'.phase = .entering := by
  cases h with
  | stays hs => simp [isStuck, hp, he] at hs
  | yields | despairs | learns => exact .inl ⟨_, rfl⟩
  | passes => exact .inr ⟨_, rfl, rfl, rfl⟩
  | queues hp' | enters hp' | succeeds hp' | closes hp' | parts hp' => cases hp.symm.trans hp'

/-- A teardown ends well. -/
theorem of_dispose (h : c.Paths setup env me session w a) (hf : c.Fit) (hr : c.request = .dispose cause)
    {result : Except SyncError Answer} (hd : a.progress = .done result) : result = .ok .done := by
  have begun {w : Workspace} (hd : (c.conclude setup (c.request.passage setup env session w)).progress = .done result) :
      result = .ok .done := by
    rw [hr] at hd
    unfold conclude Request.passage Workspace.beginDispose at hd
    dsimp only at hd
    cases hs : w.status <;> cases hc : w.context <;> simp [hs, hc] at hd <;> exact hd.symm
  cases h with
  | stays | passes | queues => cases hd
  | yields hr' => simp [hr, Request.heeds] at hr'
  | despairs hp => simp [Fit, hp, hr, Request.awaits] at hf
  | learns _ _ hr' => rcases hr' with ⟨hr', -⟩ | ⟨hr', -⟩ <;> cases hr.symm.trans hr'
  | enters => exact begun hd
  | succeeds => exact begun hd
  | closes hp => exact absurd (hr ▸ hf.closing hp) Commit.not_suits_dispose
  | parts =>
    cases hd
    rfl

end Call.Paths

namespace Scene.Lined

variable {s : Scene} {me : JobId}

/-- Where somebody stands in line, somebody holds the lock. -/
theorem held (h : s.Lined) (hq : s.Queued me) : ∃ job, s.workspace.lock.holder = some job := by
  cases hholder : s.workspace.lock.holder with
  | some job => exact ⟨job, rfl⟩
  | none =>
    rcases h.in_line hq with hme | hme
    · exact absurd (hholder.symm.trans hme) nofun
    · rw [h.line.free hholder] at hme
      cases hme

/-- Who holds the lock is making a call. -/
theorem holder_call (h : s.Lined) (hl : s.workspace.lock.holder = some me) : ∃ c, s.calls me = some c := by
  rcases h.line.holder hl with ⟨c, hc, -⟩ | ⟨c, hc, -⟩
  · exact ⟨c, hc⟩
  · exact ⟨c, hc⟩

end Scene.Lined

namespace World

variable {t : Terms} {setup : Setup} {w : World} {i : Nat} {s : Scene} {me : JobId} {c : Call} {env : Environment}
  {cause : DisposeCause}

/-- A job that takes a call here ahead does what the call's step does. -/
theorem goes_here (hk : w.Keeps t) (he : t.fits env) (hs : w.view.HasScene i s) (hc : s.calls me = some c) :
    (w.advance env me).view.HasScene i (s.after me (c.advance t.setup env me w.session s.workspace)) ∧
      (w.advance env me).session = (c.advance t.setup env me w.session s.workspace).session ∧
      w.endings (.advance env me) = (c.advance t.setup env me w.session s.workspace).endings i c.request := by
  have hcall : w.callAt me = some (i, c) := (hs.calls me c).1 hc
  rw [← hk.setup]
  obtain ⟨slices, hv⟩ := advance_view hk he hcall hs.workspace
  exact ⟨hv ▸ (hs.goes _).adding slices, congrArg View.session hv, endings_of_call hcall hs.workspace⟩

/-- The worlds along acts without end. -/
def follow (w : World) (acts : Nat → Act) : Nat → World
  | 0 => w
  | n + 1 => (w.follow acts n).perform (acts n)

theorem follow_run (setup : Setup) (before : List Act) (acts : Nat → Act) (n : Nat) :
    (run setup before).follow acts n = run setup (before ++ (List.range n).map acts) := by
  induction n with
  | zero => simp [follow]
  | succ n ih =>
    rw [List.range_succ, List.map_append, ← List.append_assoc]
    simp only [follow, ih, List.map_cons, List.map_nil, run_concat]

/-- The calls on the workspace in a place stand in line at its lock. -/
structure Standing (setup : Setup) (w : World) (i : Nat) : Prop where
  keeps : w.Keeps (freely setup)
  scene : ∃ s, w.view.HasScene i s ∧ s.Lined

theorem Standing.perform (h : w.Standing setup i) (a : Act) : (w.perform a).Standing setup i := by
  obtain ⟨s, hs, hl⟩ := h.scene
  obtain ⟨s', hs', hstep⟩ := hs.move (perform_moves h.keeps (within_freely setup a))
  exact ⟨keeps_perform h.keeps (within_freely setup a), s', hs', hl.step hstep⟩

theorem Standing.follow (h : w.Standing setup i) (acts : Nat → Act) (n : Nat) : (w.follow acts n).Standing setup i := by
  induction n with
  | zero => exact h
  | succ n ih => exact ih.perform (acts n)

/-- What is known of the workspace along the way. -/
theorem Standing.scene_at (h : w.Standing setup i) {acts : Nat → Act} {n : Nat}
    (hs : (w.follow acts n).view.HasScene i s) : (w.follow acts n).Keeps (freely setup) ∧ s.Lined := by
  obtain ⟨hkeeps, s', hs', hl⟩ := h.follow acts n
  cases hs.unique hs'
  exact ⟨hkeeps, hl⟩

/-- Unload of the workspace in a place has been requested. -/
structure Unloading (setup : Setup) (w : World) (i : Nat) (cause : DisposeCause) : Prop where
  keeps : w.Keeps (freely setup)
  scene : ∃ s, w.view.HasScene i s ∧ s.Lined ∧ s.workspace.unload.cause = some cause

theorem Unloading.standing (h : w.Unloading setup i cause) : w.Standing setup i :=
  have ⟨s, hs, hl, _⟩ := h.scene
  ⟨h.keeps, s, hs, hl⟩

/-- It stays requested, for the same cause. -/
theorem Unloading.perform (h : w.Unloading setup i cause) (a : Act) : (w.perform a).Unloading setup i cause := by
  obtain ⟨s, hs, hl, hu⟩ := h.scene
  obtain ⟨s', hs', hstep⟩ := hs.move (perform_moves h.keeps (within_freely setup a))
  exact ⟨keeps_perform h.keeps (within_freely setup a), s', hs', hl.step hstep, hl.keeps_cause hstep hu⟩

theorem Unloading.follow (h : w.Unloading setup i cause) (acts : Nat → Act) (n : Nat) :
    (w.follow acts n).Unloading setup i cause := by
  induction n with
  | zero => exact h
  | succ n ih => exact ih.perform (acts n)

/-- Every call on the workspace in a place is taken ahead again and again, when batches can be closed and
contexts can go. -/
def Fair (w : World) (i : Nat) (acts : Nat → Act) : Prop :=
  ∀ n me c, (w.follow acts n).callAt me = some (i, c) →
    ∃ m env, n ≤ m ∧ acts m = .advance env me ∧ env.gateOpen = true ∧ env.disposalOpen = true

/-- Taking all jobs ahead in turns, again and again, is fair. -/
theorem fair_rounds (w : World) (i : Nat) : w.Fair i fun n => .advance {} n.unpair.1 := by
  intro n me c _
  refine ⟨Nat.pair me n, {}, Nat.right_le_pair me n, ?_, rfl, rfl⟩
  simp only [Nat.unpair_pair]

/-- The call that a job is making at some time ends, well if it is a teardown. -/
def Ends (w : World) (acts : Nat → Act) (i : Nat) (me : JobId) (request : Request) (n : Nat) : Prop :=
  ∃ m env result, n ≤ m ∧ acts m = .advance env me ∧
    (w.follow acts m).endings (acts m) = [⟨i, request, result⟩] ∧
    (∀ cause, request = .dispose cause → result = .ok .done) ∧
    ∀ k, n ≤ k → k ≤ m → ∃ c, (w.follow acts k).callAt me = some (i, c) ∧ c.request = request

variable {acts : Nat → Act} {request : Request} {n : Nat}

/-- A call that goes on ends when it ends later. -/
theorem Ends.later (h : w.Ends acts i me request (n + 1)) (hc : (w.follow acts n).callAt me = some (i, c))
    (hr : c.request = request) : w.Ends acts i me request n := by
  obtain ⟨m, env, result, hm, hact, hends, hresult, hcalls⟩ := h
  refine ⟨m, env, result, by omega, hact, hends, hresult, fun k hk hkm => ?_⟩
  by_cases hkn : k = n
  · exact ⟨c, hkn ▸ hc, hr⟩
  · exact hcalls k (by omega) hkm

/-- A call ends if what is known of it goes on to hold until it ends, at some time at the latest. -/
theorem ends_of_steps {P : Nat → Prop} {m : Nat} (hnm : n ≤ m) (hn : P n)
    (call : ∀ k, P k → ∃ c, (w.follow acts k).callAt me = some (i, c) ∧ c.request = request)
    (step : ∀ k, k < m → P k → P (k + 1) ∨ w.Ends acts i me request k) (last : P m → w.Ends acts i me request m) :
    w.Ends acts i me request n := by
  induction hd : m - n generalizing n with
  | zero =>
    obtain rfl : n = m := by omega
    exact last hn
  | succ d ih =>
    rcases step n (by omega) hn with hnext | hends
    · obtain ⟨c, hc, hr⟩ := call n hn
      exact (ih (by omega) hnext (by omega)).later hc hr
    · exact hends

/-- What comes of a call when its job takes it ahead. -/
theorem Standing.own (h : w.Standing setup i) (hc : (w.follow acts n).callAt me = some (i, c))
    (ha : acts n = .advance env me) :
    ∃ s a, (w.follow acts n).view.HasScene i s ∧ s.Lined ∧
      c.Paths setup env me (w.follow acts n).session s.workspace a ∧
      ((∃ result, a.progress = .done result) → w.Ends acts i me c.request n) ∧
      ∀ c', a.progress = .going c' → (w.follow acts (n + 1)).callAt me = some (i, c') := by
  obtain ⟨hkeeps, s, hs, hl⟩ := h.follow acts n
  have hcall := (hs.calls me c).2 hc
  have hpaths := Call.paths setup env me (w.follow acts n).session s.workspace (hl.fit hcall)
  obtain ⟨hs', -, hends⟩ := goes_here hkeeps (show (freely setup).fits env from trivial) hs hcall
  refine ⟨s, _, hs, hl, hpaths, fun ⟨result, hresult⟩ => ?_, fun c' hgo => ?_⟩
  · refine ⟨n, env, result, Nat.le_refl n, ha, ?_, fun cause hr => ?_, fun k hk hkn => ?_⟩
    · rw [ha, hends]
      exact Advance.endings_of_done hresult ..
    · exact hpaths.of_dispose (hl.fit hcall) hr hresult
    · obtain rfl : k = n := by omega
      exact ⟨c, hc, rfl⟩
  · show ((w.follow acts n).perform (acts n)).callAt me = _
    rw [ha]
    exact (hs'.calls me c').1 (Scene.after_calls_self.2 hgo)

/-- What comes of a call when its job does something else, or another job takes a step. -/
theorem Standing.aside (h : w.Standing setup i) (hc : (w.follow acts n).callAt me = some (i, c))
    (ha : ∀ env, acts n ≠ .advance env me) : (w.follow acts (n + 1)).callAt me = some (i, c) :=
  callAt_perform (h.follow acts n).keeps (within_freely setup _) hc ha

/-- A call ends if it does whenever it is taken ahead, or stays as it is as long as batches cannot be closed or
contexts cannot go. -/
theorem Standing.ends_of_own (h : w.Standing setup i) (hf : w.Fair i acts)
    (hc : (w.follow acts n).callAt me = some (i, c))
    (own : ∀ k env, (w.follow acts k).callAt me = some (i, c) → acts k = .advance env me →
      w.Ends acts i me c.request k ∨ (w.follow acts (k + 1)).callAt me = some (i, c) ∧
        ¬(env.gateOpen = true ∧ env.disposalOpen = true)) : w.Ends acts i me c.request n := by
  obtain ⟨m, env, hm, hact, hopen⟩ := hf n me c hc
  refine ends_of_steps (P := fun k => (w.follow acts k).callAt me = some (i, c)) hm hc (fun k hk => ⟨c, hk, rfl⟩)
    (fun k _ hk => ?_) fun hlast => ?_
  · by_cases ha : ∃ env, acts k = .advance env me
    · obtain ⟨env', ha⟩ := ha
      exact (own k env' hk ha).elim .inr (.inl ·.1)
    · exact .inl (h.aside hk fun env he => ha ⟨env, he⟩)
  · exact (own m env hlast hact).resolve_right fun ⟨_, hstuck⟩ => hstuck hopen

/-- Who is under the lock ends. -/
theorem Standing.ends_of_holds (h : w.Standing setup i) (hf : w.Fair i acts)
    (hc : (w.follow acts n).callAt me = some (i, c)) (hp : c.phase.holds = true) : w.Ends acts i me c.request n := by
  refine h.ends_of_own hf hc fun k env hk ha => ?_
  obtain ⟨s, a, -, -, hpaths, hends, hgo⟩ := h.own hk ha
  exact (hpaths.held hp).imp hends fun ⟨hgoing, hstuck⟩ => ⟨hgo c hgoing, hstuck⟩

/-- Who stands in line and is taken ahead ends, or goes on standing in line for a lock that another holds. -/
theorem Standing.own_queued (h : w.Standing setup i) (hf : w.Fair i acts)
    (hc : (w.follow acts n).callAt me = some (i, c)) (hp : c.phase = .queued)
    (hs : (w.follow acts n).view.HasScene i s) (ha : acts n = .advance env me) :
    w.Ends acts i me c.request n ∨
      (w.follow acts (n + 1)).callAt me = some (i, c) ∧ s.workspace.lock.holder ≠ some me := by
  obtain ⟨s', a, hs', -, hpaths, hends, hgo⟩ := h.own hc ha
  cases hs.unique hs'
  rcases hpaths.queued hp with ⟨hgoing, hl⟩ | hdone | ⟨c', hgoing, hrequest, hholds⟩
  · exact .inr ⟨hgo c hgoing, hl⟩
  · exact .inl (hends hdone)
  · have hnext := h.ends_of_holds hf (hgo c' hgoing) hholds
    exact .inl ((hrequest ▸ hnext).later hc rfl)

/-- Whoever takes a step, a call that stays in line falls no farther back. -/
theorem Standing.queue_moves (h : w.Standing setup i) (hc : (w.follow acts n).callAt me = some (i, c))
    (hp : c.phase = .queued) (hs : (w.follow acts n).view.HasScene i s)
    (hnext : (w.follow acts (n + 1)).callAt me = some (i, c)) :
    ∃ s', (w.follow acts (n + 1)).view.HasScene i s' ∧
      (s'.rank me < s.rank me ∨
        s'.workspace.lock.holder = s.workspace.lock.holder ∧ s'.rank me ≤ s.rank me) := by
  obtain ⟨hkeeps, hl⟩ := h.scene_at hs
  obtain ⟨s', hs', hstep⟩ := hs.move (perform_moves hkeeps (within_freely setup (acts n)))
  exact ⟨s', hs', hl.rank_step hstep ((hs.calls me c).2 hc) hp ((hs'.calls me c).2 hnext)⟩

/-- When the holder of the lock is taken ahead and can go on, all others in line come closer. -/
theorem Standing.holder_moves (h : w.Standing setup i) (hc : (w.follow acts n).callAt me = some (i, c))
    (hp : c.phase = .queued) (hs : (w.follow acts n).view.HasScene i s) {job : JobId}
    (hholder : s.workspace.lock.holder = some job) (hne : job ≠ me) (ha : acts n = .advance env job)
    (hopen : env.gateOpen = true ∧ env.disposalOpen = true) :
    ∃ s', (w.follow acts (n + 1)).view.HasScene i s' ∧ s'.rank me < s.rank me := by
  obtain ⟨hkeeps, hl⟩ := h.scene_at hs
  obtain ⟨other, hother⟩ := hl.holder_call hholder
  have hnow := (goes_here hkeeps (show (freely setup).fits env from trivial) hs hother).1
  have hpaths := Call.paths setup env job (w.follow acts n).session s.workspace (hl.fit hother)
  have hafter : w.follow acts (n + 1) = (w.follow acts n).advance env job := by
    rw [World.follow, ha, World.perform]
  have hcloser := hl.rank_goes (t := freely setup) hother hne ⟨c, (hs.calls me c).2 hc, hp⟩ hpaths
  refine ⟨_, hafter ▸ hnow, hcloser.resolve_right ?_⟩
  rintro ⟨-, -, hstuck⟩
  obtain ⟨hholds, hstuck⟩ := hstuck hholder
  exact other.not_isStuck_of_holds hholds hopen hstuck

/-- Who stands in line ends. The holder of the lock is taken ahead at some time; until then nobody in line falls
back, and then all others in line come closer, or it was its own turn. -/
theorem Standing.ends_of_queued (h : w.Standing setup i) (hf : w.Fair i acts) (hp : c.phase = .queued)
    (n : Nat) (s : Scene) (hc : (w.follow acts n).callAt me = some (i, c))
    (hs : (w.follow acts n).view.HasScene i s) : w.Ends acts i me c.request n := by
  induction hrank : s.rank me using Nat.strongRecOn generalizing n s with
  | ind r ih =>
    subst hrank
    obtain ⟨-, hl⟩ := h.scene_at hs
    obtain ⟨job, hholder⟩ := hl.held ⟨c, (hs.calls me c).2 hc, hp⟩
    obtain ⟨other, hother⟩ := hl.holder_call hholder
    obtain ⟨m, env, hm, hact, hopen⟩ := hf n job other ((hs.calls job other).1 hother)
    refine ends_of_steps (P := fun k => (w.follow acts k).callAt me = some (i, c) ∧
      ∃ s', (w.follow acts k).view.HasScene i s' ∧ s'.workspace.lock.holder = some job ∧ s'.rank me ≤ s.rank me)
      hm ⟨hc, s, hs, hholder, Nat.le_refl _⟩ ?_ ?_ ?_
    · exact fun k hk => ⟨c, hk.1, rfl⟩
    · rintro k - ⟨hk, s', hs', hholder', hle⟩
      have stays : w.Ends acts i me c.request k ∨ (w.follow acts (k + 1)).callAt me = some (i, c) := by
        by_cases ha : ∃ env, acts k = .advance env me
        · obtain ⟨env', ha⟩ := ha
          exact (h.own_queued hf hk hp hs' ha).imp_right And.left
        · exact .inr (h.aside hk fun env he => ha ⟨env, he⟩)
      rcases stays with hends | hnext
      · exact .inr hends
      · obtain ⟨s₂, hs₂, hlt | ⟨hsame, hle'⟩⟩ := h.queue_moves hk hp hs' hnext
        · exact .inr ((ih _ (by omega) (k + 1) s₂ hnext hs₂ rfl).later hk rfl)
        · exact .inl ⟨hnext, s₂, hs₂, hsame.trans hholder', by omega⟩
    · rintro ⟨hk, s', hs', hholder', hle⟩
      by_cases hne : job = me
      · subst hne
        exact (h.own_queued hf hk hp hs' hact).resolve_right fun ⟨_, hnot⟩ => hnot hholder'
      · have hnext := h.aside hk fun env' he => hne (by rw [hact] at he; injection he)
        obtain ⟨s₂, hs₂, hlt⟩ := h.holder_moves hk hp hs' hholder' hne hact hopen
        exact (ih _ (by omega) (m + 1) s₂ hnext hs₂ rfl).later hk rfl

/-- Who asks for the lock ends. -/
theorem Standing.ends_of_entering (h : w.Standing setup i) (hf : w.Fair i acts)
    (hc : (w.follow acts n).callAt me = some (i, c)) (hp : c.phase = .entering) : w.Ends acts i me c.request n := by
  refine h.ends_of_own hf hc fun k env hk ha => .inl ?_
  obtain ⟨s, a, -, -, hpaths, hends, hgo⟩ := h.own hk ha
  rcases hpaths.entering hp with hdone | ⟨c', hgoing, hrequest, hholds | hqueued⟩
  · exact hends hdone
  · exact (hrequest ▸ h.ends_of_holds hf (hgo c' hgoing) hholds).later hk rfl
  · obtain ⟨-, s', hs', -⟩ := h.follow acts (k + 1)
    exact (hrequest ▸ h.ends_of_queued hf hqueued (k + 1) s' (hgo c' hgoing) hs').later hk rfl

/-- Once unload is requested, who heeds the token ends. -/
theorem Unloading.ends_of_heeds (h : w.Unloading setup i cause) (hf : w.Fair i acts)
    (hc : (w.follow acts n).callAt me = some (i, c)) (hr : c.request.heeds = true) : w.Ends acts i me c.request n := by
  refine h.standing.ends_of_own hf hc fun k env hk ha => ?_
  obtain ⟨s, a, hs, -, hpaths, hends, hgo⟩ := h.standing.own hk ha
  obtain ⟨-, s', hs', -, hu⟩ := h.follow acts k
  cases hs.unique hs'
  exact (hpaths.direct hu hr).imp hends fun ⟨hgoing, hstuck⟩ => ⟨hgo c hgoing, hstuck⟩

/-- Once unload is requested, every call on the workspace ends along fair acts, and teardowns end well. -/
theorem Unloading.ends (h : w.Unloading setup i cause) (hf : w.Fair i acts)
    (hc : (w.follow acts n).callAt me = some (i, c)) : w.Ends acts i me c.request n := by
  obtain ⟨-, s, hs, hl, -⟩ := h.follow acts n
  have hfit : c.Fit := hl.fit ((hs.calls me c).2 hc)
  cases hr : c.request.heeds with
  | true => exact h.ends_of_heeds hf hc hr
  | false =>
    cases hp : c.phase with
    | awaitingEvaluation =>
      -- only who heeds the token awaits anything
      rw [Call.Fit, hp] at hfit
      cases hrequest : c.request <;> simp_all [Request.awaits, Request.heeds]
    | awaitingBuild =>
      rw [Call.Fit, hp] at hfit
      rw [hfit] at hr
      cases hr
    | entering => exact h.standing.ends_of_entering hf hc hp
    | queued => exact h.standing.ends_of_queued hf hp n s hc hs
    | closing | releasing => exact h.standing.ends_of_holds hf hc (by rw [hp]; rfl)

end World

end SliceSync
