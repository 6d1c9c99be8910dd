import SliceSync.Proofs.Commits
import SliceSync.Proofs.Driving
import SliceSync.Proofs.Ebbing
/-!
# Drivers come to an end

A driver whose streams nobody can send to any more has only so much before it (`World.ahead`): what its streams have
queued, what the holdback holds or has let pass, and the streams whose end it has not seen. Each update in hand comes
to its end, and each step without one leaves less.

That a driver ends as unloaded is on account of its workspace, whose unload has been requested, as long as nobody
answers with an error of teardown where nothing is torn down (`World.Candid`). Else a driver ends as by an ordinary
unload (`World.Driven.feigned`).

Main statement: `World.driven`.
-/

namespace SliceSync

/-! ## What a driver has before it -/

theorem Driver.push_length (d : Driver) (u : Update) :
    (d.push u).holdback.held.length + (d.push u).passed.length = d.holdback.held.length + d.passed.length + 1 := by
  unfold push Holdback.push
  dsimp only
  split
  · simp [Nat.add_assoc]
  · split
    · simp
      omega
    · split <;> simp <;> omega

namespace World

/-- How much a driver has before it, with its streams as they are. What is still in a stream counts twice: it is to be
received and to be handed over. -/
def ahead (w : World) (d : Driver) : Nat :=
  2 * w.source.queued d.pair + (d.holdback.held.length + d.passed.length) + d.evaluationOpen.toNat + d.buildOpen.toNat

end World

namespace Driver.Paths

variable {d d' : Driver} {w : World} {env : Environment} {me : JobId} {event : Option DriverEvent}
  {r : World × Onward Driver DriverExit} {pair : Nat}

/-- The end of a stream leaves one less to wait for. -/
theorem ahead_closeStream {kind : UpdateKind} (hk : w.readyKind d = some kind) :
    w.ahead (d.closeStream kind) < w.ahead d := by
  have hopen := (World.readyKind_eq_some hk).1
  cases kind <;> simp_all [World.ahead, closeStream, isOpen]

/-- What is received is in the streams no more. -/
theorem ahead_receive {kind : UpdateKind} {u : Update} {source : Source} (hr : w.source.Takes d.pair kind u source) :
    World.ahead { w with source } (d.push u) < w.ahead d := by
  have htaken := hr.queued
  have hpushed := d.push_length u
  have hpair : (d.push u).pair = d.pair := rfl
  have hopen : (d.push u).evaluationOpen = d.evaluationOpen ∧ (d.push u).buildOpen = d.buildOpen := ⟨rfl, rfl⟩
  unfold World.ahead
  rw [hpair, hopen.1, hopen.2]
  dsimp only
  omega

/-- No step leaves more. -/
theorem ahead_le (h : d.Paths w env me event r) (hg : r.2 = .going d') : r.1.ahead d' ≤ w.ahead d := by
  have called {c : Call} {w' : World} {onward : Onward Call (Except SyncError Answer)}
      (hc : w.advanceCall env me d.workspace c = (w', onward)) : w'.source = w.source := by
    rw [← w.advanceCall_source env me d.workspace c, hc]
  cases h with
  | works _ hc | succeeds _ hc =>
    cases hg
    simp only [World.ahead, called hc, Nat.le_refl]
  | hands _ hp =>
    cases hg
    simp only [World.ahead, hp, List.length_cons]
    omega
  | waits =>
    cases hg
    exact Nat.le_refl _
  | receives _ _ _ _ hr =>
    cases hg
    exact Nat.le_of_lt (ahead_receive hr)
  | closes _ _ _ hk =>
    cases hg
    exact Nat.le_of_lt (ahead_closeStream hk)
  | fails | completes | unloads => cases hg

/-- With no update in hand, and nobody to wait for, it leaves less. -/
theorem ahead_lt (h : d.Paths w env me event r) (hh : d.handing = none) (hc : w.Closed d.pair) (hg : r.2 = .going d') :
    r.1.ahead d' < w.ahead d := by
  cases h with
  | works hh' | succeeds hh' => exact absurd (hh.symm.trans hh') nofun
  | hands _ hp =>
    cases hg
    simp only [World.ahead, hp, List.length_cons]
    omega
  | waits _ _ ho _ hk =>
    -- a stream that is followed has something to tell
    obtain ⟨p, hp, hsenders⟩ := hc.streams
    have ready (kind : UpdateKind) : w.source.isReady d.pair kind = true := by
      simp [Source.isReady, hp, StreamPair.isReady, hsenders kind]
    cases he : d.evaluationOpen <;> simp_all [World.readyKind]
  | receives _ _ _ _ hr =>
    cases hg
    exact ahead_receive hr
  | closes _ _ _ hk =>
    cases hg
    exact ahead_closeStream hk
  | fails | completes | unloads => cases hg

end Driver.Paths

namespace World

variable {setup : Setup} {acts : List Act} {w : World} {me : JobId} {d : Driver} {i pair r n m : Nat} {a : Act}
  {env : Environment} {later : Nat → Act}

/-- A driver has ended. -/
def Exited (w : World) (me : JobId) : Prop := ∃ exit, w.outcome? me = some (.drove exit)

/-- A driver is at work, and has no more than so much before it. -/
def Nears (w : World) (me : JobId) (i pair r : Nat) : Prop :=
  ∃ d, w.job? me = some (.drive d) ∧ d.workspace = i ∧ d.pair = pair ∧ w.ahead d ≤ r

/-! ## Steps -/

/-- What a step of a driver leaves, beside the driver. -/
theorem advance_driver_source (hd : w.job? me = some (.drive d)) :
    (w.advance env me).source = (w.advanceDriver env me d).1.source := by
  obtain ⟨jobs, outcomes, hadvance⟩ := advance_eq env hd
  rw [hadvance, advanceJob_drive]

theorem ahead_congr {w' : World} (h : w'.source = w.source) (d : Driver) : w'.ahead d = w.ahead d := by
  rw [ahead, ahead, h]

/-- A step of a driver that goes on. -/
theorem own_driver (hk : w.Keeps (freely setup)) (hn : w.Numbered) (hd : w.job? me = some (.drive d)) (env : Environment) :
    (∃ d', (w.advance env me).job? me = some (.drive d') ∧ d'.workspace = d.workspace ∧ d'.pair = d.pair ∧
        (w.advance env me).ahead d' ≤ w.ahead d ∧
        (d.handing = none → w.Closed d.pair → (w.advance env me).ahead d' < w.ahead d) ∧
        ((w.endings (.advance env me)) ≠ [] → d'.handing = none)) ∨ (w.advance env me).Exited me := by
  obtain ⟨event, -, hp⟩ := w.advanceDriver_paths env me d
  have hsource : (w.advance env me).source = (w.advanceDriver env me d).1.source := advance_driver_source hd
  have hjob := job?_advance_driver hk (show (freely setup).fits env from trivial) hd
  cases hg : (w.advanceDriver env me d).2 with
  | done exit => exact .inr ⟨exit, outcome?_driver hn hd hg⟩
  | going d' =>
    left
    obtain ⟨hworkspace, hpair⟩ := hp.same hg
    rw [hg] at hjob
    refine ⟨d', hjob, hworkspace, hpair, ?_, fun hh hc => ?_, fun hends => ?_⟩
    · rw [ahead_congr hsource]
      exact hp.ahead_le hg
    · rw [ahead_congr hsource]
      exact hp.ahead_lt hh hc hg
    · have hcall := callAt_driver hd
      cases hh : d.handing with
      | none => exact absurd (endings_of_none (by rw [hcall, hh]; rfl)) hends
      | some c =>
        have hdone : ∀ c', (w.advanceCall env me d.workspace c).2 ≠ .going c' := by
          intro c' hgoing
          refine hends ?_
          simp [endings, hcall, hh, hgoing]
        generalize w.advanceDriver env me d = r at hp hg
        cases hp with
        | works hh' hgo =>
          cases hh.symm.trans hh'
          exact absurd (by rw [hgo]) (hdone _)
        | succeeds =>
          cases hg
          rfl
        | fails => cases hg
        | hands hh' | completes hh' | unloads hh' | waits hh' | receives hh' | closes hh' =>
          cases hh.symm.trans hh'

/-- No act leaves more before a driver whose streams nobody can send to. -/
theorem Nears.perform (h : w.Nears me i pair r) (hk : w.Keeps (freely setup)) (hn : w.Numbered) (hc : w.Closed pair)
    (hl : w.Leaves pair a) : (w.perform a).Nears me i pair r ∨ (w.perform a).Exited me := by
  obtain ⟨d, hd, hi, hp, hr⟩ := h
  have ha : a.Within (freely setup) := within_freely setup a
  rcases driver_perform hk ha hd with ⟨-, hsame⟩ | ⟨env, rfl, -⟩
  · left
    refine ⟨d, hsame, hi, hp, Nat.le_trans ?_ hr⟩
    obtain ⟨p, hpair, -⟩ := hc.streams
    have hqueued := (hc.ebbs hl).queued hpair
    unfold ahead
    rw [hp]
    omega
  · refine (own_driver hk hn hd env).imp_left ?_
    rintro ⟨d', hd', hi', hp', hle, -⟩
    exact ⟨d', hd', hi'.trans hi, hp'.trans hp, Nat.le_trans hle hr⟩

/-! ## Acts without end -/

/-- A driver is taken ahead again and again. -/
def Diligent (w : World) (me : JobId) (acts : Nat → Act) : Prop :=
  ∀ n d, (w.follow acts n).job? me = some (.drive d) → ∃ m env, n ≤ m ∧ acts m = .advance env me

/-- What holds as long as it leads to nothing else leads to it in the end. -/
theorem of_steps {P : Nat → Prop} {Q : Prop} (hnm : n ≤ m) (hn : P n) (step : ∀ k, n ≤ k → k < m → P k → P (k + 1) ∨ Q)
    (last : P m → Q) : Q := by
  induction hd : m - n generalizing n with
  | zero =>
    obtain rfl : n = m := by omega
    exact last hn
  | succ rest ih =>
    rcases step n (Nat.le_refl n) (by omega) hn with hnext | hq
    · exact ih (by omega) hnext (fun k hk => step k (by omega)) (by omega)
    · exact hq

section Follow

variable (hc : (run setup acts).Closed pair) (hl : ∀ n, ((run setup acts).follow later n).Leaves pair (later n))
include hc hl

theorem closed_follow (n : Nat) : ((run setup acts).follow later n).Closed pair := by
  induction n with
  | zero => exact hc
  | succ n ih =>
    have hk : ((run setup acts).follow later n).Keeps (freely setup) := by
      rw [follow_run]
      exact (numbered_run setup _).1
    exact ih.perform hk (within_freely setup _) (hl n)

theorem nears_next (h : ((run setup acts).follow later n).Nears me i pair r) :
    ((run setup acts).follow later (n + 1)).Nears me i pair r ∨ ((run setup acts).follow later (n + 1)).Exited me := by
  have hnumbered := numbered_run setup (acts ++ (List.range n).map later)
  rw [← follow_run] at hnumbered
  exact h.perform hnumbered.1 hnumbered.2 (closed_follow hc hl n) (hl n)

/-- Until it ends, a driver never has more before it. -/
theorem nears_later (hnm : n ≤ m) (h : ((run setup acts).follow later n).Nears me i pair r) :
    ((run setup acts).follow later m).Nears me i pair r ∨ ∃ k, ((run setup acts).follow later k).Exited me := by
  refine of_steps (P := fun k => ((run setup acts).follow later k).Nears me i pair r) hnm h (fun k _ _ hk => ?_) .inl
  exact (nears_next hc hl hk).imp_right fun hexited => .inr ⟨k + 1, hexited⟩

end Follow

/-- What holds of every run holds along the way. -/
theorem numbered_follow (setup : Setup) (acts : List Act) (later : Nat → Act) (n : Nat) :
    ((run setup acts).follow later n).Keeps (freely setup) ∧ ((run setup acts).follow later n).Numbered := by
  rw [follow_run]
  exact numbered_run setup _

/-- A driver that makes a call has an update in hand. -/
theorem handing_of_callAt (hd : (run setup acts).job? me = some (.drive d)) {c : Call}
    (hc : ((run setup acts).follow later n).callAt me = some (i, c)) :
    ∃ d', ((run setup acts).follow later n).job? me = some (.drive d') ∧ d'.workspace = i ∧ d'.handing = some c := by
  rw [follow_run] at hc ⊢
  cases drives_run hd ((List.range n).map later) with
  | exited _ hj => simp [callAt, hj] at hc
  | @works d' hd' =>
    rw [callAt_driver hd'] at hc
    obtain ⟨c', hh, heq⟩ := Option.map_eq_some_iff.1 hc
    cases heq
    exact ⟨d', hd', rfl, hh⟩

/-- The update that a driver has in hand comes to its end: a build finds the first evaluation integrated, and goes on
to ask for the lock. -/
theorem ends_of_handing (hd : (run setup acts).job? me = some (.drive d)) (hf : (run setup acts).Fair d.workspace later)
    {c : Call} (hc : ((run setup acts).follow later n).callAt me = some (d.workspace, c)) :
    (run setup acts).Ends later d.workspace me c.request n := by
  have hplace : d.workspace < (run setup acts).hosted.length := housed_run setup acts _ (job?_mem hd) d rfl
  obtain ⟨s, hs, hlined⟩ := exists_scene hplace
  have h : (run setup acts).Standing setup d.workspace := ⟨(numbered_run setup acts).1, s, hs, hlined⟩
  obtain ⟨-, s', hs', hlined'⟩ := h.follow later n
  have hfit : c.Fit := hlined'.fit ((hs'.calls me c).2 hc)
  obtain ⟨d', hd', -, hh⟩ := handing_of_callAt hd hc
  rw [follow_run] at hd'
  obtain ⟨-, u, -, -, hr⟩ := (driver_tells setup _ hd').busy c hh
  cases hp : c.phase with
  | entering => exact h.ends_of_entering hf hc hp
  | queued => exact h.ends_of_queued hf hp n s' hc hs'
  | closing | releasing => exact h.ends_of_holds hf hc (by rw [hp]; rfl)
  | awaitingBuild =>
    rw [Call.Fit, hp] at hfit
    cases hr.symm.trans hfit
  | awaitingEvaluation =>
    rw [Call.Fit, hp] at hfit
    have hkind : u.kind = .build := by
      dsimp only at hfit
      rw [hr] at hfit
      cases hu : u.payload <;> simp_all [Request.awaits, Update.kind]
    refine h.ends_of_own hf hc fun k env hk ha => .inl ?_
    obtain ⟨s', a, hs', -, hpaths, hends, hgo⟩ := h.own hk ha
    obtain ⟨d', hd', hw', hh'⟩ := handing_of_callAt hd hk
    have hworkspace := hs'.workspace
    rw [follow_run] at hd' hworkspace
    have hintegrated : s'.workspace.evaluation = .integrated := by
      refine integrated_of_handing hd' hh' hr hkind ?_
      rw [hw', ← view_workspaces]
      exact hworkspace
    rcases hpaths.awaiting hp hintegrated with hdone | ⟨c', hgoing, hrequest, hentering⟩
    · exact hends hdone
    · exact (hrequest ▸ h.ends_of_entering hf (hgo c' hgoing) hentering).later hk rfl

section Reaches

variable (hd : (run setup acts).job? me = some (.drive d)) (hc : (run setup acts).Closed d.pair)
  (hl : ∀ n, ((run setup acts).follow later n).Leaves d.pair (later n)) (hf : (run setup acts).Fair d.workspace later)
include hd hc hl hf

/-- A driver that is at work ends, or has nothing in hand at some time. -/
theorem idle_later (h : ((run setup acts).follow later n).Nears me d.workspace d.pair r) :
    (∃ m d', ((run setup acts).follow later m).job? me = some (.drive d') ∧ d'.workspace = d.workspace ∧
        d'.pair = d.pair ∧ ((run setup acts).follow later m).ahead d' ≤ r ∧ d'.handing = none) ∨
      ∃ m, ((run setup acts).follow later m).Exited me := by
  obtain ⟨d', hd', hi, hp, hr⟩ := h
  cases hh : d'.handing with
  | none => exact .inl ⟨n, d', hd', hi, hp, hr, hh⟩
  | some c =>
    have hcall : ((run setup acts).follow later n).callAt me = some (d.workspace, c) := by
      simp [callAt_driver hd', hh, hi]
    obtain ⟨m, env, result, hnm, hact, hends, -⟩ := ends_of_handing hd hf hcall
    rcases nears_later hc hl hnm ⟨d', hd', hi, hp, hr⟩ with ⟨d'', hd'', hi', hp', hr'⟩ | hexited
    · obtain ⟨hk, hn⟩ := numbered_follow setup acts later m
      have hnext : (run setup acts).follow later (m + 1) = ((run setup acts).follow later m).advance env me := by
        rw [follow, hact, perform]
      rcases own_driver hk hn hd'' env with ⟨d₂, hd₂, hi₂, hp₂, hle, -, hidle⟩ | hexited
      · refine .inl ⟨m + 1, d₂, ?_, hi₂.trans hi', hp₂.trans hp', ?_, hidle ?_⟩
        · rw [hnext]
          exact hd₂
        · rw [hnext]
          exact Nat.le_trans hle hr'
        · rw [← hact, hends]
          exact List.cons_ne_nil _ _
      · exact .inr ⟨m + 1, hnext ▸ hexited⟩
    · exact .inr hexited

/-- A driver whose streams nobody can send to comes to its end. -/
theorem exits_of_nears (hdiligent : (run setup acts).Diligent me later)
    (h : ((run setup acts).follow later n).Nears me d.workspace d.pair r) :
    ∃ m, ((run setup acts).follow later m).Exited me := by
  induction r using Nat.strongRecOn generalizing n with
  | ind r ih =>
    rcases idle_later hd hc hl hf h with ⟨m, d', hd', hi, hp, hr, hh⟩ | hexited
    · -- nothing changes for the driver until its next step, which leaves less
      obtain ⟨last, env, hlast, hact⟩ := hdiligent m d' hd'
      have own {k : Nat} {env : Environment} (hjob : ((run setup acts).follow later k).job? me = some (.drive d'))
          (hle : ((run setup acts).follow later k).ahead d' ≤ r) (ha : later k = .advance env me) :
          ∃ m, ((run setup acts).follow later m).Exited me := by
        obtain ⟨hk, hn⟩ := numbered_follow setup acts later k
        have hnext : (run setup acts).follow later (k + 1) = ((run setup acts).follow later k).advance env me := by
          rw [follow, ha, perform]
        rcases own_driver hk hn hjob env with ⟨d'', hd'', hi', hp', -, hlt, -⟩ | hexited
        · have hless := hlt hh (hp ▸ closed_follow hc hl k)
          refine ih _ (Nat.lt_of_lt_of_le hless hle) (n := k + 1) ?_
          rw [hnext]
          exact ⟨d'', hd'', hi'.trans hi, hp'.trans hp, Nat.le_refl _⟩
        · exact ⟨k + 1, hnext ▸ hexited⟩
      refine of_steps (P := fun k => ((run setup acts).follow later k).job? me = some (.drive d') ∧
        ((run setup acts).follow later k).ahead d' ≤ r) hlast ⟨hd', hr⟩ (fun k _ _ hk => ?_)
        fun hk => own hk.1 hk.2 hact
      by_cases ha : ∃ env, later k = .advance env me
      · obtain ⟨env', ha⟩ := ha
        exact .inr (own hk.1 hk.2 ha)
      · left
        obtain ⟨hkeeps, hnumbered⟩ := numbered_follow setup acts later k
        have hsame : ((run setup acts).follow later (k + 1)).job? me = some (.drive d') := by
          rcases driver_perform hkeeps (within_freely setup (later k)) hk.1 with ⟨-, hsame⟩ | ⟨env', ha', -⟩
          · exact hsame
          · exact absurd ⟨env', ha'⟩ ha
        rcases nears_next hc hl ⟨d', hk.1, hi, hp, hk.2⟩ with ⟨d'', hd'', -, -, hle⟩ | ⟨exit, ho⟩
        · cases hsame.symm.trans hd''
          exact ⟨hsame, hle⟩
        · have happart := (numbered_follow setup acts later (k + 1)).2.apart hsame
          cases happart.symm.trans ho
    · exact hexited

end Reaches

/-! ## Errors of teardown -/

/-- The collaborators of the workspace in a place answer with an error of teardown only where its unload has been
requested. This is what these errors mean: `SyncError.cancelled` is of an ordinary unload,
`SyncError.activeConfigurationChanged` of a workspace that was disposed of because the configuration changed. -/
def Candid (setup : Setup) (acts : List Act) (i : Nat) : Prop :=
  ∀ before env job after c error, acts = before ++ .advance env job :: after →
    (run setup before).callAt job = some (i, c) → error.isCancellation = true → env.Answers error →
      ((run setup before).unloadOf i).isSome

/-- Where unload is not requested it was not requested before. -/
theorem unloadOf_eq_none {more : List Act} (h : (run setup (acts ++ more)).unloadOf i = none) :
    (run setup acts).unloadOf i = none := by
  cases hbefore : (run setup acts).unloadOf i with
  | none => rfl
  | some cause => cases h.symm.trans (unloadOf_stays hbefore more)

/-- The error that a batch under way carries is that of a handler which the batch was opened with. -/
theorem Underway.answers {request : Request} {batch : OpenBatch} {o : Origin} {error : SyncError}
    (h : Underway setup acts i me request batch o) (hf : batch.failure = some error) : o.env.Answers error := by
  rcases Request.opening h.held with ⟨u, handle, -, hopens⟩ | ⟨_, _, -, -, -, -, hnone, -⟩
  · have hstops := o.found.roundOf_stops u.payload ⟨o.env, (run setup o.earlier).session, u.versions⟩ handle.handlers
    rw [← hopens.failure, hf] at hstops
    generalize Effect.calls _ = calls at hstops
    cases hstops with
    | badly _ herror => exact .inr (.inr ⟨_, herror⟩)
  · cases hf.symm.trans hnone

/-- An update fails with an error of teardown that nobody has requested only if a collaborator has answered so. -/
theorem Unasked.not_candid (h : Unasked setup acts me i) : ¬Candid setup acts i := by
  intro hcandid
  obtain ⟨before, env, after, u, error, rfl, hended, hcancellation, hnone⟩ := h
  obtain ⟨s, c, hs, hc, hr, hdone, hs'⟩ := scene_of_ending hended (by rintro ⟨⟩; cases hcancellation)
  have hcall : (run setup before).callAt me = some (i, c) := (hs.calls me c).1 hc
  have haudited := audited_run hs
  have haccount : c.Account setup env s.workspace (c.advance setup env me (run setup before).session s.workspace) :=
    haudited.account hc (Call.paths setup env me (run setup before).session s.workspace (haudited.fit hc))
  have answered {error : SyncError} (he : error.isCancellation = true) (ha : env.Answers error) : False := by
    have hsome := hcandid before env me after c error rfl hcall he ha
    rw [unloadOf_eq_none hnone] at hsome
    cases hsome
  cases haccount with
  | silent hn =>
    rcases hn with ⟨c', hgo⟩ | hn
    · cases hdone.symm.trans hgo
    · exact hn u hr
  | processed _ hp => cases hdone.symm.trans hp
  | cut _ _ hu =>
    rw [unloadOf, workspace_of_scene hs'] at hnone
    cases hnone.symm.trans hu
  | rejected _ hp =>
    cases hdone.symm.trans hp
    cases hcancellation
  | uncreated _ hp hcreation =>
    cases hdone.symm.trans hp
    rcases hcreation with hcreation | hrefused
    · cases hcancellation.symm.trans (SyncError.isFault_of_isCreation hcreation).2.2
    · exact answered hcancellation (.inl hrefused)
  | failed _ hphase hp hf =>
    cases hdone.symm.trans hp
    rcases hf with hfailure | hrejected
    · -- the handler was called when the batch was opened
      obtain ⟨o, ho⟩ := underway hcall hphase
      obtain ⟨c₀, hc₀, -, -⟩ := ho.before
      have hsplit : before ++ .advance env me :: after =
          o.earlier ++ .advance o.env me :: (o.during ++ .advance env me :: after) := by
        rw [ho.split, Origin.acts, List.append_assoc, List.cons_append]
      have hsome := hcandid _ _ _ _ _ error hsplit hc₀ hcancellation (ho.answers hfailure)
      rw [ho.split, Origin.acts, List.append_assoc] at hnone
      rw [unloadOf_eq_none hnone] at hsome
      cases hsome
    · exact answered hcancellation (.inr (.inl hrejected))

/-! ## All that holds of a driver -/

/-- Who has ended does nothing more. -/
theorem diaryFrom_gone (hj : (run setup acts).job? me = none) (hn : me < (run setup acts).nextJob) (more : List Act) :
    (run setup acts).diaryFrom me more = [] ∧ (run setup (acts ++ more)).job? me = none ∧
      me < (run setup (acts ++ more)).nextJob := by
  induction more using List.reverseRecOn with
  | nil => exact ⟨rfl, by rwa [List.append_nil], by rwa [List.append_nil]⟩
  | append_singleton more a ih =>
    obtain ⟨hdiary, hj, hn⟩ := ih
    have hk := (numbered_run setup (acts ++ more)).1
    rw [← List.append_assoc, run_concat]
    refine ⟨?_, job?_gone hk (within_freely setup a) hj hn, Nat.lt_of_lt_of_le hn (nextJob_perform hk (within_freely setup a))⟩
    have hrun : runFrom (run setup acts) more = run setup (acts ++ more) := (runFrom_append ..).symm
    rw [diaryFrom_append, hdiary, hrun, diaryFrom, diaryFrom, told_of_no_driver, List.append_nil, List.append_nil]
    exact fun d hd => by cases hj.symm.trans hd

/-- What holds of a driver, from the time on at which it was seen at work. -/
structure Driven (setup : Setup) (acts more : List Act) (me : JobId) (i pair : Nat) : Prop where
  /-- It is at work on its workspace and its streams, or it has ended. -/
  stands : (∃ d, (run setup (acts ++ more)).job? me = some (.drive d) ∧ d.workspace = i ∧ d.pair = pair) ∨
    (run setup (acts ++ more)).Exited me
  /-- What it hands over first is the first evaluation that it has received. -/
  first : ∀ u rest, (diary setup (acts ++ more) me).handed = u :: rest → u.kind = .evaluation ∧
    ∃ others, (diary setup (acts ++ more) me).received.filter (·.kind = .evaluation) = u :: others
  /-- It hands over nothing twice. -/
  once : (diary setup (acts ++ more) me).handed.Subperm (diary setup (acts ++ more) me).received
  /-- It keeps the order of each stream, and leaves nothing out before what it hands over. -/
  order : ∀ kind, (diary setup (acts ++ more) me).handed.filter (·.kind = kind) <+:
    (diary setup (acts ++ more) me).received.filter (·.kind = kind)
  /-- It hands over one update at a time, and none after the first that failed. -/
  turns : (diary setup (acts ++ more) me).InTurn
  /-- How an update ended is how the call on the workspace ended. -/
  answered : ∀ (before after : Diary) u result,
    diary setup (acts ++ more) me = before ++ .handed u :: .returned result :: after →
      ⟨i, .update u, result⟩ ∈ history setup (acts ++ more)
  /-- A build in hand waits for no evaluation. -/
  prompt : ∀ c u w, (run setup (acts ++ more)).callAt me = some (i, c) → c.request = .update u → u.kind = .build →
    (run setup (acts ++ more)).workspace? i = some w → w.evaluation = .integrated
  /-- The cause with which unload is requested first stays. -/
  stays : ∀ before after cause, more = before ++ after → (run setup (acts ++ before)).unloadOf i = some cause →
    (run setup (acts ++ more)).unloadOf i = some cause
  /-- Once unload is requested it hands over one more update at most, which is refused. -/
  cut : ∀ before after cause, more = before ++ after → (run setup (acts ++ before)).unloadOf i = some cause →
    ((run setup (acts ++ before)).diaryFrom me after).handed = [] ∨
      ∃ (silent : Diary) (u : Update), silent.handed = [] ∧
        ((run setup (acts ++ before)).diaryFrom me after = silent ++ [.handed u] ∨
          (run setup (acts ++ before)).diaryFrom me after = silent ++ [.handed u, .returned (.error cause.error)])
  /-- The refusal leaves no trace. -/
  refused : ∀ u cause env, (run setup (acts ++ more)).callAt me = some (i, .start (.update u)) →
    (run setup (acts ++ more)).unloadOf i = some cause →
      (∃ w, (run setup (acts ++ more)).advanceCall env me i (.start (.update u)) = (w, .done (.error cause.error))) ∧
        (run setup (acts ++ more)).Untouched ((run setup (acts ++ more)).advance env me)
  /-- It is through when both streams have ended and every update that it received, if an evaluation is among them, was
  handed over and ended well. -/
  completed : (run setup (acts ++ more)).outcome? me = some (.drove .completed) →
    (diary setup (acts ++ more) me).Settled ∧
      ((∃ u ∈ (diary setup (acts ++ more) me).received, u.kind = .evaluation) →
        (diary setup (acts ++ more) me).handed.Perm (diary setup (acts ++ more) me).received) ∧
      ((∀ u ∈ (diary setup (acts ++ more) me).received, u.kind ≠ .evaluation) →
        (diary setup (acts ++ more) me).handed = []) ∧
      ∀ kind, ∃ before after, acts ++ more = before ++ after ∧ (run setup before).source.HasEnded pair kind
  /-- It fails with the error of the update that it handed over last. -/
  faulted : ∀ error, (run setup (acts ++ more)).outcome? me = some (.drove (.faulted error)) →
    error.isCancellation = false ∧
      ∃ (before : Diary) (u : Update), diary setup (acts ++ more) me = before ++ [.handed u, .returned (.error error)]
  /-- It is unloaded with the cause of its workspace, as long as the errors of teardown mean what they say. -/
  unloaded : Candid setup (acts ++ more) i →
    ∀ cause, (run setup (acts ++ more)).outcome? me = some (.drove (.unloaded cause)) →
      (run setup (acts ++ more)).unloadOf i = some cause
  /-- Else it may also be unloaded as by an ordinary unload, on an update that has failed with such an error while no
  unload was requested. -/
  feigned : ∀ cause, (run setup (acts ++ more)).outcome? me = some (.drove (.unloaded cause)) →
    (run setup (acts ++ more)).unloadOf i = some cause ∨ cause = .unload ∧ Unasked setup (acts ++ more) me i
  /-- When nobody can send to its streams any more it ends, if it and the calls on its workspace are taken ahead again
  and again. -/
  exits : (run setup (acts ++ more)).Closed pair → ∀ later : Nat → Act,
    (∀ n, ((run setup (acts ++ more)).follow later n).Leaves pair (later n)) →
    (run setup (acts ++ more)).Fair i later → (run setup (acts ++ more)).Diligent me later →
      ∃ n, ((run setup (acts ++ more)).follow later n).Exited me

/-- Drivers hand over what they receive in order, one at a time, and end as they should. -/
theorem driven (setup : Setup) (acts more : List Act) (me : JobId) (d : Driver)
    (hd : (run setup acts).job? me = some (.drive d)) : Driven setup acts more me d.workspace d.pair := by
  have hdrives := drives_run hd more
  have hsound := hdrives.sound
  have hnumbered := (numbered_run setup (acts ++ more)).2
  -- a driver with an exit has ended with it
  have suits {exit : DriverExit} (ho : (run setup (acts ++ more)).outcome? me = some (.drove exit)) :
      (exit.Suits ((run setup (acts ++ more)).unloadOf d.workspace) (diary setup (acts ++ more) me) ∨
          exit = .unloaded .unload ∧ Unasked setup (acts ++ more) me d.workspace) ∧
        (exit = .completed → ∀ kind, ∃ first rest, acts ++ more = first ++ rest ∧
          (run setup first).source.HasEnded d.pair kind) := by
    cases hdrives with
    | works hd' => cases (hnumbered.apart hd').symm.trans ho
    | exited exit' _ _ ho' _ he hc =>
      cases ho'.symm.trans ho
      exact ⟨he, hc⟩
  have feigned (cause : DisposeCause)
      (ho : (run setup (acts ++ more)).outcome? me = some (.drove (.unloaded cause))) :
      (run setup (acts ++ more)).unloadOf d.workspace = some cause ∨
        cause = .unload ∧ Unasked setup (acts ++ more) me d.workspace :=
    (suits ho).1.imp_right fun hunasked => ⟨DriverExit.unloaded.inj hunasked.1, hunasked.2⟩
  constructor
  case stands =>
    cases hdrives with
    | works hd' hi hp => exact .inl ⟨_, hd', hi, hp⟩
    | exited exit _ _ ho => exact .inr ⟨exit, ho⟩
  case first => exact fun u rest hl => hsound.first hl
  case once => exact hsound.once
  case order => exact hsound.order
  case turns => exact hsound.turns
  case answered => exact fun before after u result hl => answered_run hd more hl
  case prompt =>
    intro c u w hcall hr hu hw
    cases hdrives with
    | exited _ hj => simp [callAt, hj] at hcall
    | works hd' hi _ =>
      rw [callAt_driver hd', hi] at hcall
      obtain ⟨c', hh, heq⟩ := Option.map_eq_some_iff.1 hcall
      cases heq
      exact integrated_of_handing hd' hh hr hu (hi ▸ hw)
  case stays =>
    rintro before after cause rfl hu
    rw [← List.append_assoc]
    exact unloadOf_stays hu after
  case cut =>
    rintro before after cause rfl hu
    cases drives_run hd before with
    | exited _ hj hn =>
      left
      rw [(diaryFrom_gone hj hn after).1]
      rfl
    | works hd' hi _ =>
      cases cut_run hd' (hi ▸ hu) after with
      | idle hl => exact .inl hl
      | hands _ _ _ hl hb => exact .inr ⟨_, _, hb, .inl hl⟩
      | past _ _ hl hb => exact .inr ⟨_, _, hb, .inr hl⟩
  case refused => exact fun u cause env hc hu => cut_of_start hc hu env
  case completed =>
    intro ho
    obtain ⟨hsuits, hended⟩ := suits ho
    obtain ⟨hsettled, -, threshold, hpassed⟩ | ⟨⟨⟩, -⟩ := hsuits
    refine ⟨hsettled, fun he => ?_, fun hnone => ?_, hended rfl⟩
    · rw [hpassed]
      exact perm_of_kinds (Holdback.filter_passed he)
    · cases hl : (diary setup (acts ++ more) me).handed with
      | nil => rfl
      | cons u rest =>
        obtain ⟨v, hv, hkind⟩ := hsound.exists_evaluation hl
        exact absurd hkind (hnone v hv)
  case faulted =>
    intro error ho
    obtain hsuits | ⟨⟨⟩, -⟩ := (suits ho).1
    exact hsuits
  case unloaded => exact fun hcandid cause ho => (feigned cause ho).resolve_right fun h => h.2.not_candid hcandid
  case feigned => exact feigned
  case exits =>
    intro hc later hl hf hdiligent
    cases hdrives with
    | works hd' hi hp =>
      rw [← hp] at hc hl
      rw [← hi] at hf
      exact exits_of_nears hd' hc hl hf hdiligent (n := 0) ⟨_, hd', rfl, rfl, Nat.le_refl _⟩
    | exited exit _ _ ho => exact ⟨0, exit, ho⟩

/-- A workspace with its driver, and a sender to it whose feed is closed. -/
def followed : List Act :=
  let made : List Act := [.create {} .empty]
  let fed : List Act := made ++ [.setSource ((run {} made).source.sender .empty).1]
  fed ++ [.setSource ((run {} fed).source.close .empty)]

/-- A build is received before the evaluation, which is handed over first. When both have come the streams end. -/
def earlyBuild : List Act :=
  [.send 0 [Sample.build ["/r:a.dll"], Sample.evaluation ["a.cs"]], .advance {} 1, .advance {} 0] ++
    List.replicate 2 (.advance {} 1) ++ List.replicate 13 (.advance {} 0)

set_option maxRecDepth 100000 in
/-- The driver gives both updates to the workspace and is through. -/
theorem driven_earlyBuild :
    ∃ d, (run {} followed).job? 0 = some (.drive d) ∧
      (diary {} (followed ++ earlyBuild) 0).received = [Sample.build ["/r:a.dll"], Sample.evaluation ["a.cs"]] ∧
      (diary {} (followed ++ earlyBuild) 0).handed = [Sample.evaluation ["a.cs"], Sample.build ["/r:a.dll"]] ∧
      ((run {} (followed ++ earlyBuild)).hosted[0]?).bind (·.exit) = some .completed ∧
      Driven {} followed earlyBuild 0 d.workspace d.pair := by
  have hd : (run {} followed).job? 0 = some (.drive { workspace := 0, pair := 0, holdback := { threshold := 256 } }) := by
    decide +kernel
  exact ⟨_, hd, by decide +kernel, by decide +kernel, by decide +kernel, driven {} followed earlyBuild 0 _ hd⟩

end World

end SliceSync
