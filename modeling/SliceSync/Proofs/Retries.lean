import SliceSync.Proofs.Stages
import SliceSync.Proofs.Trials
/-!
# Builds tried again

A build that fails leaves the baseline as it was, so its arguments are seen as the same change when it is tried
again; but the handlers of references that the failed trial reached have counted them already. So after some
failures the counts are those of a change in which every argument came and went as many times more, and the
workspace is what it would be had the build ended well at once exactly if that makes no difference.

Main statement: `World.retried_iff`.
-/

namespace SliceSync

open References (turn comings goings)

namespace Workspace

/-- The change of the argument list that a build brings. -/
def change (w : Workspace) (b : Build) : ArgumentDifference := .between w.baseline.arguments b.arguments

/-- The references of a list that the handler in a place keeps, with their counts. -/
def references (w : Workspace) (n : Nat) : Option References :=
  w.context.bind fun handle =>
    match handle.handlers.arguments[n]? with
    | some (.references _ r) => some r
    | _ => none

/-- Calls with one build, one after the other: the workspace, and what has happened. -/
def tried (setup : Setup) (b : Build) (w : Workspace) (trials : List Occasion) : Workspace × List Event :=
  runAll (fun w o => ((w.attempt setup (.build b) o).workspace, (w.attempt setup (.build b) o).events)) w trials

/-- Each of the calls fails with the error of a handler or of the batch. -/
def FailsAll (setup : Setup) (b : Build) : Workspace → List Occasion → Prop
  | _, [] => True
  | w, o :: rest =>
    (∃ error ∈ (w.attempt setup (.build b) o).progress.failure?, error.ofBatch = true) ∧
      FailsAll setup b (w.attempt setup (.build b) o).workspace rest

instance decidableFailsAll (setup : Setup) (b : Build) : (w : Workspace) → (trials : List Occasion) →
    Decidable (FailsAll setup b w trials)
  | _, [] => inferInstanceAs (Decidable True)
  | w, o :: rest =>
    have := decidableFailsAll setup b (w.attempt setup (.build b) o).workspace rest
    inferInstanceAs (Decidable (_ ∧ _))

instance (w : Workspace) : Decidable w.Free :=
  decidable_of_iff (w.lock = {} ∧ w.unload.cause = none) ⟨fun h => ⟨h.1, h.2⟩, fun h => ⟨h.lock, h.unload⟩⟩

/-- The workspace with other handlers of argument lists. -/
def armed (w : Workspace) (handle : ContextHandle) (l : List ArgumentHandler) : Workspace :=
  w.withHandlers handle { handle.handlers with arguments := l }

variable {setup : Setup} {w : Workspace} {handle : ContextHandle} {b : Build} {o : Occasion}
  {l : List ArgumentHandler} {trials : List Occasion}

theorem armed_self (h : w.context = some handle) : w.armed handle handle.handlers.arguments = w := by
  cases w
  cases h
  rfl

theorem Ready.armed (h : w.Ready handle (.build b)) (l : List ArgumentHandler) :
    (w.armed handle l).Ready { handle with handlers := { handle.handlers with arguments := l } } (.build b) :=
  ⟨⟨h.lock, h.unload⟩, h.status, rfl, h.evaluation⟩

theorem roundOf_armed  (o : Occasion) (l : List ArgumentHandler) :
    (w.armed handle l).roundOf (.build b) o { handle.handlers with arguments := l } =
      ⟨{ handle.handlers with arguments := (argumentRound o.env (w.change b) (w.activityOn o) l).state },
        (argumentRound o.env (w.change b) (w.activityOn o) l).effects,
        (argumentRound o.env (w.change b) (w.activityOn o) l).failure⟩ := by
  rfl

/-- A trial that fails has counted in a round. -/
theorem attempt_fails (h : w.Ready handle (.build b))  {error : SyncError}
    (hp : ((w.armed handle l).attempt setup (.build b) o).progress = .done (.error error)) :
    ((w.armed handle l).attempt setup (.build b) o).workspace =
        w.armed handle (argumentRound o.env (w.change b) (w.activityOn o) l).state ∧
      ContextCall.mutations (Event.callsOf handle.serial ((w.armed handle l).attempt setup (.build b) o).events) =
        (Payload.build b).tells (Effect.mutations (argumentRound o.env (w.change b) (w.activityOn o) l).effects) := by
  have ha : Attempts _ _ (.build b) o ((w.armed handle l).attempt setup (.build b) o) := attempts (h.armed l)
  generalize (w.armed handle l).attempt setup (.build b) o = a at ha hp ⊢
  cases ha with
  | skips => cases hp
  | hangs _ _ hgo => exact absurd (hp.symm.trans hgo) nofun
  | ends => cases hp
  | fails _ _ _ hl =>
    rw [roundOf_armed] at hl ⊢
    exact ⟨rfl, hl.mutations⟩

/-- A build that ends well is known, or its round gets everywhere and its batch is not rejected. -/
theorem attempt_ends (h : w.Ready handle (.build b))  {answer : Answer}
    (hp : ((w.armed handle l).attempt setup (.build b) o).progress = .done (.ok answer)) :
    w.KnowsBuild b (w.activityOn o) ∨ ¬w.KnowsBuild b (w.activityOn o) ∧ o.env.gateOpen = true ∧
      (argumentRound o.env (w.change b) (w.activityOn o) l).failure = none ∧ o.env.rejected = none := by
  by_cases hk : w.KnowsBuild b (w.activityOn o)
  · exact .inl hk
  · refine .inr ⟨hk, ?_⟩
    have ha : Attempts _ _ (.build b) o ((w.armed handle l).attempt setup (.build b) o) := attempts (h.armed l)
    generalize (w.armed handle l).attempt setup (.build b) o = a at ha hp
    cases ha with
    | skips hk' =>
      exact absurd ⟨hk'.arguments, hk'.outcome, hk'.activity⟩ hk
    | hangs _ _ hgo => exact absurd (hp.symm.trans hgo) nofun
    | fails => cases hp
    | ends _ hg he =>
      rw [roundOf_armed] at he
      obtain ⟨hf, hj⟩ := Option.or_eq_none_iff.1 he
      exact ⟨hg, hf, hj⟩

/-- A build that is known ends well, and the context is told nothing. -/
theorem attempt_known (setup : Setup) (h : w.Ready handle (.build b))  (hk : w.KnowsBuild b (w.activityOn o))
    (l : List ArgumentHandler) :
    ((w.armed handle l).attempt setup (.build b) o).progress = .done (.ok .done) ∧
      ((w.armed handle l).attempt setup (.build b) o).workspace = { w.armed handle l with buildIntegrated := true } ∧
      ContextCall.mutations (Event.callsOf handle.serial ((w.armed handle l).attempt setup (.build b) o).events) = [] := by
  have hk : (w.armed handle l).KnowsUpdate (.build b) o := ⟨hk.arguments, hk.outcome, hk.activity⟩
  have ha : Attempts _ _ (.build b) o ((w.armed handle l).attempt setup (.build b) o) := attempts (h.armed l)
  generalize (w.armed handle l).attempt setup (.build b) o = a at ha ⊢
  cases ha with
  | skips =>
    refine ⟨rfl, rfl, ?_⟩
    rw [callsOf_tell]
    rfl
  | hangs hk' | fails hk' | ends hk' => exact absurd hk hk'

/-- A build in whose round nothing fails, and whose batch is not rejected, ends well. -/
theorem attempt_integrated (setup : Setup) (h : w.Ready handle (.build b))
    (hk : ¬w.KnowsBuild b (w.activityOn o)) (hg : o.env.gateOpen = true) (hj : o.env.rejected = none)
    (hf : (argumentRound o.env (w.change b) (w.activityOn o) l).failure = none) :
    ((w.armed handle l).attempt setup (.build b) o).progress = .done (.ok .done) ∧
      ((w.armed handle l).attempt setup (.build b) o).workspace =
        (w.armed handle (argumentRound o.env (w.change b) (w.activityOn o) l).state).integrating (.build b) o ∧
      ContextCall.mutations (Event.callsOf handle.serial ((w.armed handle l).attempt setup (.build b) o).events) =
        (Payload.build b).tells (Effect.mutations (argumentRound o.env (w.change b) (w.activityOn o) l).effects) := by
  have hk : ¬(w.armed handle l).KnowsUpdate (.build b) o := fun hk' =>
    hk ⟨hk'.arguments, hk'.outcome, hk'.activity⟩
  have ha : Attempts _ _ (.build b) o ((w.armed handle l).attempt setup (.build b) o) := attempts (h.armed l)
  generalize (w.armed handle l).attempt setup (.build b) o = a at ha ⊢
  cases ha with
  | skips hk' => exact absurd hk' hk
  | hangs _ hg' => exact absurd (hg.symm.trans hg') nofun
  | fails _ _ he =>
    rw [roundOf_armed] at he
    simp only [hf, hj] at he
    cases he
  | ends _ _ _ hl =>
    rw [roundOf_armed] at hl ⊢
    exact ⟨rfl, rfl, hl.mutations⟩

/-- Trials that fail leave what their rounds have counted. -/
theorem tried_of_fails (h : w.Ready handle (.build b)) 
    (hf : FailsAll setup b (w.armed handle l) trials) :
    (tried setup b (w.armed handle l) trials).1 = w.armed handle (afterTrials (w.change b) w.activityOn l trials) ∧
      ContextCall.mutations (Event.callsOf handle.serial (tried setup b (w.armed handle l) trials).2) =
        toldInTrials b (w.change b) w.activityOn l trials := by
  induction trials generalizing l with
  | nil => exact ⟨rfl, rfl⟩
  | cons o rest ih =>
    obtain ⟨⟨error, hp, -⟩, hrest⟩ := hf
    obtain ⟨hw, hm⟩ := attempt_fails h (Progress.failure?_eq_some_iff.1 hp)
    rw [hw] at hrest
    obtain ⟨hlast, htold⟩ := ih hrest
    unfold tried at hlast htold ⊢
    rw [runAll_cons, hw]
    refine ⟨hlast, ?_⟩
    rw [Event.callsOf_append, ContextCall.mutations_append, hm, htold, toldInTrials]

/-! ## Tried again, and at once -/

/-- Nothing tells that a build was tried before: the handlers keep the same paths with the same counts, a context
has the same paths, whatever it had before, and all calls that come later go alike. -/
structure Alike (setup : Setup) (b : Build) (w : Workspace) (serial : Nat) (trials : List Occasion)
    (last : Occasion) : Prop where
  counts : ∀ n, (tried setup b w (trials ++ [last])).1.references n = (tried setup b w [last]).1.references n
  /-- Provided that those from outside leave the list alone. -/
  held : ∀ list, (∀ o ∈ trials ++ [last], o.env.Spares list) → ∀ (c : Content) (path : String),
    ((c.replay (ContextCall.mutations (Event.callsOf serial
        (tried setup b w (trials ++ [last])).2))).paths list).contains path =
      ((c.replay (ContextCall.mutations (Event.callsOf serial (tried setup b w [last]).2))).paths list).contains path
  later : ∀ calls, (runAll (takes setup) (tried setup b w (trials ++ [last])).1 calls).2 =
    (runAll (takes setup) (tried setup b w [last]).1 calls).2

/-- What comes of a build that ends well after trials, and what would have come of it at once. -/
structure Retried (setup : Setup) (b : Build) (w : Workspace) (handle : ContextHandle)
    (trials : List Occasion) (last : Occasion) : Prop where
  /-- It would have ended well at once. -/
  once : (w.attempt setup (.build b) last).progress = .done (.ok .done)
  /-- Every trial that got to a handler has turned its counts once more. -/
  counts : ∀ n name r, handle.handlers.arguments[n]? = some (.references name r) → ∀ path,
    let come := comings r.list (w.change b) path
    let gone := goings r.list (w.change b) path
    let times := trialsReaching (w.change b) w.activityOn handle.handlers.arguments trials n
    ((tried setup b w (trials ++ [last])).1.references n).map (·.counts.get? path) =
        some (turn (r.counts.get? path) ((times + 1) * come) ((times + 1) * gone)) ∧
      ((tried setup b w [last]).1.references n).map (·.counts.get? path) =
        some (turn (r.counts.get? path) come gone)
  alike_iff : Alike setup b w handle.serial trials last ↔
    Harmless (w.change b) w.activityOn handle.handlers.arguments trials

variable {last : Occasion}

theorem tried_concat (w : Workspace) (trials : List Occasion) (last : Occasion) :
    tried setup b w (trials ++ [last]) =
      (((tried setup b w trials).1.attempt setup (.build b) last).workspace,
        (tried setup b w trials).2 ++ ((tried setup b w trials).1.attempt setup (.build b) last).events) := by
  unfold tried
  rw [runAll_append, runAll_cons]
  simp only [runAll, List.append_nil]

theorem references_of_armed {v : Workspace} (hv : v.context = (w.armed handle l).context) {n : Nat} {name : String}
    {r : References} (hl : l[n]? = some (.references name r)) : v.references n = some r := by
  simp only [references, hv, armed, withHandlers, Option.bind_some, hl]

/-- The counts of handlers that are armed as trials have left them tell how the trials went, and if nothing is
left of the trials the workspaces are the same. -/
theorem retried_of_armed (after : Workspace → Workspace) (hafter : ∀ v, (after v).context = v.context)
    (hagain : (tried setup b w (trials ++ [last])).1 =
      after (w.armed handle (afterTrials (w.change b) w.activityOn handle.handlers.arguments (trials ++ [last]))))
    (hat : (tried setup b w [last]).1 =
      after (w.armed handle (afterTrials (w.change b) w.activityOn handle.handlers.arguments [last])))
    (honce : (w.attempt setup (.build b) last).progress = .done (.ok .done))
    (hlast : (∀ n, ArgumentsReach last.env (w.change b) (w.activityOn last) handle.handlers.arguments n) ∨
      (w.change b).Idle)
    (hheld : Harmless (w.change b) w.activityOn handle.handlers.arguments trials →
      ∀ list, (∀ o ∈ trials ++ [last], o.env.Spares list) → ∀ (c : Content) (path : String),
        ((c.replay (ContextCall.mutations (Event.callsOf handle.serial
            (tried setup b w (trials ++ [last])).2))).paths list).contains path =
          ((c.replay (ContextCall.mutations (Event.callsOf handle.serial
            (tried setup b w [last]).2))).paths list).contains path) :
    Retried setup b w handle trials last := by
  have counts (n : Nat) (name : String) (r : References)
      (hl : handle.handlers.arguments[n]? = some (.references name r)) (path : String) :
      ((tried setup b w (trials ++ [last])).1.references n).map (·.counts.get? path) =
          some (turn (r.counts.get? path)
            ((trialsReaching (w.change b) w.activityOn handle.handlers.arguments trials n + 1) *
              comings r.list (w.change b) path)
            ((trialsReaching (w.change b) w.activityOn handle.handlers.arguments trials n + 1) *
              goings r.list (w.change b) path)) ∧
        ((tried setup b w [last]).1.references n).map (·.counts.get? path) =
          some (turn (r.counts.get? path) (comings r.list (w.change b) path) (goings r.list (w.change b) path)) := by
    obtain ⟨r₁, hl₁, -, hcounts₁⟩ := afterTrials_references (d := w.change b) hl w.activityOn (trials ++ [last])
    obtain ⟨r₂, hl₂, -, hcounts₂⟩ := afterTrials_references (d := w.change b) hl w.activityOn [last]
    rw [hagain, references_of_armed (hafter _) hl₁, hat, references_of_armed (hafter _) hl₂, Option.map_some,
      Option.map_some, hcounts₁, hcounts₂]
    rcases hlast with hall | hidle
    · have hone := trialsReaching_concat hall [] n
      rw [List.nil_append] at hone
      rw [trialsReaching_concat hall, hone]
      simp [trialsReaching]
    · obtain ⟨hcome, hgone⟩ := hidle r.list path
      simp only [hcome, hgone, Nat.mul_zero, and_self]
  refine ⟨honce, counts, ?_, fun hh => ?_⟩
  · intro halike n name r hl path
    obtain ⟨hagain', hat'⟩ := counts n name r hl path
    rw [halike.counts n, hat'] at hagain'
    exact (References.turn_eq_iff ..).1 (Option.some.inj hagain').symm
  · have hsame : afterTrials (w.change b) w.activityOn handle.handlers.arguments (trials ++ [last]) =
        afterTrials (w.change b) w.activityOn handle.handlers.arguments [last] := by
      rcases hlast with hall | hidle
      · exact hh.afterTrials_concat hall
      · rw [hidle.afterTrials, hidle.afterTrials]
    have hworkspace : (tried setup b w (trials ++ [last])).1 = (tried setup b w [last]).1 := by
      rw [hagain, hat, hsame]
    exact ⟨fun n => by rw [hworkspace], hheld hh, fun calls => by rw [hworkspace]⟩

/-- What comes of a build after trials that failed, on a workspace that has its context. -/
theorem retried_of_ready (h : w.Ready handle (.build b))  (hf : FailsAll setup b w trials)
    {answer : Answer} (hp : ((tried setup b w trials).1.attempt setup (.build b) last).progress = .done (.ok answer)) :
    Retried setup b w handle trials last := by
  have hself := armed_self h.context
  obtain ⟨hw, htold⟩ := tried_of_fails h (hself.symm ▸ hf)
  rw [hself] at hw htold
  rw [hw] at hp
  have hlast := attempt_ends h hp
  have hone : tried setup b w [last] = ((w.attempt setup (.build b) last).workspace, (w.attempt setup (.build b) last).events) := by
    rw [← List.nil_append [last], tried_concat]
    rfl
  rcases hlast with hk | ⟨hk, hg, hfail, hj⟩
  · -- it is known, so nothing comes or goes
    have hidle : (w.change b).Idle := ArgumentDifference.idle_of_isEmpty hk.arguments
    obtain ⟨-, hagain, hm⟩ := attempt_known setup h hk
      (afterTrials (w.change b) w.activityOn handle.handlers.arguments trials)
    obtain ⟨honce, hat, hm'⟩ := attempt_known setup h hk handle.handlers.arguments
    rw [hself] at honce hat hm'
    refine retried_of_armed (fun v => { v with buildIntegrated := true }) (fun _ => rfl) ?_ ?_ honce
      (.inr hidle) fun _ list hs c path => ?_
    · rw [tried_concat, hw, hagain, hidle.afterTrials, hidle.afterTrials]
    · rw [hone, hat, hidle.afterTrials, hself]
    · rw [tried_concat, hone, hw, Event.callsOf_append, ContextCall.mutations_append, htold, hm, hm', List.append_nil]
      exact hidle.contains_toldInTrials _ (fun o ho => hs o (by simp [ho])) _ path c
  · have hreached (l : List ArgumentHandler) (hl : (argumentRound last.env (w.change b) (w.activityOn last) l).failure =
        none) (n : Nat) : ArgumentsReach last.env (w.change b) (w.activityOn last) l n := reaches_of_success hl n
    have hforget := afterTrials_forget (w.change b) w.activityOn handle.handlers.arguments trials
    have hfail' : (argumentRound last.env (w.change b) (w.activityOn last) handle.handlers.arguments).failure = none :=
      (argumentRound_congr hforget).1.symm.trans hfail
    obtain ⟨-, hagain, hm⟩ := attempt_integrated setup h hk hg hj hfail
    obtain ⟨honce, hat, hm'⟩ := attempt_integrated setup h hk hg hj hfail'
    rw [hself] at honce hat hm'
    refine retried_of_armed (fun v => v.integrating (.build b) last) (fun v => ?_) ?_ ?_ honce
      (.inl (hreached _ hfail')) fun hh list hs c path => ?_
    · rfl
    · rw [tried_concat, hw, hagain, afterTrials_concat]
    · rw [hone, hat]
      rfl
    · have hall := hreached _ hfail'
      have hagain := contains_toldInTrials b hs hall hh path c
      have hlast : ∀ o ∈ [] ++ [last], o.env.Spares list := fun o ho => hs o (List.mem_append_right _ ho)
      have hat := contains_toldInTrials b hlast hall (fun n name r hl path => .inl rfl) path c
      rw [toldInTrials_concat] at hagain hat
      rw [tried_concat, hone, hw, Event.callsOf_append, ContextCall.mutations_append, htold, hm, hm']
      rcases hagain with ⟨hagain, hd⟩ | ⟨hagain, hd⟩ <;> rcases hat with ⟨hat, hd'⟩ | ⟨hat, hd'⟩
      · exact hagain.trans hat.symm
      · exact absurd hd hd'
      · exact absurd hd' hd
      · exact hagain.trans hat.symm

end Workspace

namespace World

open Workspace (tried FailsAll Retried)

/-- A build that ends well after trials that failed does what it would have done at once, up to the counts of
references: each trial that reached a handler counts its arguments once more. So nothing tells of the trials
exactly if these were harmless. -/
theorem retried_iff (setup : Setup) (acts : List Act) (i : Nat) (w : Workspace)
    (hw : (run setup acts).workspace? i = some w) (hfree : w.Free) (b : Build) (trials : List Occasion)
    (hf : FailsAll setup b w trials) (last : Occasion)
    (answer : Answer) (hp : ((tried setup b w trials).1.attempt setup (.build b) last).progress = .done (.ok answer)) :
    ∃ handle, w.context = some handle ∧ Retried setup b w handle trials last := by
  obtain ⟨s, hs, rfl, h⟩ := orderly_run setup acts (i := i) (by rwa [view_workspaces])
  obtain ⟨handle, hready⟩ : ∃ handle, s.workspace.Ready handle (.build b) := by
    cases trials with
    | nil => exact Workspace.ready_of_build h.regular hfree hp nofun
    | cons o rest =>
      obtain ⟨⟨error, hfirst, herror⟩, -⟩ := hf
      refine Workspace.ready_of_build h.regular hfree (Progress.failure?_eq_some_iff.1 hfirst) fun error' heq => ?_
      cases heq
      exact herror
  exact ⟨handle, hready.context, Workspace.retried_of_ready hready hf hp⟩

set_option maxRecDepth 100000 in
/-- A batch that was rejected once: the build that is tried again counts its one argument twice. -/
theorem retried_iff_rejected :
    let opened := .addWorkspace .empty :: (Sample.opening 0 (Sample.evaluation []) ++ [Sample.closing 0])
    let build : Build := { project := { path := "/src/a.proj" }, arguments := ["/r:a.dll"] }
    let rejected : Occasion := { env := { rejection := some "sink rejected the batch" }, session := (run {} opened).session }
    ∃ w handle, (run {} opened).workspace? 0 = some w ∧ w.context = some handle ∧
      Retried {} build w handle [rejected] { rejected with env := {} } := by
  intro opened build rejected
  obtain ⟨w, hw⟩ : ∃ w, (run {} opened).workspace? 0 = some w := Option.isSome_iff_exists.1 (by decide +kernel)
  have hstate : ∀ w ∈ (run {} opened).workspace? 0, w.Free ∧ FailsAll {} build w [rejected] ∧
      ((tried {} build w [rejected]).1.attempt {} (.build build) { rejected with env := {} }).progress.answer? =
        some .done := by decide +kernel
  obtain ⟨hfree, hfails, hok⟩ := hstate w hw
  obtain ⟨handle, hcontext, hretried⟩ := retried_iff {} opened 0 w hw hfree build [rejected] hfails
    { rejected with env := {} } .done (Progress.answer?_eq_some_iff.1 hok)
  exact ⟨w, handle, hw, hcontext, hretried⟩

set_option maxRecDepth 100000 in
/-- After a rejected batch and a second, good one, a build without the argument leaves the reference in place; had
the build ended well at once it would take it out. -/
theorem not_alike_after_rejection :
    let opened := .addWorkspace .empty :: (Sample.opening 0 (Sample.evaluation []) ++ [Sample.closing 0])
    let build : Build := { project := { path := "/src/a.proj" }, arguments := ["/r:a.dll"] }
    let rejected : Occasion := { env := { rejection := some "sink rejected the batch" }, session := (run {} opened).session }
    let well : Occasion := { rejected with env := {} }
    ∃ w, (run {} opened).workspace? 0 = some w ∧ w.Free ∧ FailsAll {} build w [rejected] ∧
      ((tried {} build w [rejected]).1.attempt {} (.build build) well).progress.answer? = some .done ∧
      ¬Workspace.Alike {} build w 0 [rejected] well := by
  intro opened build rejected well
  let told (done : List Processed) := ContextCall.mutations (Event.callsOf 0 (done.flatMap (·.events)))
  let later : List (Payload × Occasion) := [(.build { build with arguments := [] }, well)]
  have hstate : ∀ w ∈ (run {} opened).workspace? 0, w.Free ∧ FailsAll {} build w [rejected] ∧
      ((tried {} build w [rejected]).1.attempt {} (.build build) well).progress.answer? = some .done ∧
      told (runAll (Workspace.takes {}) (tried {} build w ([rejected] ++ [well])).1 later).2 =
        [.setOptions [], .setLastBuildSucceeded false] ∧
      told (runAll (Workspace.takes {}) (tried {} build w [well]).1 later).2 =
        [.setOptions [], .remove .metadataReferences "a.dll", .setLastBuildSucceeded false] := by decide +kernel
  obtain ⟨w, hw⟩ : ∃ w, (run {} opened).workspace? 0 = some w := Option.isSome_iff_exists.1 (by decide +kernel)
  obtain ⟨hfree, hfails, hok, hagain, honce⟩ := hstate w hw
  refine ⟨w, hw, hfree, hfails, hok, fun halike => ?_⟩
  have hsame := (hagain.symm.trans (congrArg told (halike.later later))).trans honce
  revert hsame
  decide

end World

end SliceSync
