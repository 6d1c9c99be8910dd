import SliceSync.Proofs.Teardown
import SliceSync.Proofs.SlotLock
/-!
# What the host owes

A workspace that is live no more is owed by the call that took it out of the live ones, until it has been torn
down: at every time each workspace that the host has made is live, owed by a call at work, or gone
(`World.Kept`).
-/

namespace SliceSync

/-! ## Teardowns that have ended -/

/-- A teardown of the workspace in a place has ended well. -/
def Torn (past : List Ending) (i : Nat) : Prop :=
  ∃ e ∈ past, e.place = i ∧ (∃ cause, e.request = .dispose cause) ∧ ∃ answer, e.result = .ok answer

theorem Torn.append {past : List Ending} {i : Nat} (h : Torn past i) (more : List Ending) : Torn (past ++ more) i := by
  obtain ⟨e, he, hi⟩ := h
  exact ⟨e, List.mem_append_left _ he, hi⟩

theorem Torn.of_append {more : List Ending} {i : Nat} (h : Torn more i) (past : List Ending) : Torn (past ++ more) i := by
  obtain ⟨e, he, hi⟩ := h
  exact ⟨e, List.mem_append_right _ he, hi⟩

namespace World

variable {setup : Setup} {acts : List Act} {env : Environment} {me : JobId} {i : Nat}

theorem endingsFrom_append (w : World) (l m : List Act) :
    endingsFrom w (l ++ m) = endingsFrom w l ++ endingsFrom (runFrom w l) m := by
  induction l generalizing w with
  | nil => rfl
  | cons a rest ih => simp [ih, runFrom]

theorem history_concat (setup : Setup) (acts : List Act) (a : Act) :
    history setup (acts ++ [a]) = history setup acts ++ (run setup acts).endings a := by
  rw [history, endingsFrom_append]
  simp [history, run, endingsFrom]

theorem madeFrom_append (w : World) (l m : List Act) :
    madeFrom w (l ++ m) = madeFrom w l ++ madeFrom (runFrom w l) m := by
  induction l generalizing w with
  | nil => rfl
  | cons a rest ih => simp [ih, madeFrom, runFrom]

theorem made_concat (setup : Setup) (acts : List Act) (a : Act) :
    made setup (acts ++ [a]) = made setup acts ++ (run setup acts).makes a := by
  rw [made, madeFrom_append]
  simp [made, run, madeFrom]

theorem made_append (setup : Setup) (acts more : List Act) :
    made setup (acts ++ more) = made setup acts ++ madeFrom (run setup acts) more :=
  madeFrom_append ..

/-- A workspace that has been torn down is gone. -/
theorem gone_of_torn (h : Torn (history setup acts) i) : (run setup acts).Gone i := by
  obtain ⟨e, he, hi, ⟨cause, hr⟩, answer, ha⟩ := h
  obtain ⟨-, ⟨-, herror⟩ | ⟨s, hs, -⟩⟩ := plays_orderly setup acts i
  · -- where there is no workspace no call ends well
    obtain ⟨error, he'⟩ := herror e (List.mem_filter.2 ⟨he, by simpa using hi⟩)
    exact absurd (ha.symm.trans he') nofun
  · exact gone_of_scene hs (gone_run hs he hi hr ha)

/-- A place that is filled has a scene. -/
theorem exists_scene (hi : i < (run setup acts).hosted.length) :
    ∃ s, (run setup acts).view.HasScene i s ∧ s.Lined := by
  have hw : (run setup acts).view.workspaces[i]? = some ((run setup acts).hosted[i]).workspace := by
    simp [view, hi]
  obtain ⟨s, hs, -, h⟩ := orderly_run setup acts hw
  exact ⟨s, hs, h.toLined⟩

/-- A step of a call on a workspace, read off the workspace. -/
theorem advanceCall_progress {w : World} {h : Hosted} (hi : w.hosted[i]? = some h) (env : Environment) (me : JobId)
    (c : Call) : (w.advanceCall env me i c).2 =
      match (c.advance w.setup env me w.session h.workspace).progress with
      | .going c => .going c
      | .done result => .done result := by
  cases hp : (c.advance w.setup env me w.session h.workspace).progress <;> simp [advanceCall, hi, hp]

/-- Where a teardown ends it ends well. -/
theorem torn_of_done {c : Call} {cause : DisposeCause} {result : Except SyncError Answer}
    (hc : (run setup acts).callAt me = some (i, c)) (hr : c.request = .dispose cause)
    (hi : i < (run setup acts).hosted.length) (hd : ((run setup acts).advanceCall env me i c).2 = .done result) :
    Torn ((run setup acts).endings (.advance env me)) i := by
  obtain ⟨s, hs, hl⟩ := exists_scene hi
  have hfit := hl.fit ((hs.calls me c).2 hc)
  have hends : (run setup acts).endings (.advance env me) = [⟨i, c.request, result⟩] := by
    simp only [endings, hc, hd]
  have hpaths := Call.paths (run setup acts).setup env me (run setup acts).session s.workspace hfit
  have hprogress : (c.advance (run setup acts).setup env me (run setup acts).session s.workspace).progress =
      .done result := by
    obtain ⟨h, hh, hws⟩ := Option.map_eq_some_iff.1 ((List.getElem?_map ..).symm.trans hs.workspace)
    rw [advanceCall_progress hh, hws] at hd
    cases hp : (c.advance (run setup acts).setup env me (run setup acts).session s.workspace).progress with
    | going c' =>
      rw [hp] at hd
      cases hd
    | done result' =>
      rw [hp] at hd
      cases hd
      rfl
  rw [hends]
  exact ⟨_, List.mem_singleton_self _, rfl, ⟨cause, hr⟩, _, hpaths.of_dispose hfit hr hprogress⟩

/-- A call that goes on goes on as what it was. -/
theorem request_of_going {c c' : Call} (hc : (run setup acts).callAt me = some (i, c))
    (hg : ((run setup acts).advanceCall env me i c).2 = .going c') : c'.request = c.request := by
  cases hh : (run setup acts).hosted[i]? with
  | none =>
    simp only [advanceCall, hh] at hg
    cases hg
  | some h =>
    have hi : i < (run setup acts).hosted.length := (List.getElem?_eq_some_iff.1 hh).1
    obtain ⟨s, hs, hl⟩ := exists_scene hi
    have hfit := hl.fit ((hs.calls me c).2 hc)
    rw [advanceCall_progress hh] at hg
    cases hp : (c.advance (run setup acts).setup env me (run setup acts).session h.workspace).progress with
    | going c'' =>
      rw [hp] at hg
      cases hg
      exact (Scene.fit_goes (t := freely (run setup acts).setup) hfit (Call.paths _ env me _ _ hfit) hp).2
    | done result =>
      rw [hp] at hg
      cases hg

end World

/-! ## What a call has yet to tear down -/

namespace Retirement

variable {w : World} {env : Environment} {me : JobId} {i : Nat} {r r' : Retirement} {past : List Ending}
  {cause : DisposeCause}

/-- A teardown calls for its cause until the workspace is gone. -/
def Fit (past : List Ending) (cause : DisposeCause) (i : Nat) : Retirement → Prop
  | .disposing call => call.request = .dispose cause
  | .claiming | .joining => Torn past i

theorem Fit.torn (h : r.Fit past cause i) (hr : r.call? = none) : Torn past i := by
  cases r with
  | disposing call => cases hr
  | claiming | joining => exact h

theorem Fit.append (h : r.Fit past cause i) (more : List Ending) : r.Fit (past ++ more) cause i := by
  cases r with
  | disposing call => exact h
  | claiming | joining => exact Torn.append h more

theorem of_done {exit : Option DriverExit} (h : (w.advanceRetirement env me i r).2 = .done exit) : r.call? = none := by
  cases r with
  | disposing call =>
    unfold World.advanceRetirement at h
    dsimp only at h
    generalize w.advanceCall env me i call = a at h
    obtain ⟨w', going | done⟩ := a <;> cases h
  | claiming | joining => rfl

/-- A teardown goes on with its call, ends it, or has none any more. -/
theorem of_going (h : (w.advanceRetirement env me i r).2 = .going r') :
    (∃ call call', r = .disposing call ∧ r' = .disposing call' ∧ (w.advanceCall env me i call).2 = .going call') ∨
      (∃ call result, r = .disposing call ∧ r' = .claiming ∧ (w.advanceCall env me i call).2 = .done result) ∨
      r.call? = none ∧ r'.call? = none := by
  unfold World.advanceRetirement at h
  cases r with
  | disposing call =>
    dsimp only at h
    cases hc : w.advanceCall env me i call with
    | mk w' onward =>
      rw [hc] at h
      cases onward with
      | going call' =>
        cases h
        exact .inl ⟨call, call', rfl, rfl, by rw [hc]⟩
      | done result =>
        cases h
        exact .inr (.inl ⟨call, result, rfl, rfl, by rw [hc]⟩)
  | claiming =>
    dsimp only at h
    split at h
    · cases h
    · split at h <;> cases h
      exact .inr (.inr ⟨rfl, rfl⟩)
  | joining =>
    dsimp only at h
    split at h <;> cases h
    exact .inr (.inr ⟨rfl, rfl⟩)

end Retirement

namespace HostCall

/-- The workspaces that a call on the host has yet to tear down. -/
def owes : HostCall → List Nat
  | .queued (.forget _ _ retired _) => retired
  | .creating r | .retiring r => r.retired
  | .evicting r _ i _ | .disposing r i _ => i :: r.retired
  | .draining rest => rest
  | .closing rest i _ => i :: rest
  | _ => []

/-- A call on the host tears a workspace down with a cause, or is going to. -/
def Dooms (i : Nat) (cause : DisposeCause) : HostCall → Prop
  | .queued (.forget _ why retired _) => i ∈ retired ∧ why = cause
  | .creating r | .retiring r => i ∈ r.retired ∧ r.cause = cause
  | .evicting r _ j call => i = j ∧ call.request = .dispose cause ∨ i ∈ r.retired ∧ r.cause = cause
  | .disposing r j _ => i ∈ j :: r.retired ∧ r.cause = cause
  | .draining rest => i ∈ rest ∧ .unload = cause
  | .closing rest j _ => i ∈ j :: rest ∧ .unload = cause
  | _ => False

theorem Dooms.owes {c : HostCall} {i : Nat} {cause : DisposeCause} (h : c.Dooms i cause) : i ∈ c.owes := by
  cases c with
  | queued task =>
    cases task with
    | forget => exact h.1
    | _ => cases h
  | evicting r slice j call =>
    rcases h with ⟨rfl, -⟩ | ⟨hi, -⟩
    · exact List.mem_cons_self
    · exact List.mem_cons_of_mem _ hi
  | creating | retiring | disposing | draining | closing => exact h.1
  | starting | writing => cases h

/-- The calls that a call on the host makes to tear down are teardowns, those it makes to write are writes, and it
forgets what is torn down. -/
def Fit (past : List Ending) : HostCall → Prop
  | .queued (.forget i _ _ _) => Torn past i
  | .evicting _ _ _ call => ∃ cause, call.request = .dispose cause
  | .disposing r i retirement => retirement.Fit past r.cause i
  | .closing _ i retirement => retirement.Fit past .unload i
  | .writing mutations _ _ call => call.request = .write mutations
  | _ => True

/-- What a call owes it tears down with some cause. -/
theorem Fit.dooms_of_owes {past : List Ending} {c : HostCall} {i : Nat} (h : c.Fit past) (hi : i ∈ c.owes) :
    ∃ cause, c.Dooms i cause := by
  cases c with
  | queued task =>
    cases task with
    | forget => exact ⟨_, hi, rfl⟩
    | _ => cases hi
  | evicting r slice j call =>
    obtain ⟨cause, hr⟩ := h
    rcases List.mem_cons.1 hi with rfl | hi
    · exact ⟨cause, .inl ⟨rfl, hr⟩⟩
    · exact ⟨r.cause, .inr ⟨hi, rfl⟩⟩
  | creating | retiring | disposing | draining | closing => exact ⟨_, hi, rfl⟩
  | starting | writing => cases hi

/-- A teardown that a call is making is one of its own. -/
theorem Fit.dooms {past : List Ending} {c : HostCall} {i : Nat} {call : Call} {cause : DisposeCause} (h : c.Fit past)
    (hc : c.call? = some (i, call)) (hr : call.request = .dispose cause) : c.Dooms i cause := by
  cases c with
  | evicting r slice j call' =>
    cases hc
    exact .inl ⟨rfl, hr⟩
  | writing mutations attempts j call' =>
    cases hc
    exact absurd (hr.symm.trans h) nofun
  | disposing r j retirement =>
    cases retirement with
    | disposing call' =>
      cases hc
      cases hr.symm.trans h
      exact ⟨List.mem_cons_self, rfl⟩
    | claiming | joining => cases hc
  | closing rest j retirement =>
    cases retirement with
    | disposing call' =>
      cases hc
      cases hr.symm.trans h
      exact ⟨List.mem_cons_self, rfl⟩
    | claiming | joining => cases hc
  | starting | queued | creating | retiring | draining => cases hc

theorem Fit.append {past : List Ending} {c : HostCall} (h : c.Fit past) (more : List Ending) : c.Fit (past ++ more) := by
  cases c with
  | disposing | closing => exact Retirement.Fit.append h more
  | queued task =>
    cases task with
    | forget => exact Torn.append h more
    | _ => trivial
  | _ => exact h

/-- A request begins with nothing to tear down, and nothing to forget. -/
theorem owes_of_task {active : Option Slice} {request : HostRequest} {task : SlotTask}
    (h : request.task active = .ok task) : (queued task).owes = [] ∧ ∀ past, (queued task).Fit past := by
  unfold HostRequest.task at h
  cases request with
  | activeHandle =>
    dsimp only at h
    split at h <;> cases h
    exact ⟨rfl, fun _ => trivial⟩
  | writeActive mutations attempts =>
    dsimp only at h
    split at h
    · cases h
    · split at h <;> cases h
      exact ⟨rfl, fun _ => trivial⟩
  | _ =>
    cases h
    exact ⟨rfl, fun _ => trivial⟩

/-- A call that asks for the slots to forget a workspace has torn it down. -/
theorem Asks.fit {w : World} {env : Environment} {me : JobId} {c : HostCall} {task : SlotTask} {past : List Ending}
    (h : c.Asks w env me task) (hf : c.Fit past) : (queued task).Fit past := by
  cases h with
  | starts ht => exact (owes_of_task ht).2 past
  | returns hd => exact Retirement.Fit.torn hf (Retirement.of_done hd)

section Steps

variable {setup : Setup} {acts : List Act} {env : Environment} {me : JobId} {c : HostCall} {step : HostStep} {i : Nat}
  {past : List Ending}

theorem callAt_of_hostAt (hc : (World.run setup acts).hostAt me = some c) :
    (World.run setup acts).callAt me = c.call? := by
  simp [World.callAt, World.hostAt_eq_some_iff.1 hc, Job.call?]

/-- A teardown that goes on stays one, and the workspace is gone when its call has ended. -/
theorem fit_of_going {r r' : Retirement} {cause : DisposeCause} (hf : r.Fit past cause i)
    (hc : (World.run setup acts).callAt me = r.call?.map (i, ·)) (hi : i < (World.run setup acts).hosted.length)
    (hg : ((World.run setup acts).advanceRetirement env me i r).2 = .going r') :
    r'.Fit (past ++ (World.run setup acts).endings (.advance env me)) cause i := by
  rcases Retirement.of_going hg with ⟨call, call', rfl, rfl, hgo⟩ | ⟨call, result, rfl, rfl, hd⟩ | ⟨hr, hr'⟩
  · exact (World.request_of_going hc hgo).trans hf
  · exact (World.torn_of_done hc hf hi hd).of_append past
  · have htorn := (hf.torn hr).append ((World.run setup acts).endings (.advance env me))
    cases r' with
    | disposing call => cases hr'
    | claiming | joining => exact htorn

/-- What a call goes on to is fit if the call is. -/
theorem Paths.fit (h : c.Paths (World.run setup acts) env me step) (hc : (World.run setup acts).hostAt me = some c)
    (hf : c.Fit past) (ho : ∀ i ∈ c.owes, i < (World.run setup acts).hosted.length) {c' : HostCall}
    (hn : step.onward = .going c') : c'.Fit (past ++ (World.run setup acts).endings (.advance env me)) := by
  have hcall := callAt_of_hostAt hc
  cases h with
  | queues ha hl =>
    cases hn
    exact (ha.fit hf).append _
  | waits hl =>
    cases hn
    exact hf.append _
  | settles | keeps | makes | misses =>
    cases hn
    trivial
  | performs hs hp =>
    cases hp with
    | targets =>
      cases hn
      exact (rfl : Request.write _ = _)
    | reconciles | forgets | drains =>
      cases hn
      trivial
    | answers => cases hn
  | evicts =>
    cases hn
    exact ⟨_, rfl⟩
  | walks hw =>
    cases hn
    cases hw with
    | evicting hg =>
      obtain ⟨cause, hr⟩ := hf
      exact ⟨cause, (World.request_of_going hcall hg).trans hr⟩
    | disposes | closes => exact (rfl : _ = Request.dispose _)
    | disposing hg => exact fit_of_going hf hcall (ho _ (by simp [owes])) hg
    | closing hg => exact fit_of_going hf hcall (ho _ (by simp [owes])) hg
    | writing hg => exact (World.request_of_going hcall hg).trans hf
    | rewrites | closed => trivial
  | ends => cases hn

/-- What a call owes it goes on to owe until it is torn down. -/
theorem Paths.owes_kept (h : c.Paths (World.run setup acts) env me step)
    (hc : (World.run setup acts).hostAt me = some c) (hf : c.Fit past)
    (ho : ∀ i ∈ c.owes, i < (World.run setup acts).hosted.length) (hi : i ∈ c.owes) :
    (∃ c', step.onward = .going c' ∧ i ∈ c'.owes) ∨
      Torn (past ++ (World.run setup acts).endings (.advance env me)) i := by
  have hcall := callAt_of_hostAt hc
  -- a call that asks for the slots has torn down what it was at
  have asked {task : SlotTask} (ha : c.Asks (World.run setup acts) env me task) :
      i ∈ (queued task).owes ∨ Torn (past ++ (World.run setup acts).endings (.advance env me)) i := by
    cases ha with
    | starts => cases hi
    | returns hd =>
      rcases List.mem_cons.1 hi with rfl | hi
      · exact .inr ((Retirement.Fit.torn hf (Retirement.of_done hd)).append _)
      · exact .inl hi
  have cleared {slice : Slice} {r : Reconciliation} (hcl : c.Clears (World.run setup acts) env me slice r) :
      i ∈ r.retired ∨ Torn (past ++ (World.run setup acts).endings (.advance env me)) i := by
    cases hcl with
    | vacant => exact .inl hi
    | evicted hd =>
      rcases List.mem_cons.1 hi with rfl | hi
      · obtain ⟨cause, hr⟩ := hf
        exact .inr ((World.torn_of_done hcall hr (ho _ (by simp [owes])) hd).of_append past)
      · exact .inl hi
  cases h with
  | queues ha hl => exact (asked ha).imp_left fun hi => ⟨_, rfl, hi⟩
  | waits hl => exact .inl ⟨_, rfl, hi⟩
  | @performs c task slots step hs hp =>
    have hi : i ∈ (queued task).owes ∨ Torn (past ++ (World.run setup acts).endings (.advance env me)) i := by
      rcases hs with ⟨ha, -⟩ | ⟨rfl, -⟩
      · exact asked ha
      · exact .inl hi
    refine hi.imp_left fun hi => ?_
    cases hp with
    | forgets => exact ⟨_, rfl, hi⟩
    | answers ht => cases task <;> simp [owes, SlotTask.looks] at hi ht
    | reconciles | targets | drains => cases hi
  | settles hw => exact .inl ⟨_, rfl, hi⟩
  | keeps hw hl => exact .inl ⟨_, rfl, hi⟩
  | evicts hw hl hr => exact .inl ⟨_, rfl, List.mem_cons_of_mem _ hi⟩
  | makes hcl => exact (cleared hcl).imp_left fun hi => ⟨_, rfl, hi⟩
  | misses hcl => exact (cleared hcl).imp_left fun hi => ⟨_, rfl, hi⟩
  | walks hw =>
    cases hw with
    | evicting | disposing | closing => exact .inl ⟨_, rfl, hi⟩
    | @disposes r j rest hr =>
      refine .inl ⟨_, rfl, ?_⟩
      simpa [owes, hr] using hi
    | closes => exact .inl ⟨_, rfl, hi⟩
    | closed hd =>
      rcases List.mem_cons.1 hi with rfl | hi
      · exact .inr ((Retirement.Fit.torn hf (Retirement.of_done hd)).append _)
      · exact .inl ⟨_, rfl, hi⟩
    | writing | rewrites => cases hi
  | ends he =>
    cases he with
    | retired hr => simp [owes, hr] at hi
    | refuses | wrote | drained => cases hi

variable {w : World} {slice : Slice} {cause : DisposeCause}

/-- A step takes a workspace out of the live ones, and the call tears it down with this cause. -/
structure Retires (w : World) (c : HostCall) (step : HostStep) (slice : Slice) (i : Nat) (cause : DisposeCause) :
    Prop where
  live : w.slots.live.get? slice = some i
  out : step.slots.live.get? slice = none
  dooms : ∃ c', step.onward = .going c' ∧ c'.Dooms i cause
  /-- Unless all are taken out, the slice is not wanted, and retiring from now on. -/
  wants : c.drains = false → ∃ slices, c.demands = some (slices, cause) ∧ slice ∉ slices ∧
    step.slots.retiring.get? slice = some ⟨i, cause⟩

/-- A call that changes what is wanted retires what is not. -/
theorem retires_of_unwanted {slots : Slots} {wanted : List Slice}
    (hs : c.Asks w env me (.reconcile wanted cause) ∧ w.slots.lock.holder = none ∧
          slots = { w.slots with lock := { w.slots.lock with holder := some me } } ∨
        c = .queued (.reconcile wanted cause) ∧ w.slots.lock.holder = some me ∧ slots = w.slots)
    (hl : slots.live.get? slice = some i) (hw : slice ∉ wanted) :
    c.Retires w ⟨slots.retire wanted cause,
      .going (.creating { wanted, retired := (slots.unwanted wanted).map (·.2), cause }), none⟩ slice i cause := by
  constructor
  · rcases hs with ⟨-, -, rfl⟩ | ⟨-, -, rfl⟩ <;> exact hl
  · exact (Slots.live_retire ..).trans (if_neg hw)
  · exact ⟨_, rfl, Slots.mem_map_unwanted.2 ⟨slice, hl, hw⟩, rfl⟩
  · intro _
    obtain ⟨slices, hdemands, hsame⟩ : ∃ slices, c.demands = some (slices, cause) ∧ ∀ s, s ∈ wanted ↔ s ∈ slices := by
      rcases hs with ⟨ha, -⟩ | ⟨rfl, -⟩
      · exact ha.demands
      · exact ⟨wanted, rfl, fun _ => .rfl⟩
    refine ⟨slices, hdemands, fun hmem => hw ((hsame slice).2 hmem), ?_⟩
    refine (Slots.retiring_retire ..).trans ?_
    rw [if_neg hw, hl]
    rfl

/-- A call that empties the slots retires everything. -/
theorem retires_of_drained {slots : Slots}
    (hs : c.Asks w env me .drain ∧ w.slots.lock.holder = none ∧
          slots = { w.slots with lock := { w.slots.lock with holder := some me } } ∨
        c = .queued .drain ∧ w.slots.lock.holder = some me ∧ slots = w.slots)
    (hl : slots.live.get? slice = some i) :
    c.Retires w ⟨{ slots with live := ∅, lock := slots.lock.release }, .going (.draining slots.live.values), none⟩
      slice i .unload := by
  constructor
  · rcases hs with ⟨-, -, rfl⟩ | ⟨-, -, rfl⟩ <;> exact hl
  · rfl
  · exact ⟨_, rfl, Listing.mem_values_iff.2 ⟨slice, hl⟩, rfl⟩
  · intro hd
    rcases hs with ⟨ha, -⟩ | ⟨rfl, -⟩
    · exact absurd rfl (ha.calm hd)
    · cases hd

/-- What a call tears down after a step it was to tear down before, or it has been taken out of the live ones, or its
slot is needed. -/
theorem Paths.dooms_new (h : c.Paths (World.run setup acts) env me step)
    (hc : (World.run setup acts).hostAt me = some c) {c' : HostCall} (hn : step.onward = .going c')
    (hi : c'.Dooms i cause) : c.Dooms i cause ∨ (∃ slice, c.Retires (World.run setup acts) step slice i cause) ∨
      ∃ slice, (World.run setup acts).slots.retiring.get? slice = some ⟨i, cause⟩ := by
  have hcall := callAt_of_hostAt hc
  have asked {task : SlotTask} (ha : c.Asks (World.run setup acts) env me task) (hi : (queued task).Dooms i cause) :
      c.Dooms i cause := by
    cases ha with
    | starts ht =>
      have howes := hi.owes
      rw [(owes_of_task ht).1] at howes
      cases howes
    | returns => exact ⟨List.mem_cons_of_mem _ hi.1, hi.2⟩
  have cleared {slice : Slice} {r : Reconciliation} (hcl : c.Clears (World.run setup acts) env me slice r)
      (hi : i ∈ r.retired ∧ r.cause = cause) : c.Dooms i cause := by
    cases hcl with
    | vacant => exact hi
    | evicted => exact .inr hi
  cases h with
  | queues ha hl =>
    cases hn
    exact .inl (asked ha hi)
  | waits hl =>
    cases hn
    exact .inl hi
  | @performs c task slots step hs hp =>
    cases hp with
    | reconciles =>
      cases hn
      obtain ⟨hi, rfl⟩ := hi
      obtain ⟨slice, hl, hw⟩ := Slots.mem_map_unwanted.1 hi
      exact .inr (.inl ⟨slice, retires_of_unwanted hs hl hw⟩)
    | forgets =>
      cases hn
      rcases hs with ⟨ha, -⟩ | ⟨rfl, -⟩
      · exact .inl (asked ha hi)
      · exact .inl hi
    | drains =>
      cases hn
      obtain ⟨hi, rfl⟩ := hi
      obtain ⟨slice, hl⟩ := Listing.mem_values_iff.1 hi
      exact .inr (.inl ⟨slice, retires_of_drained hs hl⟩)
    | targets =>
      cases hn
      cases hi
    | answers => cases hn
  | settles | keeps =>
    cases hn
    exact .inl hi
  | evicts hw hl hr =>
    cases hn
    rcases hi with ⟨rfl, hi⟩ | hi
    · cases hi
      exact .inr (.inr ⟨_, hr⟩)
    · exact .inl hi
  | makes hcl | misses hcl =>
    cases hn
    exact .inl (cleared hcl hi)
  | walks hw =>
    cases hn
    left
    cases hw with
    | evicting hg =>
      refine hi.imp_left fun ⟨hplace, hr⟩ => ⟨hplace, ?_⟩
      rwa [World.request_of_going hcall hg] at hr
    | disposing | closing | closes => exact hi
    | disposes hr => exact ⟨hr ▸ hi.1, hi.2⟩
    | closed => exact ⟨List.mem_cons_of_mem _ hi.1, hi.2⟩
    | writing | rewrites => cases hi
  | ends => cases hn

/-- What is live stays so, or is torn down from now on by the call that takes it out. -/
theorem Paths.live_out (h : c.Paths w env me step) (hv : w.Latched) (hc : w.hostAt me = some c)
    (hl : w.slots.live.get? slice = some i) :
    step.slots.live.get? slice = some i ∨ ∃ cause, c.Retires w step slice i cause := by
  cases h with
  | queues | waits | settles | keeps | evicts | misses | walks | ends => exact .inl hl
  | @performs c task slots step hs hp =>
    have hlive : slots.live.get? slice = some i := by
      rcases hs with ⟨-, -, rfl⟩ | ⟨-, -, rfl⟩ <;> exact hl
    cases hp with
    | @reconciles wanted cause =>
      by_cases hw : slice ∈ wanted
      · exact .inl ((Slots.live_retire ..).trans (by rw [if_pos hw, hlive]))
      · exact .inr ⟨cause, retires_of_unwanted hs hlive hw⟩
    | forgets | answers | targets => exact .inl hlive
    | drains => exact .inr ⟨_, retires_of_drained hs hlive⟩
  | @makes c other r hcl =>
    left
    have hnone := (hv.cleared hc hcl).1
    have hne : other ≠ slice := by
      rintro rfl
      exact absurd (hl.symm.trans hnone) nofun
    simpa [hne] using hl

/-- What is live after a step was so before, or has just been made. -/
theorem Paths.live_new (h : c.Paths w env me step) (hl : step.slots.live.get? slice = some i) :
    w.slots.live.get? slice = some i ∨ i = w.hosted.length ∧ step.made = some slice := by
  cases h with
  | queues | waits | settles | keeps | evicts | misses | walks | ends => exact .inl hl
  | @performs c task slots step hs hp =>
    have hlive : slots.live = w.slots.live := by rcases hs with ⟨-, -, rfl⟩ | ⟨-, -, rfl⟩ <;> rfl
    left
    rw [← hlive]
    cases hp with
    | @reconciles wanted cause =>
      have hl := (Slots.live_retire slots wanted cause slice).symm.trans hl
      by_cases hw : slice ∈ wanted
      · simpa [hw] using hl
      · simp [hw] at hl
    | forgets | answers | targets => exact hl
    | drains => cases hl
  | @makes c other r hcl =>
    rw [Listing.get?_insert] at hl
    by_cases hne : other = slice
    · rw [if_pos hne] at hl
      exact .inr ⟨(Option.some.inj hl).symm, by rw [hne]⟩
    · rw [if_neg hne] at hl
      exact .inl hl

/-- What is retiring after a step was so before, or has been taken out of the live ones. -/
theorem Paths.retiring_new (h : c.Paths w env me step) {old : Retiring}
    (hr : step.slots.retiring.get? slice = some old) :
    w.slots.retiring.get? slice = some old ∨ c.Retires w step slice old.workspace old.cause := by
  have erased {slots : Slots} {other : Slice} (hr : (slots.retiring.erase other).get? slice = some old) :
      slots.retiring.get? slice = some old := by
    rw [Listing.get?_erase] at hr
    split at hr
    · cases hr
    · exact hr
  cases h with
  | queues | waits | settles | keeps | makes | misses | walks | ends => exact .inl hr
  | @performs c task slots step hs hp =>
    have hsame : slots.retiring = w.slots.retiring := by
      rcases hs with ⟨-, -, rfl⟩ | ⟨-, -, rfl⟩ <;> rfl
    cases hp with
    | @reconciles wanted cause =>
      have hr := (Slots.retiring_retire slots wanted cause slice).symm.trans hr
      by_cases hw : slice ∈ wanted
      · exact .inl (by simpa [hw, hsame] using hr)
      · rw [if_neg hw] at hr
        cases hl : slots.live.get? slice with
        | none => exact .inl (by simpa [hl, hsame] using hr)
        | some i =>
          rw [hl] at hr
          cases hr
          exact .inr (retires_of_unwanted hs hl hw)
    | forgets hforget =>
      left
      rw [← hsame]
      rcases hforget with rfl | ⟨other, cause, -, rfl⟩
      · exact hr
      · exact erased hr
    | answers | targets | drains => exact .inl (hsame ▸ hr)
  | evicts hw hl hr' => exact .inl (erased hr)

/-- A workspace that is made is live. -/
theorem Paths.made_live (h : c.Paths w env me step) (hm : step.made = some slice) :
    step.slots.live.get? slice = some w.hosted.length := by
  cases h with
  | performs hs hp => cases hp <;> cases hm
  | makes hcl =>
    cases hm
    simp
  | _ => cases hm

end Steps

end HostCall

/-! ## Every run -/

namespace World

variable {w w' : World} {a : Act} {setup : Setup} {acts : List Act} {i : Nat} {past : List Ending} {places : List Nat}

/-- Workspaces are never taken away. -/
theorem places_le (w : World) (a : Act) : w.hosted.length ≤ (w.perform a).hosted.length := by
  cases a with
  | addWorkspace slice => simp [perform, addWorkspace]
  | create env slice =>
    show _ ≤ (w.createHosted env slice).1.hosted.length
    rcases w.createHosted_cases env slice with ⟨error, heq, -⟩ | ⟨w', heq, -, -, hhosted⟩
    · rw [heq]
    · rw [heq, hhosted]
      simp
  | requestUnload place cause => simp [perform, requestUnload, modifyHosted]
  | claimExit place =>
    obtain ⟨hosted, hclaim, hsame⟩ := w.perform_claimExit place
    rw [hclaim]
    simpa using Nat.le_of_eq (congrArg List.length hsame).symm
  | advance env me =>
    show _ ≤ (w.advance env me).hosted.length
    cases hj : w.job? me with
    | none => simp [advance, hj]
    | some job =>
      have hplaces : w.hosted.length ≤ (w.advanceJob env me job).1.hosted.length := by
        cases hjob : job.host? with
        | none => exact Nat.le_of_eq (w.advanceJob_spares env me hjob).1.places.symm
        | some c =>
          cases job with
          | host c =>
            obtain ⟨step, -, hcomes⟩ := w.advanceHost_paths env me c
            have hplaces : w.hosted.length ≤ (w.advanceHost env me c).1.hosted.length := by
              rw [hcomes.places]
              omega
            rw [advanceJob_host]
            exact hplaces
          | _ => cases hjob
      obtain ⟨jobs, outcomes, hadvance⟩ := advance_eq env hj
      rw [hadvance]
      exact hplaces
  | _ => exact Nat.le_refl _

theorem hosted_le (setup : Setup) (acts more : List Act) :
    (run setup acts).hosted.length ≤ (run setup (acts ++ more)).hosted.length := by
  induction more using List.reverseRecOn with
  | nil => simp
  | append_singleton more a ih =>
    rw [← List.append_assoc, run_concat]
    exact Nat.le_trans ih (places_le _ a)

/-- What the host knows is there, and each workspace that it has made is live, owed by a call at work, or torn
down. -/
structure Kept (w : World) (past : List Ending) (made : List Nat) : Prop extends w.Latched where
  fit : ∀ {me c}, w.hostAt me = some c → c.Fit past
  owed : ∀ {me c i}, w.hostAt me = some c → i ∈ c.owes → i < w.hosted.length
  live : ∀ {slice i}, w.slots.live.get? slice = some i → i < w.hosted.length
  retiring : ∀ {slice old}, w.slots.retiring.get? slice = some old → old.workspace < w.hosted.length
  accounted : ∀ i ∈ made, (∃ slice, w.slots.live.get? slice = some i) ∨
    (∃ me c, w.hostAt me = some c ∧ i ∈ c.owes) ∨ Torn past i

theorem kept_initial (setup : Setup) : (initial setup).Kept [] [] := by
  refine ⟨latched_initial setup, ?_, ?_, ?_, ?_, ?_⟩
  · intro me c h
    cases h
  · intro me c i h
    cases h
  · intro slice i h
    cases h
  · intro slice old h
    cases h
  · intro i h
    cases h

/-- What a call owes it goes on to owe, whatever happens, until it is torn down. -/
theorem Kept.owes_step (h : (run setup acts).Kept past places) (a : Act) {me : JobId} {c : HostCall}
    (hc : (run setup acts).hostAt me = some c) (hi : i ∈ c.owes) :
    (∃ c', (run setup (acts ++ [a])).hostAt me = some c' ∧ i ∈ c'.owes) ∨
      Torn (past ++ (run setup acts).endings a) i := by
  have hm := perform_host (plays_orderly setup acts 0).1 (within_freely setup a)
  rw [run_concat]
  generalize (run setup acts).perform a = w' at hm ⊢
  cases hm with
  | rests slots calls makes => exact .inl ⟨c, calls ▸ hc, hi⟩
  | begins hn slots calls =>
    refine .inl ⟨c, ?_, hi⟩
    rw [calls, Function.update_of_ne]
    · exact hc
    · rintro rfl
      exact absurd (hc.symm.trans hn) nofun
  | @goes env other c' step _ hc' hp slots onward calls makes here =>
    by_cases hme : me = other
    · subst hme
      cases hc.symm.trans hc'
      refine (hp.owes_kept hc (h.fit hc) (fun i hi => h.owed hc hi) hi).imp_left ?_
      rintro ⟨c', hn, hi⟩
      exact ⟨c', by rw [calls, Function.update_self, hn]; rfl, hi⟩
    · refine .inl ⟨c, ?_, hi⟩
      rw [calls, Function.update_of_ne hme]
      exact hc

/-- What is live stays so, or is owed by the call that takes it out. -/
theorem Kept.live_step (h : (run setup acts).Kept past places) (a : Act) {slice : Slice}
    (hl : (run setup acts).slots.live.get? slice = some i) :
    (run setup (acts ++ [a])).slots.live.get? slice = some i ∨
      ∃ env me c, a = .advance env me ∧ (run setup (acts ++ [a])).hostAt me = some c ∧ i ∈ c.owes := by
  have hm := perform_host (plays_orderly setup acts 0).1 (within_freely setup a)
  rw [run_concat]
  generalize (run setup acts).perform a = w' at hm ⊢
  cases hm with
  | rests slots calls makes => exact .inl (slots ▸ hl)
  | begins hn slots calls => exact .inl (slots ▸ hl)
  | @goes env me c step _ hc hp slots onward calls makes here =>
    refine (hp.live_out h.toLatched hc hl).imp (fun hl => slots ▸ hl) ?_
    rintro ⟨cause, hretires⟩
    obtain ⟨c', hn, hi⟩ := hretires.dooms
    exact ⟨env, me, c', rfl, by rw [calls, Function.update_self, hn]; rfl, hi.owes⟩

/-- What is live after an act was so before, or has just been made. -/
theorem live_new {w : World} {slice : Slice} (hm : HostMove w a w') (hl : w'.slots.live.get? slice = some i) :
    w.slots.live.get? slice = some i ∨
      i = w.hosted.length ∧ i ∈ w.makes a ∧ w'.workspace? i = some { slice } := by
  cases hm with
  | rests slots calls makes => exact .inl (slots ▸ hl)
  | begins hn slots calls => exact .inl (slots ▸ hl)
  | goes hc hp slots onward calls makes here =>
    rw [slots] at hl
    refine (hp.live_new hl).imp_right ?_
    rintro ⟨rfl, hs⟩
    exact ⟨rfl, by rw [makes, hs]; simp, here slice hs⟩

/-- A place with a workspace is filled. -/
theorem lt_of_workspace? {w : World} {ws : Workspace} (h : w.workspace? i = some ws) : i < w.hosted.length := by
  obtain ⟨e, he, -⟩ := Option.map_eq_some_iff.1 h
  exact (List.getElem?_eq_some_iff.1 he).1

/-- A call at work after an act was at work before, has just begun, or has taken a step. -/
theorem hostAt_new {w : World} {me : JobId} {c' : HostCall} (hm : HostMove w a w') (hc' : w'.hostAt me = some c') :
    w.hostAt me = some c' ∨ (∃ request, a = .host request ∧ me = w.nextJob ∧ c' = .starting request) ∨
      ∃ env c step, a = .advance env me ∧ w.hostAt me = some c ∧ c.Paths w env me step ∧ step.onward = .going c' ∧
        w'.slots = step.slots := by
  cases hm with
  | rests slots calls makes => exact .inl (calls ▸ hc')
  | @begins request _ hn slots calls =>
    rw [calls] at hc'
    by_cases hme : me = w.nextJob
    · rw [hme, Function.update_self] at hc'
      exact .inr (.inl ⟨request, rfl, hme, (Option.some.inj hc').symm⟩)
    · rw [Function.update_of_ne hme] at hc'
      exact .inl hc'
  | @goes env other c step _ hc hp slots onward calls makes here =>
    rw [calls] at hc'
    by_cases hme : me = other
    · subst hme
      rw [Function.update_self] at hc'
      exact .inr (.inr ⟨env, c, step, rfl, hc, hp, Onward.state?_eq_some_iff.1 hc', slots⟩)
    · rw [Function.update_of_ne hme] at hc'
      exact .inl hc'

/-- Every act keeps what the host knows. -/
theorem Kept.step (h : (run setup acts).Kept past places) (a : Act) :
    (run setup (acts ++ [a])).Kept (past ++ (run setup acts).endings a) (places ++ (run setup acts).makes a) := by
  have hm := perform_host (plays_orderly setup acts 0).1 (within_freely setup a)
  have hle := (run setup acts).places_le a
  rw [← run_concat] at hm hle
  refine ⟨h.toLatched.step hm, ?_, ?_, ?_, ?_, ?_⟩
  · intro me c' hc'
    rcases hostAt_new hm hc' with hc' | ⟨request, -, -, rfl⟩ | ⟨env, c, step, rfl, hc, hp, hn, -⟩
    · exact (h.fit hc').append _
    · trivial
    · exact hp.fit hc (h.fit hc) (fun i hi => h.owed hc hi) hn
  · intro me c' i hc' hi
    refine Nat.lt_of_lt_of_le ?_ hle
    rcases hostAt_new hm hc' with hc' | ⟨request, -, -, rfl⟩ | ⟨env, c, step, rfl, hc, hp, hn, -⟩
    · exact h.owed hc' hi
    · cases hi
    · obtain ⟨cause, hdooms⟩ := (hp.fit hc (h.fit hc) (fun i hi => h.owed hc hi) hn).dooms_of_owes hi
      rcases hp.dooms_new hc hn hdooms with hdooms | ⟨slice, hretires⟩ | ⟨slice, hr⟩
      · exact h.owed hc hdooms.owes
      · exact h.live hretires.live
      · exact h.retiring hr
  · intro slice i hl
    rcases live_new hm hl with hl | ⟨-, -, hw⟩
    · exact Nat.lt_of_lt_of_le (h.live hl) hle
    · exact lt_of_workspace? hw
  · intro slice old hr
    refine Nat.lt_of_lt_of_le ?_ hle
    cases hm with
    | rests slots calls makes => exact h.retiring (slots ▸ hr)
    | begins hn slots calls => exact h.retiring (slots ▸ hr)
    | goes hc hp slots onward calls makes here =>
      rw [slots] at hr
      rcases hp.retiring_new hr with hr | hretires
      · exact h.retiring hr
      · exact h.live hretires.live
  · intro i hi
    rcases List.mem_append.1 hi with hi | hi
    · rcases h.accounted i hi with ⟨slice, hl⟩ | ⟨me, c, hc, howes⟩ | htorn
      · rcases h.live_step a hl with hl | ⟨env, me, c, -, hc, howes⟩
        · exact .inl ⟨slice, hl⟩
        · exact .inr (.inl ⟨me, c, hc, howes⟩)
      · right
        exact (h.owes_step a hc howes).imp_left fun ⟨c', hc', howes⟩ => ⟨me, c', hc', howes⟩
      · exact .inr (.inr (htorn.append _))
    · cases hm with
      | rests slots calls makes =>
        rw [makes] at hi
        cases hi
      | begins => cases hi
      | goes hc hp slots onward calls makes here =>
        rw [makes] at hi
        obtain ⟨slice, hs, rfl⟩ := List.mem_map.1 hi
        exact .inl ⟨slice, slots ▸ hp.made_live (Option.mem_toList.1 hs)⟩

/-- In every run each workspace that the host has made is live, owed by a call at work, or torn down. -/
theorem kept_run (setup : Setup) (acts : List Act) :
    (run setup acts).Kept (history setup acts) (made setup acts) := by
  induction acts using List.reverseRecOn with
  | nil => exact kept_initial setup
  | append_singleton acts a ih =>
    rw [history_concat, made_concat]
    exact ih.step a

/-- What a call owes at some time it owes later, or it has been torn down. -/
theorem owes_run {me : JobId} {c : HostCall} (hc : (run setup acts).hostAt me = some c) (hi : i ∈ c.owes)
    (more : List Act) :
    (∃ c', (run setup (acts ++ more)).hostAt me = some c' ∧ i ∈ c'.owes) ∨ Torn (history setup (acts ++ more)) i := by
  induction more using List.reverseRecOn with
  | nil => exact .inl ⟨c, by simpa using hc, hi⟩
  | append_singleton more a ih =>
    rw [← List.append_assoc, history_concat]
    rcases ih with ⟨c', hc', hi'⟩ | htorn
    · exact (kept_run setup (acts ++ more)).owes_step a hc' hi'
    · exact .inr (htorn.append _)

/-- The places the host has made are filled. -/
theorem lt_of_made (hi : i ∈ made setup acts) : i < (run setup acts).hosted.length := by
  have h := kept_run setup acts
  rcases h.accounted i hi with ⟨slice, hl⟩ | ⟨me, c, hc, howes⟩ | htorn
  · exact h.live hl
  · exact h.owed hc howes
  · obtain ⟨⟨ws, hw, -⟩, -, -⟩ := gone_of_torn htorn
    exact lt_of_workspace? hw

/-- What a call has taken out of the live ones is gone when the call has returned. -/
theorem gone_of_returned (acts more : List Act) {slice : Slice} {env : Environment} {me : JobId}
    (hl : (run setup acts).slots.live.get? slice = some i)
    (ht : (run setup (acts ++ [.advance env me])).slots.live.get? slice ≠ some i)
    (hr : (run setup (acts ++ .advance env me :: more)).hostAt me = none) :
    (run setup (acts ++ .advance env me :: more)).Gone i := by
  rcases (kept_run setup acts).live_step (.advance env me) hl with hl | ⟨env', me', c, ha, hc, hi⟩
  · exact absurd hl ht
  · cases ha
    have hlater := owes_run hc hi more
    rw [List.append_assoc, List.singleton_append] at hlater
    rcases hlater with ⟨c', hc', -⟩ | htorn
    · exact absurd (hr.symm.trans hc') nofun
    · exact gone_of_torn htorn

end World

end SliceSync
