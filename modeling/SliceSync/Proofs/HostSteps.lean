import SliceSync.Proofs.Jobs
/-!
# Steps of calls on a host

What one step of a call on the host can do, as an inductive with one case for each way on: `HostCall.Paths`
says what becomes of the slots, where the call stands after it, and whether there is a new workspace. Every
act is such a step, or the beginning of a call, or leaves the host alone (`World.HostMove`).
-/

namespace SliceSync

/-! ## The slots of unwanted slices -/

namespace Listing

variable {κ β γ : Type} [DecidableEq κ]

theorem get?_foldl_erase (l : List (κ × γ)) (m : Listing κ β) (key : κ) :
    (l.foldl (fun m e => m.erase e.1) m).get? key = if key ∈ l.map (·.1) then none else m.get? key := by
  induction l generalizing m with
  | nil => simp
  | cons e rest ih =>
    rw [List.foldl_cons, ih]
    by_cases hk : e.1 = key
    · simp [hk]
    · have hne : ¬key = e.1 := fun h => hk h.symm
      simp only [get?_erase, if_neg hk, List.map_cons, List.mem_cons, hne, false_or]

/-- Where each key comes once, every entry is bound. -/
theorem get?_foldl_insert (f : γ → β) (l : List (κ × γ)) (hl : (l.map (·.1)).Nodup) (m : Listing κ β) (key : κ) :
    (∀ v, (key, v) ∈ l → (l.foldl (fun m e => m.insert e.1 (f e.2)) m).get? key = some (f v)) ∧
      ((∀ v, (key, v) ∉ l) → (l.foldl (fun m e => m.insert e.1 (f e.2)) m).get? key = m.get? key) := by
  induction l generalizing m with
  | nil => simp
  | cons e rest ih =>
    obtain ⟨he, hr⟩ := List.nodup_cons.1 hl
    obtain ⟨hmem, hnot⟩ := ih hr (m.insert e.1 (f e.2))
    simp only [List.foldl_cons]
    constructor
    · intro v hv
      rcases List.mem_cons.1 hv with rfl | hv
      · -- the entry is the first, and its key does not come again
        rw [hnot]
        · simp
        · exact fun v' hv' => he (List.mem_map.2 ⟨_, hv', rfl⟩)
      · exact hmem v hv
    · intro hv
      rw [hnot fun v hmem => hv v (List.mem_cons_of_mem _ hmem), get?_insert]
      rw [if_neg]
      rintro rfl
      exact hv e.2 (by simp)

end Listing

namespace Slots

/-- The live slices that are not wanted, with their workspaces. -/
def unwanted (slots : Slots) (wanted : List Slice) : List (Slice × Nat) :=
  slots.live.toList.filter fun e => !wanted.contains e.1

/-- The slots when what is unwanted has been retired. -/
def retire (slots : Slots) (wanted : List Slice) (cause : DisposeCause) : Slots :=
  { slots with
    live := (slots.unwanted wanted).foldl (fun live e => live.erase e.1) slots.live
    retiring := (slots.unwanted wanted).foldl (fun retiring e => retiring.insert e.1 ⟨e.2, cause⟩) slots.retiring }

variable {slots : Slots} {wanted : List Slice} {cause : DisposeCause} {slice : Slice} {i : Nat}

theorem mem_unwanted : (slice, i) ∈ slots.unwanted wanted ↔ slots.live.get? slice = some i ∧ slice ∉ wanted := by
  simp [unwanted, Listing.mem_toList_iff]

theorem mem_map_unwanted :
    i ∈ (slots.unwanted wanted).map (·.2) ↔ ∃ slice, slots.live.get? slice = some i ∧ slice ∉ wanted := by
  simp [← mem_unwanted]

/-- Only the wanted slices stay live. -/
theorem live_retire (slots : Slots) (wanted : List Slice) (cause : DisposeCause) (slice : Slice) :
    (slots.retire wanted cause).live.get? slice = if slice ∈ wanted then slots.live.get? slice else none := by
  have hmem : slice ∈ (slots.unwanted wanted).map (·.1) ↔ ∃ i, slots.live.get? slice = some i ∧ slice ∉ wanted := by
    simp [← mem_unwanted]
  unfold retire
  simp only [Listing.get?_foldl_erase, hmem]
  by_cases hw : slice ∈ wanted
  · simp [hw]
  · cases hl : slots.live.get? slice <;> simp [hw]

/-- What was live and is not wanted is retiring, with this cause. -/
theorem retiring_retire (slots : Slots) (wanted : List Slice) (cause : DisposeCause) (slice : Slice) :
    (slots.retire wanted cause).retiring.get? slice =
      if slice ∈ wanted then slots.retiring.get? slice
      else ((slots.live.get? slice).map (⟨·, cause⟩)).or (slots.retiring.get? slice) := by
  have hnodup : ((slots.unwanted wanted).map (·.1)).Nodup :=
    slots.live.nodup.sublist ((List.filter_sublist).map _)
  obtain ⟨hbound, hunbound⟩ :=
    Listing.get?_foldl_insert (fun i => (⟨i, cause⟩ : Retiring)) _ hnodup slots.retiring slice
  show ((slots.unwanted wanted).foldl (fun retiring e => retiring.insert e.1 ⟨e.2, cause⟩) slots.retiring).get? slice = _
  by_cases hw : slice ∈ wanted
  · rw [if_pos hw, hunbound]
    intro i hi
    exact (mem_unwanted.1 hi).2 hw
  · rw [if_neg hw]
    cases hl : slots.live.get? slice with
    | none =>
      rw [hunbound]
      · rfl
      · intro i hi
        exact absurd ((mem_unwanted.1 hi).1.symm.trans hl) nofun
    | some i =>
      rw [hbound i (mem_unwanted.2 ⟨hl, hw⟩)]
      rfl

end Slots

/-! ## The ways a call on the host can go on -/

/-- What a step of a call on the host leaves: the slots, where the call stands or how it ended, and the slice of
a new workspace. -/
structure HostStep where
  slots : Slots
  onward : Onward HostCall (Except SyncError HostAnswer)
  made : Option Slice := none

/-- The task a request has for the slots, given the active slice. -/
def HostRequest.task (active : Option Slice) : HostRequest → Except SyncError SlotTask
  | .setSlices slices => .ok (.reconcile (Slice.sortedSet slices) .unload)
  | .activate slices slice => .ok (.reconcile (Slice.sortedSet (slices ++ [slice])) .activeConfigurationChanged)
  | .handles => .ok .list
  | .activeHandle =>
    match active with
    | none => .error .noActiveWorkspace
    | some slice => .ok (.find slice)
  | .writeActive mutations attempts =>
    if attempts = 0 then .error .activeConfigurationChanged
    else
      match active with
      | none => .error .noActiveWorkspace
      | some slice => .ok (.target slice mutations attempts)
  | .shutdown => .ok .drain

/-- The slices that a request wants to be live, if it changes them, and the cause with which it retires others. -/
def HostRequest.wants : HostRequest → Option (List Slice × DisposeCause)
  | .setSlices slices => some (slices, .unload)
  | .activate slices active => some (slices ++ [active], .activeConfigurationChanged)
  | _ => none

theorem HostRequest.task_reconcile {request : HostRequest} {active : Option Slice} {wanted : List Slice}
    {cause : DisposeCause} (h : request.task active = .ok (.reconcile wanted cause)) :
    ∃ slices, request.wants = some (slices, cause) ∧ wanted = Slice.sortedSet slices := by
  unfold task at h
  cases request with
  | setSlices slices =>
    cases h
    exact ⟨_, rfl, rfl⟩
  | activate slices active =>
    cases h
    exact ⟨_, rfl, rfl⟩
  | activeHandle =>
    dsimp only at h
    split at h <;> cases h
  | writeActive mutations attempts =>
    dsimp only at h
    split at h
    · cases h
    · split at h <;> cases h
  | handles | shutdown => cases h

theorem HostRequest.task_of_wants {request : HostRequest} {slices : List Slice} {cause : DisposeCause}
    (h : request.wants = some (slices, cause)) (active : Option Slice) :
    request.task active = .ok (.reconcile (Slice.sortedSet slices) cause) := by
  cases request with
  | setSlices | activate =>
    cases h
    rfl
  | _ => cases h

theorem HostRequest.task_drain {request : HostRequest} {active : Option Slice} (h : request.task active = .ok .drain) :
    request = .shutdown := by
  unfold task at h
  cases request with
  | shutdown => rfl
  | activeHandle =>
    dsimp only at h
    split at h <;> cases h
  | writeActive mutations attempts =>
    dsimp only at h
    split at h
    · cases h
    · split at h <;> cases h
  | setSlices | activate | handles => cases h

/-- Whether a task only looks at the slots. -/
def SlotTask.looks : SlotTask → Bool
  | .list | .find _ | .target .. => true
  | _ => false

/-- What comes of a task once the slots are locked. -/
inductive SlotTask.Performs (slots : Slots) : SlotTask → HostStep → Prop
  | reconciles {wanted : List Slice} {cause : DisposeCause} :
      Performs slots (.reconcile wanted cause)
        ⟨slots.retire wanted cause, .going (.creating { wanted, retired := (slots.unwanted wanted).map (·.2), cause }),
          none⟩
  /-- The slot is free if it is the workspace's own. -/
  | forgets {i : Nat} {cause : DisposeCause} {retired : List Nat} {error : Option SyncError}
      {retiring : Listing Slice Retiring}
      (h : retiring = slots.retiring ∨
        ∃ slice cause, slots.retiring.get? slice = some ⟨i, cause⟩ ∧ retiring = slots.retiring.erase slice) :
      Performs slots (.forget i cause retired error)
        ⟨{ slots with retiring, lock := slots.lock.release },
          .going (.retiring { wanted := [], retired, cause, error }), none⟩
  | answers {task : SlotTask} {result : Except SyncError HostAnswer} (ht : task.looks = true) :
      Performs slots task ⟨{ slots with lock := slots.lock.release }, .done result, none⟩
  | targets {slice : Slice} {mutations : List Mutation} {attempts i : Nat} :
      Performs slots (.target slice mutations attempts)
        ⟨{ slots with lock := slots.lock.release },
          .going (.writing mutations attempts i (.start (.write mutations))), none⟩
  | drains :
      Performs slots .drain
        ⟨{ slots with live := ∅, lock := slots.lock.release }, .going (.draining slots.live.values), none⟩

namespace HostCall

/-- The slices that a call is going to want once it has the slots, with the cause with which it retires others. -/
def demands : HostCall → Option (List Slice × DisposeCause)
  | .starting request => request.wants
  | .queued (.reconcile wanted cause) => some (wanted, cause)
  | _ => none

/-- Whether a call empties the slots. -/
def drains : HostCall → Bool
  | .starting .shutdown | .queued .drain | .draining _ | .closing .. => true
  | _ => false

/-- The calls that turn to the slots, each with its task. -/
inductive Asks (w : World) (env : Environment) (me : JobId) : HostCall → SlotTask → Prop
  | starts {request : HostRequest} {task : SlotTask}
      (h : request.task w.session.active.configuration = .ok task) : Asks w env me (.starting request) task
  | returns {r : Reconciliation} {i : Nat} {retirement : Retirement} {exit : Option DriverExit}
      (h : (w.advanceRetirement env me i retirement).2 = .done exit) :
      Asks w env me (.disposing r i retirement) (.forget i r.cause r.retired r.error)

/-- The calls for which nothing is in the way of a new workspace for a slice, with what is left to do. -/
inductive Clears (w : World) (env : Environment) (me : JobId) : HostCall → Slice → Reconciliation → Prop
  | vacant {r : Reconciliation} {slice : Slice} {rest : List Slice} (hw : r.wanted = slice :: rest)
      (hl : w.slots.live.get? slice = none) (hr : w.slots.retiring.get? slice = none) :
      Clears w env me (.creating r) slice { r with wanted := rest }
  | evicted {r : Reconciliation} {slice : Slice} {i : Nat} {call : Call} {result : Except SyncError Answer}
      (h : (w.advanceCall env me i call).2 = .done result) : Clears w env me (.evicting r slice i call) slice r

/-- The calls that go on without the slots. -/
inductive Walks (w : World) (env : Environment) (me : JobId) : HostCall → HostCall → Prop
  | evicting {r : Reconciliation} {slice : Slice} {i : Nat} {call call' : Call}
      (h : (w.advanceCall env me i call).2 = .going call') :
      Walks w env me (.evicting r slice i call) (.evicting r slice i call')
  | disposes {r : Reconciliation} {i : Nat} {rest : List Nat} (hr : r.retired = i :: rest) :
      Walks w env me (.retiring r) (.disposing { r with retired := rest } i (World.beginRetirement r.cause))
  | disposing {r : Reconciliation} {i : Nat} {retirement retirement' : Retirement}
      (h : (w.advanceRetirement env me i retirement).2 = .going retirement') :
      Walks w env me (.disposing r i retirement) (.disposing r i retirement')
  | writing {mutations : List Mutation} {attempts i : Nat} {call call' : Call}
      (h : (w.advanceCall env me i call).2 = .going call') :
      Walks w env me (.writing mutations attempts i call) (.writing mutations attempts i call')
  | rewrites {mutations : List Mutation} {attempts i : Nat} {call : Call} {error : SyncError}
      (h : (w.advanceCall env me i call).2 = .done (.error error)) :
      Walks w env me (.writing mutations attempts i call) (.starting (.writeActive mutations (attempts - 1)))
  | closes {i : Nat} {rest : List Nat} :
      Walks w env me (.draining (i :: rest)) (.closing rest i (World.beginRetirement .unload))
  | closing {rest : List Nat} {i : Nat} {retirement retirement' : Retirement}
      (h : (w.advanceRetirement env me i retirement).2 = .going retirement') :
      Walks w env me (.closing rest i retirement) (.closing rest i retirement')
  | closed {rest : List Nat} {i : Nat} {retirement : Retirement} {exit : Option DriverExit}
      (h : (w.advanceRetirement env me i retirement).2 = .done exit) :
      Walks w env me (.closing rest i retirement) (.draining rest)

/-- The calls that end without the slots, with what they answer. -/
inductive Ends (w : World) (env : Environment) (me : JobId) : HostCall → Except SyncError HostAnswer → Prop
  | refuses {request : HostRequest} {error : SyncError}
      (h : request.task w.session.active.configuration = .error error) : Ends w env me (.starting request) (.error error)
  | retired {r : Reconciliation} (hr : r.retired = []) :
      Ends w env me (.retiring r) (match r.error with
        | some error => .error error
        | none => .ok .done)
  | wrote {mutations : List Mutation} {attempts i : Nat} {call : Call} {answer : Except SyncError Answer}
      {result : Except SyncError HostAnswer} (h : (w.advanceCall env me i call).2 = .done answer) :
      Ends w env me (.writing mutations attempts i call) result
  | drained : Ends w env me (.draining []) (.ok .done)

/-- The ways a call on the host can go on. -/
inductive Paths (w : World) (env : Environment) (me : JobId) : HostCall → HostStep → Prop
  | queues {c : HostCall} {task : SlotTask} {other : JobId} (ha : c.Asks w env me task)
      (hl : w.slots.lock.holder = some other) :
      Paths w env me c
        ⟨{ w.slots with lock := { w.slots.lock with waiting := w.slots.lock.waiting ++ [me] } },
          .going (.queued task), none⟩
  | waits {task : SlotTask} (hl : w.slots.lock.holder ≠ some me) :
      Paths w env me (.queued task) ⟨w.slots, .going (.queued task), none⟩
  /-- The slots were free, or have been passed to the call. -/
  | performs {c : HostCall} {task : SlotTask} {slots : Slots} {step : HostStep}
      (hs : c.Asks w env me task ∧ w.slots.lock.holder = none ∧
          slots = { w.slots with lock := { w.slots.lock with holder := some me } } ∨
        c = .queued task ∧ w.slots.lock.holder = some me ∧ slots = w.slots)
      (hp : task.Performs slots step) : Paths w env me c step
  | settles {r : Reconciliation} (hw : r.wanted = []) :
      Paths w env me (.creating r) ⟨{ w.slots with lock := w.slots.lock.release }, .going (.retiring r), none⟩
  | keeps {r : Reconciliation} {slice : Slice} {rest : List Slice} (hw : r.wanted = slice :: rest)
      (hl : (w.slots.live.get? slice).isSome) :
      Paths w env me (.creating r) ⟨w.slots, .going (.creating { r with wanted := rest }), none⟩
  | evicts {r : Reconciliation} {slice : Slice} {rest : List Slice} {old : Retiring} (hw : r.wanted = slice :: rest)
      (hl : w.slots.live.get? slice = none) (hr : w.slots.retiring.get? slice = some old) :
      Paths w env me (.creating r)
        ⟨{ w.slots with retiring := w.slots.retiring.erase slice },
          .going (.evicting { r with wanted := rest } slice old.workspace (.start (.dispose old.cause))), none⟩
  | makes {c : HostCall} {slice : Slice} {r : Reconciliation} (hc : c.Clears w env me slice r) :
      Paths w env me c
        ⟨{ w.slots with live := w.slots.live.insert slice w.hosted.length }, .going (.creating r), some slice⟩
  | misses {c : HostCall} {slice : Slice} {r : Reconciliation} {error : SyncError} (hc : c.Clears w env me slice r)
      (he : ¬(env.scheduling = true ∧ env.unsubscribed slice = none)) :
      Paths w env me c ⟨w.slots, .going (.creating { r with error := r.error.or (some error) }), none⟩
  | walks {c c' : HostCall} (hc : c.Walks w env me c') : Paths w env me c ⟨w.slots, .going c', none⟩
  | ends {c : HostCall} {result : Except SyncError HostAnswer} (hc : c.Ends w env me result) :
      Paths w env me c ⟨w.slots, .done result, none⟩

section Steps

variable {w : World} {env : Environment} {me : JobId} {c : HostCall} {step : HostStep} {task : SlotTask}
  {slices wanted : List Slice} {cause : DisposeCause}

theorem Asks.calm (h : c.Asks w env me task) (hd : c.drains = false) : task ≠ .drain := by
  rintro rfl
  cases h with
  | starts ht =>
    rw [HostRequest.task_drain ht] at hd
    cases hd

/-- A call that reconciles has slices that it wants. -/
theorem Asks.demands (h : c.Asks w env me (.reconcile wanted cause)) :
    ∃ slices, c.demands = some (slices, cause) ∧ ∀ s, s ∈ wanted ↔ s ∈ slices := by
  cases h with
  | starts ht =>
    obtain ⟨slices, hs, rfl⟩ := HostRequest.task_reconcile ht
    exact ⟨slices, hs, fun _ => Slice.mem_sortedSet⟩

/-- A call that has slices that it wants reconciles. -/
theorem Asks.of_demands (h : c.Asks w env me task) (hd : c.demands = some (slices, cause)) :
    ∃ wanted, task = .reconcile wanted cause ∧ ∀ s, s ∈ wanted ↔ s ∈ slices := by
  cases h with
  | starts ht =>
    cases (HostRequest.task_of_wants hd _).symm.trans ht
    exact ⟨_, rfl, fun _ => Slice.mem_sortedSet⟩
  | returns => cases hd

/-- Whoever does not empty the slots goes on to what does not. -/
theorem Paths.calm (h : c.Paths w env me step) (hd : c.drains = false) {c' : HostCall}
    (hn : step.onward = .going c') : c'.drains = false := by
  cases h with
  | queues ha hl =>
    cases hn
    have ht := ha.calm hd
    rename_i task _
    cases task <;> first | rfl | exact absurd rfl ht
  | waits hl =>
    cases hn
    exact hd
  | performs hs hp =>
    cases hp with
    | drains =>
      rcases hs with ⟨ha, -⟩ | ⟨rfl, -⟩
      · exact absurd rfl (ha.calm hd)
      · cases hd
    | _ =>
      cases hn
      try rfl
  | settles | keeps | evicts | makes | misses =>
    cases hn
    rfl
  | walks hw =>
    cases hn
    cases hw with
    | closes | closing | closed => cases hd
    | _ => rfl
  | ends => cases hn

end Steps

end HostCall

namespace World

variable {w w' : World} {env : Environment} {me : JobId} {c : HostCall}

/-- What came of a step on the host is as the step says: the slots, the call, and the new workspace in the next
place. -/
structure Comes (w : World) (r : World × Onward HostCall (Except SyncError HostAnswer)) (step : HostStep) : Prop where
  slots : r.1.slots = step.slots
  onward : r.2 = step.onward
  outcomes : r.1.outcomes = w.outcomes
  places : r.1.hosted.length = w.hosted.length + step.made.toList.length
  made : ∀ slice, step.made = some slice → r.1.workspace? w.hosted.length = some { slice }

theorem Spares.comes (h : Spares w w') (slots : Slots) (onward : Onward HostCall (Except SyncError HostAnswer)) :
    Comes w ({ w' with slots }, onward) ⟨slots, onward, none⟩ :=
  ⟨rfl, rfl, h.outcomes, h.places, nofun⟩

theorem Spares.goes (h : Spares w w') (onward : Onward HostCall (Except SyncError HostAnswer)) :
    Comes w (w', onward) ⟨w.slots, onward, none⟩ :=
  ⟨h.slots, rfl, h.outcomes, h.places, nofun⟩

/-- A task on locked slots. -/
theorem performSlotTask_performs (w : World) (task : SlotTask) :
    ∃ step, task.Performs w.slots step ∧ Comes w (w.performSlotTask task) step := by
  cases task with
  | reconcile wanted cause => exact ⟨_, .reconciles, (Spares.refl w).comes _ _⟩
  | forget i cause retired error =>
    have hforget : ∃ retiring, (w.forgetRetired i) = { w with slots := { w.slots with retiring } } ∧
        (retiring = w.slots.retiring ∨
          ∃ slice cause, w.slots.retiring.get? slice = some ⟨i, cause⟩ ∧ retiring = w.slots.retiring.erase slice) := by
      unfold forgetRetired
      split
      · exact ⟨_, rfl, .inl rfl⟩
      · split
        · rename_i ws _ _ old hold
          split
          · rename_i hi
            refine ⟨_, rfl, .inr ⟨ws.slice, old.cause, ?_, rfl⟩⟩
            rw [hold, ← hi]
          · exact ⟨_, rfl, .inl rfl⟩
        · exact ⟨_, rfl, .inl rfl⟩
    obtain ⟨retiring, heq, hretiring⟩ := hforget
    refine ⟨_, .forgets hretiring, ?_⟩
    unfold performSlotTask
    simp only [heq]
    exact (Spares.refl w).comes _ _
  | list => exact ⟨_, .answers rfl, (Spares.refl w).comes _ _⟩
  | find slice => exact ⟨_, .answers rfl, (Spares.refl w).comes _ _⟩
  | target slice mutations attempts =>
    unfold performSlotTask
    dsimp only
    split
    · exact ⟨_, .targets, (Spares.refl w).comes _ _⟩
    · exact ⟨_, .answers rfl, (Spares.refl w).comes _ _⟩
  | drain => exact ⟨_, .drains, (Spares.refl w).comes _ _⟩

/-- A call that turns to the slots performs its task at once or queues. -/
theorem askSlots_paths {w' : World} {task : SlotTask} (ha : c.Asks w env me task) (hs : Spares w w') :
    ∃ step, c.Paths w env me step ∧ Comes w (w'.askSlots me task) step := by
  unfold askSlots
  rw [hs.slots]
  cases hl : w.slots.lock.holder with
  | none =>
    have hrequest : w.slots.lock.request me = { w.slots.lock with holder := some me } := by
      simp [Lock.request, hl]
    rw [hrequest]
    simp only [Option.isNone_none, if_true]
    obtain ⟨step, hp, hc⟩ := performSlotTask_performs
      { w' with slots := { w.slots with lock := { w.slots.lock with holder := some me } } } task
    have hplaces : Comes w _ step := ⟨hc.slots, hc.onward, hc.outcomes.trans hs.outcomes, by
      rw [hc.places, hs.places], fun slice hslice => hs.places ▸ hc.made slice hslice⟩
    exact ⟨step, .performs (.inl ⟨ha, hl, rfl⟩) hp, hplaces⟩
  | some other =>
    have hrequest : w.slots.lock.request me = { w.slots.lock with waiting := w.slots.lock.waiting ++ [me] } := by
      simp [Lock.request, hl]
    rw [hrequest]
    simp only [Option.isNone_some, Bool.false_eq_true, if_false]
    exact ⟨_, .queues ha hl, hs.comes _ _⟩

/-- The beginning of a call turns to the slots, if the request has a task for them. -/
theorem startHost_paths (w : World) (env : Environment) (me : JobId) (request : HostRequest) :
    ∃ step, (HostCall.starting request).Paths w env me step ∧ Comes w (w.startHost me request) step := by
  have asks {task : SlotTask} (h : request.task w.session.active.configuration = .ok task) {w' : World}
      (hs : Spares w w') :
      ∃ step, (HostCall.starting request).Paths w env me step ∧ Comes w (w'.askSlots me task) step :=
    askSlots_paths (.starts h) hs
  have refuses {error : SyncError} (h : request.task w.session.active.configuration = .error error) :
      ∃ step, (HostCall.starting request).Paths w env me step ∧ Comes w (w, .done (.error error)) step :=
    ⟨_, .ends (.refuses h), (Spares.refl w).comes _ _⟩
  cases request with
  | setSlices slices => exact asks rfl (.refl w)
  | activate slices active => exact asks rfl ⟨rfl, rfl, rfl⟩
  | handles => exact asks rfl (.refl w)
  | activeHandle =>
    unfold startHost
    dsimp only
    split
    · rename_i ha
      exact refuses (by simp [HostRequest.task, ha])
    · rename_i ha
      exact asks (by simp [HostRequest.task, ha]) (.refl w)
  | writeActive mutations attempts =>
    unfold startHost
    dsimp only
    split
    · rename_i hn
      exact refuses (by simp [HostRequest.task, hn])
    · rename_i hn
      split
      · rename_i ha
        exact refuses (by simp [HostRequest.task, hn, ha])
      · rename_i ha
        exact asks (by simp [HostRequest.task, hn, ha]) (.refl w)
  | shutdown => exact asks rfl (.refl w)

/-- A workspace is created in the next place, unless subscriptions fail. -/
theorem createHosted_cases (w : World) (env : Environment) (slice : Slice) :
    (∃ error, w.createHosted env slice = (w, .error error) ∧
      ¬(env.scheduling = true ∧ env.unsubscribed slice = none)) ∨
    ∃ w', w.createHosted env slice = (w', .ok w.hosted.length) ∧ w'.slots = w.slots ∧
      w'.outcomes = w.outcomes ∧ w'.hosted = w.hosted ++ [{ workspace := { slice } }] := by
  unfold createHosted
  by_cases hs : env.scheduling = true
  · cases hu : env.unsubscribed slice with
    | some message =>
      left
      simp [hs]
    | none =>
      right
      simp [hs, addWorkspace, spawn]
  · left
    simp [hs]

/-- Where nothing is in the way a workspace is made, or the error noted. -/
theorem createWanted_paths {w' : World} {slice : Slice} {r : Reconciliation} (hc : c.Clears w env me slice r)
    (hs : Spares w w') : ∃ step, c.Paths w env me step ∧ Comes w (w'.createWanted env r slice) step := by
  unfold createWanted
  rcases w'.createHosted_cases env slice with ⟨error, heq, hfails⟩ | ⟨w'', heq, hslots, houtcomes, hhosted⟩
  · rw [heq]
    exact ⟨_, .misses hc hfails, hs.goes _⟩
  · rw [heq]
    refine ⟨_, .makes hc, ?_, rfl, houtcomes.trans hs.outcomes, ?_, ?_⟩
    · simp [hslots, hs.slots, hs.places]
    · simp [hhosted, hs.places]
    · intro made hmade
      cases hmade
      simp [workspace?, hhosted, ← hs.places]

/-- A step of a call on the host goes one of the ways. -/
theorem advanceHost_paths (w : World) (env : Environment) (me : JobId) (c : HostCall) :
    ∃ step, c.Paths w env me step ∧ Comes w (w.advanceHost env me c) step := by
  cases c with
  | starting request => exact startHost_paths w env me request
  | queued task =>
    unfold advanceHost Lock.isHeldBy
    dsimp only
    by_cases hl : w.slots.lock.holder = some me
    · obtain ⟨step, hp, hc⟩ := w.performSlotTask_performs task
      simp only [hl, decide_true, if_true]
      exact ⟨step, .performs (.inr ⟨rfl, hl, rfl⟩) hp, hc⟩
    · simp only [hl, decide_false, Bool.false_eq_true, if_false]
      exact ⟨_, .waits hl, (Spares.refl w).comes _ _⟩
  | creating r =>
    unfold advanceHost
    dsimp only
    cases hw : r.wanted with
    | nil => exact ⟨_, .settles hw, (Spares.refl w).comes _ _⟩
    | cons slice rest =>
      dsimp only
      by_cases hl : w.slots.live.contains slice = true
      · rw [if_pos hl]
        exact ⟨_, .keeps hw hl, (Spares.refl w).comes _ _⟩
      · rw [if_neg hl]
        have hnone : w.slots.live.get? slice = none := by simpa [Listing.contains] using hl
        cases hr : w.slots.retiring.get? slice with
        | some old => exact ⟨_, .evicts hw hnone hr, (Spares.refl w).comes _ _⟩
        | none => exact createWanted_paths (.vacant hw hnone hr) (.refl w)
  | evicting r slice i call =>
    have hs := w.advanceCall_spares env me i call
    unfold advanceHost
    dsimp only
    cases hcall : w.advanceCall env me i call with
    | mk w' onward =>
      have hgo : (w.advanceCall env me i call).2 = onward := by rw [hcall]
      rw [hcall] at hs
      cases onward with
      | going call' => exact ⟨_, .walks (.evicting hgo), hs.goes _⟩
      | done result => exact createWanted_paths (.evicted hgo) hs
  | retiring r =>
    unfold advanceHost
    dsimp only
    cases hr : r.retired with
    | nil => exact ⟨_, .ends (.retired hr), (Spares.refl w).comes _ _⟩
    | cons i rest => exact ⟨_, .walks (.disposes hr), (Spares.refl w).comes _ _⟩
  | disposing r i retirement =>
    have hs := w.advanceRetirement_spares env me i retirement
    unfold advanceHost
    dsimp only
    cases hret : w.advanceRetirement env me i retirement with
    | mk w' onward =>
      have hgo : (w.advanceRetirement env me i retirement).2 = onward := by rw [hret]
      rw [hret] at hs
      cases onward with
      | going retirement' => exact ⟨_, .walks (.disposing hgo), hs.goes _⟩
      | done exit => exact askSlots_paths (.returns hgo) hs
  | writing mutations attempts i call =>
    have hs := w.advanceCall_spares env me i call
    unfold advanceHost
    dsimp only
    cases hcall : w.advanceCall env me i call with
    | mk w' onward =>
      have hgo : (w.advanceCall env me i call).2 = onward := by rw [hcall]
      rw [hcall] at hs
      have ends (result : Except SyncError HostAnswer) {answer : Except SyncError Answer}
          (h : onward = .done answer) :
          ∃ step, (HostCall.writing mutations attempts i call).Paths w env me step ∧ Comes w (w', .done result) step :=
        ⟨_, .ends (.wrote (hgo.trans h)), hs.goes _⟩
      obtain call' | (error | answer) := onward
      · exact ⟨_, .walks (.writing hgo), hs.goes _⟩
      · dsimp only
        split
        · exact ⟨_, .walks (.rewrites hgo), hs.goes _⟩
        · exact ends _ rfl
      · cases answer <;> exact ends _ rfl
  | draining rest =>
    cases rest with
    | nil => exact ⟨_, .ends .drained, (Spares.refl w).comes _ _⟩
    | cons i rest => exact ⟨_, .walks .closes, (Spares.refl w).comes _ _⟩
  | closing rest i retirement =>
    have hs := w.advanceRetirement_spares env me i retirement
    unfold advanceHost
    dsimp only
    cases hret : w.advanceRetirement env me i retirement with
    | mk w' onward =>
      have hgo : (w.advanceRetirement env me i retirement).2 = onward := by rw [hret]
      rw [hret] at hs
      cases onward with
      | going retirement' => exact ⟨_, .walks (.closing hgo), hs.goes _⟩
      | done exit => exact ⟨_, .walks (.closed hgo), hs.goes _⟩

/-! ## What every act does to the host -/

end World

/-- The call on the host that a job is. -/
def Job.host? : Job → Option HostCall
  | .host c => some c
  | _ => none

namespace World

variable {t : Terms} {w w' : World} {env : Environment} {me : JobId} {c : HostCall} {job : Job}

/-- Where the call on the host stands that a job is. -/
def hostAt (w : World) (me : JobId) : Option HostCall := (w.job? me).bind Job.host?

theorem hostAt_eq (w : World) : w.hostAt = (Option.bind · Job.host?) ∘ w.job? := rfl

theorem hostAt_eq_some_iff : w.hostAt me = some c ↔ w.job? me = some (.host c) := by
  unfold hostAt
  cases w.job? me with
  | none => simp
  | some job => cases job <;> simp [Job.host?]

theorem hostAt_fresh (hf : ∀ e ∈ w.jobs, e.1 < w.nextJob) : w.hostAt w.nextJob = none := by
  simp [hostAt, job?_fresh hf]

theorem hostAt_spawn (hf : ∀ e ∈ w.jobs, e.1 < w.nextJob) (job : Job) :
    (w.spawn job).hostAt = Function.update w.hostAt w.nextJob job.host? := by
  rw [hostAt_eq, job?_spawn hf, Function.comp_update, ← hostAt_eq]
  rfl

/-- New drivers are no calls on the host. -/
theorem Grows.hostAt (h : Grows w w') (hf : ∀ e ∈ w.jobs, e.1 < w.nextJob) : w'.hostAt = w.hostAt := by
  rcases h.job?_cases hf with ⟨hj, -⟩ | ⟨d, -, -, hj⟩
  · rw [hostAt_eq, hj, ← hostAt_eq]
  · rw [hostAt_eq, hj, Function.comp_update, ← hostAt_eq]
    exact Function.update_eq_self_iff.2 (hostAt_fresh hf).symm

theorem hostAt_advance (hk : w.Keeps t) (he : t.fits env) (hj : w.job? me = some job) :
    (w.advance env me).hostAt =
      Function.update w.hostAt me ((w.advanceJob env me job).2.state?.bind Job.host?) := by
  rw [hostAt_eq, job?_advance hk he hj, Function.comp_update, ← hostAt_eq,
    (advanceJob_grows hk he hj).hostAt hk.fresh]

/-- A job that is no call on the host touches nothing of it, and becomes none. -/
theorem advanceJob_spares (w : World) (env : Environment) (me : JobId) (hj : job.host? = none) :
    Spares w (w.advanceJob env me job).1 ∧ (w.advanceJob env me job).2.state?.bind Job.host? = none := by
  -- what goes on is a job of the same kind
  have none_of {α ρ : Type} {f : α → Job} {g : ρ → Outcome} (o : Onward α ρ) (hf : ∀ state, (f state).host? = none) :
      (o.bimap f g).state?.bind Job.host? = none := by
    simp [Onward.state?_bimap, hf]
  cases job with
  | call i c =>
    rw [advanceJob_call]
    exact ⟨w.advanceCall_spares env me i c, none_of _ fun _ => rfl⟩
  | retire i r =>
    rw [advanceJob_retire]
    exact ⟨w.advanceRetirement_spares env me i r, none_of _ fun _ => rfl⟩
  | drive d =>
    rw [advanceJob_drive]
    exact ⟨w.advanceDriver_spares env me d, none_of _ fun _ => rfl⟩
  | send s =>
    rw [advanceJob_send]
    exact ⟨w.advanceSending_spares me s, none_of _ fun _ => rfl⟩
  | host c => cases hj

/-- The places that jobs fill by an act: what the host makes. -/
def makes (w : World) : Act → List Nat
  | .advance env me => if w.hosted.length < (w.advance env me).hosted.length then [w.hosted.length] else []
  | _ => []

/-- The places that the host has filled during some acts, in order. -/
def madeFrom (w : World) : List Act → List Nat
  | [] => []
  | a :: rest => w.makes a ++ madeFrom (w.perform a) rest

/-- The places of the workspaces that the host has made. -/
def made (setup : Setup) (acts : List Act) : List Nat := madeFrom (.initial setup) acts

/-- The ways an act can touch the host. -/
inductive HostMove (w : World) : Act → World → Prop
  | rests {a : Act} {w' : World} (slots : w'.slots = w.slots) (calls : w'.hostAt = w.hostAt)
      (makes : w.makes a = []) : HostMove w a w'
  /-- A call begins under a new number. -/
  | begins {request : HostRequest} {w' : World} (hn : w.hostAt w.nextJob = none) (slots : w'.slots = w.slots)
      (calls : w'.hostAt = Function.update w.hostAt w.nextJob (some (.starting request))) :
      HostMove w (.host request) w'
  /-- A call takes a step. -/
  | goes {env : Environment} {me : JobId} {c : HostCall} {step : HostStep} {w' : World} (hc : w.hostAt me = some c)
      (hp : c.Paths w env me step) (slots : w'.slots = step.slots) (onward : (w.advanceHost env me c).2 = step.onward)
      (calls : w'.hostAt = Function.update w.hostAt me step.onward.state?)
      (makes : w.makes (.advance env me) = step.made.toList.map fun _ => w.hosted.length)
      (here : ∀ slice, step.made = some slice → w'.workspace? w.hosted.length = some { slice }) :
      HostMove w (.advance env me) w'

/-- What a step of a call on the host leaves. -/
theorem advance_host (hk : w.Keeps t) (he : t.fits env) (hc : w.hostAt me = some c) :
    ∃ step, c.Paths w env me step ∧ (w.advance env me).slots = step.slots ∧
      (w.advanceHost env me c).2 = step.onward ∧
      (w.advance env me).hostAt = Function.update w.hostAt me step.onward.state? ∧
      (w.advance env me).hosted.length = w.hosted.length + step.made.toList.length ∧
      ∀ slice, step.made = some slice → (w.advance env me).workspace? w.hosted.length = some { slice } := by
  have hj := hostAt_eq_some_iff.1 hc
  have hcalls := hostAt_advance hk he hj
  obtain ⟨step, hp, hcomes⟩ := advanceHost_paths w env me c
  refine ⟨step, hp, ?_⟩
  rw [hcalls, and_left_comm]
  refine ⟨hcomes.onward, ?_⟩
  rw [← hcomes.onward]
  obtain ⟨jobs, outcomes, hadvance⟩ := advance_eq env hj
  rw [hadvance, advanceJob_host, Onward.state?_bimap]
  refine ⟨hcomes.slots, ?_, hcomes.places, hcomes.made⟩
  simp [Option.bind_map, Function.comp_def, Job.host?]

/-- A step of a job that is no call on the host. -/
theorem advance_aside (hk : w.Keeps t) (he : t.fits env) (hc : w.hostAt me = none) :
    (w.advance env me).slots = w.slots ∧ (w.advance env me).hostAt = w.hostAt ∧
      (w.advance env me).hosted.length = w.hosted.length := by
  cases hj : w.job? me with
  | none => simp [advance, hj]
  | some job =>
    have hjob : job.host? = none := by simpa [hostAt, hj] using hc
    obtain ⟨hs, hnone⟩ := w.advanceJob_spares env me hjob
    have hcalls := hostAt_advance hk he hj
    rw [hnone, Function.update_eq_self_iff.2 hc.symm] at hcalls
    obtain ⟨jobs, outcomes, hadvance⟩ := advance_eq env hj
    refine ⟨?_, hcalls, ?_⟩
    · rw [hadvance]
      exact hs.slots
    · rw [hadvance]
      exact hs.places

/-- Every act touches the host in one of the ways. -/
theorem perform_host {a : Act} (hk : w.Keeps t) (ha : a.Within t) : HostMove w a (w.perform a) := by
  have spawns (job : Job) (hj : job.host? = none) : (w.spawn job).hostAt = w.hostAt := by
    rw [hostAt_spawn hk.fresh, hj]
    exact Function.update_eq_self_iff.2 (hostAt_fresh hk.fresh).symm
  cases a with
  | call place request => exact .rests rfl (spawns _ rfl) rfl
  | retire place cause => exact .rests rfl (spawns _ rfl) rfl
  | send pair updates => exact .rests rfl (spawns _ rfl) rfl
  | host request => exact .begins (hostAt_fresh hk.fresh) rfl (hostAt_spawn hk.fresh _)
  | create env slice =>
    have hg := (createHosted_view env hk.fresh slice).1
    refine .rests ?_ (hg.hostAt hk.fresh) rfl
    show (w.createHosted env slice).1.slots = w.slots
    rcases w.createHosted_cases env slice with ⟨error, heq, -⟩ | ⟨w', heq, hslots, -⟩
    · rw [heq]
    · rw [heq, hslots]
  | claimExit place =>
    obtain ⟨hosted, hclaim, -⟩ := w.perform_claimExit place
    rw [hclaim]
    exact .rests rfl rfl rfl
  | advance env me =>
    cases hc : w.hostAt me with
    | none =>
      obtain ⟨hslots, hcalls, hplaces⟩ := advance_aside hk ha hc
      exact .rests hslots hcalls (by simp [makes, hplaces])
    | some c =>
      obtain ⟨step, hp, hslots, honward, hcalls, hplaces, hhere⟩ := advance_host hk ha hc
      refine .goes hc hp hslots honward hcalls ?_ hhere
      cases hm : step.made <;> simp [makes, hplaces, hm]
  | _ => exact .rests rfl rfl rfl

end World

end SliceSync
