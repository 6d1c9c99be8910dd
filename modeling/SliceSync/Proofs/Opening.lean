import SliceSync.Proofs.Feeding
import SliceSync.Proofs.Outcomes
/-!
# Slices are hosted

A host that is asked for slices, with nobody else at work, makes their workspaces one after the other. Each driver waits
for its streams as soon as it has begun, so the call on the host is alone (`World.Opening.advance`) until it returns with
all of them hosted (`World.Opening.returned`).
-/

namespace SliceSync

/-! ## Slices that wait -/

/-- A pair of streams with one sender and nothing sent yet. -/
def StreamPair.silent : StreamPair := { evaluation := { senders := 1 }, build := { senders := 1 } }

namespace World

variable {w w' : World} {settings : Settings} {slices wanted : List Slice} {slice : Slice} {i : Nat} {me : JobId}

/-- A place whose driver waits for its streams, and at which nothing has happened yet. -/
structure Idle (w : World) (i : Nat) : Prop where
  driver : ∃ threshold, w.job? (i + 1) = some (.drive { workspace := i, pair := i, holdback := { threshold } })
  workspace : ∃ slice, w.workspace? i = some { slice }
  exit : w.exitOf i = none
  pair : w.source.pairs[i]? = some .silent

/-- A driver whose streams say nothing is stuck. -/
theorem Idle.canAdvance (h : w.Idle i) : w.canAdvance {} (i + 1) = false := by
  obtain ⟨threshold, hdriver⟩ := h.driver
  obtain ⟨slice, hworkspace⟩ := h.workspace
  simp [World.canAdvance, hdriver, isJobStuck, isDriverStuck, unloadOf, hworkspace, readyKind, Source.isReady, h.pair,
    StreamPair.isReady, StreamPair.silent, StreamPair.stream]

/-! ## A host with nobody else at work -/

/-- A world in which a host has made the workspaces of some slices, in their order, and in these nothing has happened
yet. -/
structure Hosts (w : World) (settings : Settings) (slices : List Slice) : Prop where
  setup : w.setup = { settings }
  capacity : w.source.capacity = max settings.updateChannelCapacity 1
  nodup : slices.Nodup
  hosted : w.hosted = slices.map fun slice => { workspace := { slice } }
  pairs : w.source.pairs = slices.map fun _ => StreamPair.silent
  live : ∀ slice i, w.slots.live.get? slice = some i ↔ slices[i]? = some slice
  retiring : w.slots.retiring = ∅
  drivers : ∀ i < slices.length, ∃ threshold,
    w.job? (i + 1) = some (.drive { workspace := i, pair := i, holdback := { threshold } })
  ids : w.session.live = []
  log : w.log = []

theorem Hosts.idle (h : w.Hosts settings slices) (hi : i < slices.length) : w.Idle i := by
  have hhosted : w.hosted[i]? = some { workspace := { slice := slices[i] } } := by
    rw [h.hosted, List.getElem?_map, List.getElem?_eq_getElem hi]
    rfl
  refine ⟨h.drivers i hi, ⟨slices[i], ?_⟩, ?_, ?_⟩
  · rw [workspace?, hhosted, Option.map_some]
  · rw [exitOf, hhosted, Option.bind_some]
  · rw [h.pairs, List.getElem?_map, List.getElem?_eq_getElem hi]
    rfl

/-- Nobody has claimed the exit of a driver yet. -/
theorem Hosts.isClaimed (h : w.Hosts settings slices) (i : Nat) : w.isClaimed i = false := by
  rw [World.isClaimed, h.hosted, List.getElem?_map]
  cases slices[i]? <;> rfl

/-- Where the host's call stands that is to make the workspaces of the wanted slices. -/
inductive Stage (w : World) (slices wanted : List Slice) : Prop
  | starts (request : HostRequest) (cause : DisposeCause) (hr : request.wants = some (wanted, cause))
      (hj : w.job? 0 = some (.host (.starting request))) (hl : w.slots.lock = {}) (hs : slices = [])
      (ho : w.outcomes = [])
  | creates (rest : List Slice) (cause : DisposeCause)
      (hj : w.job? 0 = some (.host (.creating { wanted := rest, retired := [], cause }))) (hl : w.slots.lock = ⟨some 0, []⟩)
      (hall : ∀ slice ∈ wanted, slice ∈ slices ∨ slice ∈ rest) (hrest : ∀ slice ∈ rest, slice ∈ wanted)
      (ho : w.outcomes = [])
  | retires (cause : DisposeCause) (hj : w.job? 0 = some (.host (.retiring { wanted := [], retired := [], cause })))
      (hl : w.slots.lock = {}) (hall : ∀ slice ∈ wanted, slice ∈ slices) (ho : w.outcomes = [])
  | returned (hj : w.job? 0 = none) (hl : w.slots.lock = {}) (hall : ∀ slice ∈ wanted, slice ∈ slices)
      (ho : w.outcome? 0 = some (.hosted (.ok .done)))

/-- A world in which a host makes the workspaces of the wanted slices, with nobody else at work. -/
structure Opening (w : World) (settings : Settings) (wanted slices : List Slice) : Prop extends
    w.Hosts settings slices where
  nextJob : w.nextJob = slices.length + 1
  feeds : ∀ slice, w.source.feeds.get? slice = (w.slots.live.get? slice).map ({ pair := ·, taken := true })
  among : ∀ slice ∈ slices, slice ∈ wanted
  stage : w.Stage slices wanted

/-- Nobody but the host's call can go on. -/
theorem Opening.canAdvance (h : w.Opening settings wanted slices) (hf : w.Fit) (hc : w.canAdvance {} me = true) : me = 0 := by
  cases me with
  | zero => rfl
  | succ i =>
    obtain ⟨job, hj⟩ := Option.isSome_iff_exists.1 (job?_isSome_of_canAdvance hc)
    have hlt := job?_lt hf.fresh hj
    rw [h.nextJob] at hlt
    have hi : i < slices.length := Nat.lt_of_succ_lt_succ hlt
    rw [(h.toHosts.idle hi).canAdvance] at hc
    cases hc

/-- What the host's call changes besides where it stands: the active slice and the lock. -/
theorem Opening.of_beside {v : World} {next : Option Job} (h : w.Opening settings wanted slices) (active : ActiveSlices)
    (lock : Lock)
    (hb : Beside { w with session := { w.session with active }, slots := { w.slots with lock } } v)
    (hj : v.job? = Function.update w.job? 0 next) (hs : v.Stage slices wanted) : v.Opening settings wanted slices := by
  have hother (i : Nat) : v.job? (i + 1) = w.job? (i + 1) := by
    rw [hj, Function.update_of_ne (Nat.succ_ne_zero i)]
  exact
    { setup := hb.setup.trans h.setup
      capacity := hb.source.symm ▸ h.capacity
      nodup := h.nodup
      hosted := hb.hosted.trans h.hosted
      pairs := by rw [hb.source, h.pairs]
      live := by
        rw [hb.slots]
        exact h.live
      retiring := by
        rw [hb.slots]
        exact h.retiring
      drivers := fun i hi => by
        rw [hother]
        exact h.drivers i hi
      ids := by
        rw [hb.session]
        exact h.ids
      log := hb.log.trans h.log
      nextJob := hb.nextJob.trans h.nextJob
      feeds := by
        rw [hb.source, hb.slots]
        exact h.feeds
      among := h.among
      stage := hs }

/-- With nothing live a call that changes the wanted slices begins to make their workspaces at once. -/
theorem startHost_of_free {request : HostRequest} {cause : DisposeCause} (hr : request.wants = some (wanted, cause))
    (hl : w.slots.lock = {}) (hempty : w.slots.live.toList = []) (me : JobId) :
    ∃ active, w.startHost me request =
      ({ w with session := { w.session with active }, slots := { w.slots with lock := ⟨some me, []⟩ } },
        .going (.creating { wanted := Slice.sortedSet wanted, retired := [], cause })) := by
  have asks {w' : World} (hw' : w'.slots = w.slots) : w'.askSlots me (.reconcile (Slice.sortedSet wanted) cause) =
      ({ w' with slots := { w.slots with lock := ⟨some me, []⟩ } },
        .going (.creating { wanted := Slice.sortedSet wanted, retired := [], cause })) := by
    simp [askSlots, hw', hl, Lock.request, performSlotTask, retireUnwanted, hempty]
  cases request with
  | setSlices slices =>
    cases hr
    exact ⟨w.session.active, asks rfl⟩
  | activate slices active =>
    cases hr
    exact ⟨w.session.active.setConfiguration active, asks (show (w.setActiveConfiguration active).slots = w.slots from rfl)⟩
  | _ => cases hr

/-- A workspace that is made where nobody has asked for its slice's updates. -/
theorem createHosted_of_unfed (hfeeds : w.source.feeds.get? slice = none) :
    w.createHosted {} slice =
      ({ w with
          source := (w.source.openFeed slice true).1
          hosted := w.hosted ++ [{ workspace := { slice } }]
          jobs := w.jobs ++ [(w.nextJob, .drive
            { workspace := w.hosted.length, pair := w.source.pairs.length
              holdback := { threshold := w.setup.settings.orderingBufferWarnThreshold } })]
          nextJob := w.nextJob + 1 }, .ok w.hosted.length) := by
  simp [createHosted, Environment.unsubscribed, Source.subscribe, hfeeds, Source.openFeed, addWorkspace, spawn]

/-- The host makes one more workspace. -/
theorem Opening.creates {v : World} (h : w.Opening settings wanted slices) (rest : List Slice) (cause : DisposeCause)
    (hnew : slice ∉ slices) (hwanted : slice ∈ wanted)
    (hb : Beside
      { w with
        source := (w.source.openFeed slice true).1
        hosted := w.hosted ++ [{ workspace := { slice } }]
        nextJob := w.nextJob + 1
        slots := { w.slots with live := w.slots.live.insert slice w.hosted.length } } v)
    (hj : v.job? = Function.update
      (Function.update w.job? w.nextJob (some (.drive
        { workspace := w.hosted.length, pair := w.source.pairs.length
          holdback := { threshold := w.setup.settings.orderingBufferWarnThreshold } }))) 0
      (some (.host (.creating { wanted := rest, retired := [], cause }))))
    (hl : w.slots.lock = ⟨some 0, []⟩) (hall : ∀ slice' ∈ wanted, slice' ∈ slices ∨ slice' = slice ∨ slice' ∈ rest)
    (hrest : ∀ slice ∈ rest, slice ∈ wanted) (ho : v.outcomes = []) : v.Opening settings wanted (slices ++ [slice]) := by
  have hhosted : w.hosted.length = slices.length := by rw [h.hosted, List.length_map]
  have hpairs : w.source.pairs.length = slices.length := by rw [h.pairs, List.length_map]
  have hlength : (slices ++ [slice]).length = slices.length + 1 := by simp
  have hplace (slice' : Slice) (i : Nat) : (slices ++ [slice])[i]? = some slice' ↔
      slices[i]? = some slice' ∨ i = slices.length ∧ slice' = slice := by
    rcases Nat.lt_trichotomy i slices.length with hi | rfl | hi
    · rw [List.getElem?_append_left hi]
      simp [Nat.ne_of_lt hi]
    · simp [eq_comm]
    · rw [List.getElem?_eq_none (by simpa using Nat.succ_le_of_lt hi), List.getElem?_eq_none (Nat.le_of_lt hi)]
      simp [Nat.ne_of_gt hi]
  have hunlisted (i : Nat) : slices[i]? ≠ some slice := fun hi => hnew (List.mem_of_getElem? hi)
  have hlive (slice' : Slice) :
      v.slots.live.get? slice' = if slice = slice' then some slices.length else w.slots.live.get? slice' := by
    rw [hb.slots, Listing.get?_insert, hhosted]
  exact
    { setup := hb.setup.trans h.setup
      capacity := hb.source.symm ▸ h.capacity
      nodup := by simpa [List.nodup_append, h.nodup] using fun a ha (he : a = slice) => hnew (he ▸ ha)
      hosted := by rw [hb.hosted, h.hosted, List.map_append, List.map_singleton]
      pairs := by
        rw [hb.source, Source.openFeed, h.pairs, List.map_append, List.map_singleton]
        rfl
      live := by
        intro slice' i
        rw [hlive, hplace]
        by_cases hs : slice = slice'
        · subst hs
          simp [hunlisted, eq_comm]
        · simp [hs, Ne.symm hs, h.live]
      retiring := by
        rw [hb.slots]
        exact h.retiring
      drivers := fun i hi => by
        rw [hj, Function.update_of_ne (Nat.succ_ne_zero i)]
        rw [hlength] at hi
        by_cases hlast : i = slices.length
        · subst hlast
          rw [h.nextJob, Function.update_self, hhosted, hpairs]
          exact ⟨_, rfl⟩
        · rw [h.nextJob, Function.update_of_ne (fun heq => hlast (Nat.succ.inj heq))]
          exact h.drivers i (Nat.lt_of_le_of_ne (Nat.le_of_lt_succ hi) hlast)
      ids := by
        rw [hb.session]
        exact h.ids
      log := hb.log.trans h.log
      nextJob := by rw [hb.nextJob, hlength, h.nextJob]
      feeds := by
        intro slice'
        rw [hlive, hb.source, Source.openFeed, Listing.get?_insert, hpairs, h.feeds]
        split <;> rfl
      among := by
        intro slice' hslice'
        rcases List.mem_append.1 hslice' with hslice' | hslice'
        · exact h.among slice' hslice'
        · rwa [List.mem_singleton.1 hslice']
      stage := by
        have hself : v.job? 0 = some (.host (.creating { wanted := rest, retired := [], cause })) := by
          rw [hj, Function.update_self]
        refine .creates rest cause hself ?_ (fun slice' hslice' => ?_) hrest ho
        · rw [hb.slots]
          exact hl
        · rcases hall slice' hslice' with h | h | h
          · exact .inl (List.mem_append_left _ h)
          · exact .inl (h ▸ List.mem_append_right _ (List.mem_singleton.2 rfl))
          · exact .inr h }

/-- A step of a call on the host that goes on. -/
theorem advance_host_going {env : Environment} {c c' : HostCall} (hf : w.Fit) (hj : w.job? me = some (.host c))
    (ha : w.advanceHost env me c = (w', .going c')) :
    Beside w' (w.advance env me) ∧ (w.advance env me).job? = Function.update w'.job? me (some (.host c')) ∧
      (w.advance env me).outcomes = w.outcomes := by
  have hnext : w.advanceJob env me (.host c) = (w', .going (.host c')) := by
    simp only [advanceJob, ha]
  obtain ⟨hb, hjob⟩ := advance_beside hf hj hnext
  have houtcomes := outcomes_advance env hj
  rw [hnext] at houtcomes
  exact ⟨hb, hjob, houtcomes.trans (List.append_nil _)⟩

/-- The last step of a call on the host. -/
theorem advance_host_done {env : Environment} {c : HostCall} {result : Except SyncError HostAnswer} (hf : w.Fit)
    (hj : w.job? me = some (.host c)) (ha : w.advanceHost env me c = (w', .done result)) :
    Beside w' (w.advance env me) ∧ (w.advance env me).job? = Function.update w'.job? me none ∧
      (w.advance env me).outcomes = w.outcomes ++ [(me, .hosted result)] := by
  have hnext : w.advanceJob env me (.host c) = (w', .done (.hosted result)) := by
    simp only [advanceJob, ha]
  obtain ⟨hb, hjob⟩ := advance_beside hf hj hnext
  have houtcomes := outcomes_advance env hj
  rw [hnext] at houtcomes
  exact ⟨hb, hjob, houtcomes⟩

/-- A step of the host's call. -/
theorem Opening.advance (h : w.Opening settings wanted slices) (hf : w.Fit) :
    ∃ slices', (w.advance {} 0).Opening settings wanted slices' := by
  cases h.stage with
  | starts request cause hr hj hl hs ho =>
    have hempty : w.slots.live.toList = [] := by
      refine List.eq_nil_iff_forall_not_mem.2 fun e he => ?_
      have := (h.live e.1 e.2).1 (Listing.mem_toList_iff.1 he)
      simp [hs] at this
    obtain ⟨active, ha⟩ := startHost_of_free hr hl hempty 0
    obtain ⟨hb, hjob, hout⟩ := advance_host_going hf hj ha
    refine ⟨slices, h.of_beside active ⟨some 0, []⟩ hb hjob (.creates (Slice.sortedSet wanted) cause ?_ ?_ ?_ ?_ ?_)⟩
    · rw [hjob, Function.update_self]
    · rw [hb.slots]
    · exact fun slice hslice => .inr (Slice.mem_sortedSet.2 hslice)
    · exact fun slice hslice => Slice.mem_sortedSet.1 hslice
    · rw [hout, ho]
  | creates rest cause hj hl hall hrest ho =>
    cases rest with
    | nil =>
      have ha : w.advanceHost {} 0 (.creating { wanted := [], retired := [], cause }) =
          (w.unlockSlots, .going (.retiring { wanted := [], retired := [], cause })) := rfl
      obtain ⟨hb, hjob, hout⟩ := advance_host_going hf hj ha
      refine ⟨slices, h.of_beside w.session.active w.slots.lock.release hb hjob
        (.retires cause ?_ ?_ ?_ ?_)⟩
      · rw [hjob, Function.update_self]
      · rw [hb.slots, unlockSlots, hl]
        rfl
      · exact fun slice hslice => (hall slice hslice).resolve_right List.not_mem_nil
      · rw [hout, ho]
    | cons slice rest =>
      have hrest' : ∀ slice ∈ rest, slice ∈ wanted := fun slice' hslice' => hrest slice' (List.mem_cons_of_mem _ hslice')
      cases hlive : w.slots.live.get? slice with
      | some i =>
        have hin : slice ∈ slices := List.mem_of_getElem? ((h.live slice i).1 hlive)
        have ha : w.advanceHost {} 0 (.creating { wanted := slice :: rest, retired := [], cause }) =
            (w, .going (.creating { wanted := rest, retired := [], cause })) := by
          simp [advanceHost, Listing.contains, hlive]
        obtain ⟨hb, hjob, hout⟩ := advance_host_going hf hj ha
        refine ⟨slices, h.of_beside w.session.active w.slots.lock hb hjob
          (.creates rest cause ?_ ?_ (fun slice' hslice' => ?_) hrest' ?_)⟩
        · rw [hjob, Function.update_self]
        · rw [hb.slots, hl]
        · rcases hall slice' hslice' with h | h
          · exact .inl h
          · rcases List.mem_cons.1 h with rfl | h
            · exact .inl hin
            · exact .inr h
        · rw [hout, ho]
      | none =>
        have hnew : slice ∉ slices := by
          intro hin
          obtain ⟨i, hi⟩ := List.mem_iff_getElem?.1 hin
          cases hlive.symm.trans ((h.live slice i).2 hi)
        have hunfed : w.source.feeds.get? slice = none := by
          rw [h.feeds, hlive]
          rfl
        have hmade := createHosted_of_unfed hunfed
        have hretiring : w.slots.retiring.get? slice = none := by rw [h.retiring, Listing.get?_empty]
        obtain ⟨w', hw', ha⟩ : ∃ w', w' = (w.createHosted {} slice).1 ∧
            w.advanceHost {} 0 (.creating { wanted := slice :: rest, retired := [], cause }) =
              ({ w' with slots := { w'.slots with live := w'.slots.live.insert slice w.hosted.length } },
                .going (.creating { wanted := rest, retired := [], cause })) := by
          refine ⟨_, rfl, ?_⟩
          simp only [advanceHost, Listing.contains, hlive, Option.isSome_none, Bool.false_eq_true, if_false, hretiring, createWanted]
          rw [hmade]
        rw [hmade] at hw'
        subst hw'
        obtain ⟨hb, hjob, hout⟩ := advance_host_going hf hj ha
        have hspawn := job?_spawn hf.fresh (.drive
          { workspace := w.hosted.length, pair := w.source.pairs.length
            holdback := { threshold := w.setup.settings.orderingBufferWarnThreshold } })
        refine ⟨slices ++ [slice], h.creates rest cause hnew (hrest slice List.mem_cons_self) ?_ ?_ hl
          (fun slice' hslice' => ?_) hrest' ?_⟩
        · exact ⟨hb.setup, hb.session, hb.hosted, hb.source, hb.slots, hb.nextJob, hb.log⟩
        · rw [hjob, ← hspawn]
          rfl
        · simpa using hall slice' hslice'
        · rw [hout, ho]
  | retires cause hj hl hall ho =>
    have ha : w.advanceHost {} 0 (.retiring { wanted := [], retired := [], cause }) = (w, .done (.ok .done)) := rfl
    obtain ⟨hb, hjob, hout⟩ := advance_host_done hf hj ha
    refine ⟨slices, h.of_beside w.session.active w.slots.lock hb hjob (.returned ?_ ?_ hall ?_)⟩
    · rw [hjob, Function.update_self]
    · rw [hb.slots, hl]
    · rw [outcome?, hout, ho]
      rfl
  | returned hj hl hall ho =>
    rw [advance_of_none hj]
    exact ⟨slices, h⟩

/-- With nobody able to go on the call has returned. -/
theorem Opening.rests (h : w.Opening settings wanted slices) (hrest : w.AtRest {}) : (w.outcome? 0).isSome := by
  cases h.stage with
  | starts _ _ _ hj => cases hrest.stuck hj
  | creates _ _ hj => cases hrest.stuck hj
  | retires _ hj => cases hrest.stuck hj
  | returned _ _ _ ho => rw [ho, Option.isSome_some]

/-- The call returns when all wanted slices are hosted. -/
theorem Opening.returned {outcome : Outcome} (h : w.Opening settings wanted slices) (ho : w.outcome? 0 = some outcome) :
    outcome = .hosted (.ok .done) ∧ w.job? 0 = none ∧ w.slots.lock = {} ∧ ∀ slice ∈ wanted, slice ∈ slices := by
  have unanswered (hnone : w.outcomes = []) : False := by simp [outcome?, hnone] at ho
  cases h.stage with
  | starts _ _ _ _ _ _ hnone => exact (unanswered hnone).elim
  | creates _ _ _ _ _ _ hnone => exact (unanswered hnone).elim
  | retires _ _ _ _ hnone => exact (unanswered hnone).elim
  | returned hj hl hall ho' => exact ⟨Option.some.inj (ho.symm.trans ho'), hj, hl, hall⟩

/-- A host that was just asked has made nothing yet. -/
theorem opening_initial (settings : Settings) {request : HostRequest} {cause : DisposeCause}
    (hr : request.wants = some (wanted, cause)) :
    ((World.initial { settings }).spawn (.host (.starting request))).Opening settings wanted [] where
  setup := rfl
  capacity := rfl
  nodup := List.nodup_nil
  hosted := rfl
  pairs := rfl
  live := fun slice i => by simp [initial, spawn]
  retiring := rfl
  drivers := nofun
  ids := rfl
  log := rfl
  nextJob := rfl
  feeds := fun slice => by simp [initial, spawn, Source.ofCapacity]
  among := nofun
  stage := .starts request cause hr rfl rfl rfl rfl

end World

/-- The slices that a scenario's host is asked for. -/
def Scenario.wanted (scenario : Scenario) : List Slice := scenario.slices ++ scenario.active.toList

/-- A replay begins with the host being asked for the wanted slices. -/
theorem Scenario.start_opening (scenario : Scenario) (settings : Settings) :
    (scenario.start settings).world.Opening settings scenario.wanted [] := by
  unfold start hostRequest wanted
  cases scenario.active with
  | none => exact World.opening_initial settings (by rw [Option.toList_none, List.append_nil]; rfl)
  | some active => exact World.opening_initial settings rfl

end SliceSync
