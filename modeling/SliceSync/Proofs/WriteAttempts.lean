import SliceSync.Proofs.Driving
import SliceSync.Proofs.Shutdowns
import SliceSync.Proofs.Writing
/-!
# Writes to the active slice

A write to the active slice is tried again while the workspace it waits for is retired by a switch of the active
configuration. However other calls come in between, its action runs at most once: an attempt that has run it is
the last one (`World.written_once`).
-/

namespace SliceSync

namespace World

/-! ## What a write has done -/

/-- How the call that a job is making ends with an act, if it does. -/
def endingsBy (w : World) (me : JobId) : Act → List Ending
  | .advance env job => if job = me then w.endings (.advance env job) else []
  | _ => []

/-- How the calls that a job has made ended during some acts, in order. -/
def endedBy (w : World) (me : JobId) : List Act → List Ending
  | [] => []
  | a :: rest => w.endingsBy me a ++ (w.perform a).endedBy me rest

theorem endedBy_concat (w : World) (me : JobId) (l : List Act) (a : Act) :
    w.endedBy me (l ++ [a]) = w.endedBy me l ++ (runFrom w l).endingsBy me a := by
  induction l generalizing w with
  | nil => simp [endedBy, runFrom]
  | cons b rest ih => simp [endedBy, ih]

/-- The action of a write ran once, in a batch of the context with this serial, which has heard this since. -/
structure Ran (w : World) (me : JobId) (mutations : List Mutation) (n : Nat) (id : ContextId)
    (since : List ContextCall) : Prop where
  once : w.runs me = 1
  batch : ∃ i before after, w.log = before ++ (Event.action n id mutations).map (⟨me, i, ·⟩) ++ after ∧
    Event.callsOf n (after.map (·.event)) = since

/-- The attempts all went to workspaces that are torn down since the active configuration has changed, and failed
with that. -/
def Superseded (w : World) (mutations : List Mutation) (tries : List Ending) : Prop :=
  ∀ e ∈ tries, e.request = .write mutations ∧ e.result = .error .activeConfigurationChanged ∧
    w.unloadOf e.place = some .activeConfigurationChanged

/-- How a write to the active slice ends after its attempts. -/
inductive WriteEnds (w : World) (me : JobId) (mutations : List Mutation) (tries : List Ending) :
    Except SyncError HostAnswer → Prop
  | written {n : Nat} {id : ContextId} {since : List ContextCall} (hr : w.Ran me mutations n id since)
      (hs : since.head? = some .endBatch) : WriteEnds w me mutations tries (.ok (.wrote id))
  | rejected {n : Nat} {id : ContextId} {since : List ContextCall} {message : String}
      (hr : w.Ran me mutations n id since) (hs : since.head? = some .endBatch) :
      WriteEnds w me mutations tries (.error (.batch message))
  | failed {error : SyncError} (hr : w.runs me = 0) (hb : error.isBatch = false)
      (ht : error = .activeConfigurationChanged → tries.length = writeAttempts ∧ w.Superseded mutations tries) :
      WriteEnds w me mutations tries (.error error)

/-- Where a write to the active slice stands after some attempts. -/
inductive WriteStands (w : World) (me : JobId) (mutations : List Mutation) (tries : List Ending) : Prop
  | starts {k : Nat} (hc : w.hostAt me = some (.starting (.writeActive mutations k)))
      (hk : tries.length + k = writeAttempts) (ht : w.Superseded mutations tries) (hr : w.runs me = 0)
  | queues {k : Nat} {slice : Slice} (hc : w.hostAt me = some (.queued (.target slice mutations (k + 1))))
      (hk : tries.length + (k + 1) = writeAttempts) (ht : w.Superseded mutations tries) (hr : w.runs me = 0)
  | waits {k i : Nat} {c : Call} (hc : w.hostAt me = some (.writing mutations (k + 1) i c))
      (hq : c.request = .write mutations) (hn : c.isClosing = false)
      (hk : tries.length + (k + 1) = writeAttempts) (ht : w.Superseded mutations tries) (hr : w.runs me = 0)
  | closes {k i n : Nat} {id : ContextId}
      (hc : w.hostAt me = some (.writing mutations k i ⟨.write mutations, .closing (.ofWrite n id)⟩))
      (hr : w.Ran me mutations n id [])
  | ends {result : Except SyncError HostAnswer} (hj : w.job? me = none) (hlt : me < w.nextJob)
      (ho : w.outcome? me = some (.hosted result)) (he : w.WriteEnds me mutations tries result)

/-! ## What is added to the log -/

variable {setup : Setup} {acts : List Act} {w w' : World} {a : Act} {me : JobId} {mutations : List Mutation}
  {tries : List Ending} {env : Environment} {n : Nat} {id : ContextId} {since : List ContextCall}

/-- Whether an entry tells that a job ran the action of a write. -/
def tellsRun (me : JobId) (e : Entry) : Bool :=
  match e.event with
  | .acted _ => e.job = me
  | _ => false

theorem runs_append {entries : List Entry} (h : w'.log = w.log ++ entries) :
    w'.runs me = w.runs me + entries.countP (tellsRun me) := by
  show w'.log.countP (tellsRun me) = w.log.countP (tellsRun me) + _
  rw [h, List.countP_append]

/-- Entries without an action of the job leave the count. -/
theorem runs_of_idle {entries : List Entry} (h : w'.log = w.log ++ entries) (hn : ∀ e ∈ entries, tellsRun me e = false) :
    w'.runs me = w.runs me := by
  rw [runs_append h, List.countP_eq_zero.2, Nat.add_zero]
  exact fun e he => by simp [hn e he]

theorem Ran.append {entries : List Entry} (h : w.Ran me mutations n id since) (hlog : w'.log = w.log ++ entries)
    (hn : ∀ e ∈ entries, tellsRun me e = false) :
    w'.Ran me mutations n id (since ++ Event.callsOf n (entries.map (·.event))) := by
  obtain ⟨honce, i, before, after, heq, hsince⟩ := h
  refine ⟨(runs_of_idle hlog hn).trans honce, i, before, after ++ entries, ?_, ?_⟩
  · rw [hlog, heq, List.append_assoc]
  · rw [List.map_append, Event.callsOf_append, hsince]

theorem runs_congr (h : w'.log = w.log) : w'.runs me = w.runs me := by
  unfold runs
  rw [h]

theorem Ran.congr (h : w.Ran me mutations n id since) (hlog : w'.log = w.log) : w'.Ran me mutations n id since :=
  ⟨(runs_congr hlog).trans h.once, hlog ▸ h.batch⟩

/-- What the action of a write adds to the log. -/
theorem ran_of_action {i : Nat} (h : w.runs me = 0)
    (hlog : w'.log = w.log ++ (Event.action n id mutations).map (⟨me, i, ·⟩)) :
    w'.Ran me mutations n id [] := by
  refine ⟨?_, i, w.log, [], by rw [hlog, List.append_nil], rfl⟩
  have hrest : (mutations.map fun m => (⟨me, i, .context n (.mutate m)⟩ : Entry)).countP (tellsRun me) = 0 := by
    refine List.countP_eq_zero.2 fun e he => ?_
    obtain ⟨m, -, rfl⟩ := List.mem_map.1 he
    simp [tellsRun]
  rw [runs_append hlog, h, Nat.zero_add]
  simp only [Event.action, List.map_cons, List.map_map, List.countP_cons]
  rw [show ((⟨me, i, ·⟩ : Event → Entry) ∘ fun m => Event.context n (.mutate m)) = fun m => ⟨me, i, .context n (.mutate m)⟩
    from rfl, hrest]
  simp [tellsRun]

/-! ## Acts of others -/

theorem Superseded.perform (h : (run setup acts).Superseded mutations tries) (a : Act) :
    ((run setup acts).perform a).Superseded mutations tries := by
  intro e he
  obtain ⟨hrequest, hresult, hunload⟩ := h e he
  refine ⟨hrequest, hresult, ?_⟩
  rw [← run_concat]
  exact unloadOf_stays hunload [a]

/-- What a step of another adds to the log tells of no action of this job. -/
theorem log_others (hk : w.Keeps (freely setup)) (hne : ∀ env, a ≠ .advance env me) :
    ∃ entries, (w.perform a).log = w.log ++ entries ∧ ∀ e ∈ entries, tellsRun me e = false := by
  rcases log_perform hk (within_freely setup a) with hsame | ⟨env, other, i, c, ws, rfl, -, -, hlog⟩
  · exact ⟨[], by rw [hsame, List.append_nil], nofun⟩
  · refine ⟨_, hlog, fun e he => ?_⟩
    obtain ⟨event, -, rfl⟩ := List.mem_map.1 he
    have hother : other ≠ me := fun h => hne env (h ▸ rfl)
    unfold tellsRun
    cases event <;> simp [hother]

theorem endingsBy_others (hne : ∀ env, a ≠ .advance env me) : w.endingsBy me a = [] := by
  cases a with
  | advance env job => exact if_neg fun h : job = me => hne env (h ▸ rfl)
  | _ => rfl

/-- A job that is at work is left alone by others. -/
theorem job?_others {job : Job} (hk : w.Keeps (freely setup)) (hne : ∀ env, a ≠ .advance env me)
    (hj : w.job? me = some job) : (w.perform a).job? me = some job := by
  rcases job?_perform hk (within_freely setup a) hne with hsame | ⟨hme, -⟩
  · exact hsame.trans hj
  · exact absurd (job?_lt hk.fresh hj) (Nat.lt_irrefl _ <| hme ▸ ·)

theorem WriteEnds.perform {result : Except SyncError HostAnswer} (hk : (run setup acts).Keeps (freely setup))
    (h : (run setup acts).WriteEnds me mutations tries result) (hne : ∀ env, a ≠ .advance env me) :
    ((run setup acts).perform a).WriteEnds me mutations tries result := by
  obtain ⟨entries, hlog, hidle⟩ := log_others hk hne
  have head {since : List ContextCall} (hs : since.head? = some .endBatch) (more : List ContextCall) :
      (since ++ more).head? = some .endBatch := by
    rw [List.head?_append, hs]
    rfl
  cases h with
  | written hr hs => exact .written (hr.append hlog hidle) (head hs _)
  | rejected hr hs => exact .rejected (hr.append hlog hidle) (head hs _)
  | failed hr hb ht =>
    exact .failed ((runs_of_idle hlog hidle).trans hr) hb fun he => ⟨(ht he).1, (ht he).2.perform a⟩

/-- Acts of others leave a write where it stands. -/
theorem WriteStands.others (h : (run setup acts).WriteStands me mutations tries) (hne : ∀ env, a ≠ .advance env me) :
    ((run setup acts).perform a).WriteStands me mutations (tries ++ (run setup acts).endingsBy me a) := by
  have hk := (numbered_run setup acts).1
  obtain ⟨entries, hlog, hidle⟩ := log_others hk hne
  have host {c : HostCall} (hc : (run setup acts).hostAt me = some c) : ((run setup acts).perform a).hostAt me = some c :=
    hostAt_eq_some_iff.2 (job?_others hk hne (hostAt_eq_some_iff.1 hc))
  have runs (hr : (run setup acts).runs me = 0) : ((run setup acts).perform a).runs me = 0 :=
    (runs_of_idle hlog hidle).trans hr
  rw [endingsBy_others hne, List.append_nil]
  cases h with
  | starts hc hk ht hr => exact .starts (host hc) hk (ht.perform a) (runs hr)
  | queues hc hk ht hr => exact .queues (host hc) hk (ht.perform a) (runs hr)
  | waits hc hq hn hk ht hr => exact .waits (host hc) hq hn hk (ht.perform a) (runs hr)
  | @closes k i n id hc hr =>
    have hcall : (run setup acts).callAt me = some (i, ⟨.write mutations, .closing (.ofWrite n id)⟩) := by
      rw [callAt, hostAt_eq_some_iff.1 hc]
      rfl
    have hcall' : ((run setup acts).perform a).callAt me = some (i, ⟨.write mutations, .closing (.ofWrite n id)⟩) := by
      rw [callAt, hostAt_eq_some_iff.1 (host hc)]
      rfl
    have hquiet : Event.callsOf n (entries.map (·.event)) = [] := by
      have hsame := callsOf_perform hcall rfl hcall'
      rw [callsOf, callsOf, events, events, hlog, List.map_append, Event.callsOf_append] at hsame
      exact List.append_right_eq_self.1 hsame
    have hran := hr.append hlog hidle
    rw [hquiet] at hran
    exact .closes (host hc) hran
  | ends hj hlt ho he =>
    exact .ends (job?_gone hk (within_freely setup a) hj hlt)
      (Nat.lt_of_lt_of_le hlt (nextJob_perform hk (within_freely setup a))) (outcome?_perform ho a)
      (he.perform hk hne)

/-! ## Steps of the write -/

/-- How a write turns to the slots for its target. -/
inductive HostCall.Targets (mutations : List Mutation) : Nat → Onward HostCall (Except SyncError HostAnswer) → Prop
  | gives_up : Targets mutations 0 (.done (.error .activeConfigurationChanged))
  | misses {k : Nat} : Targets mutations k (.done (.error .noActiveWorkspace))
  | queues {k : Nat} {slice : Slice} : Targets mutations (k + 1) (.going (.queued (.target slice mutations (k + 1))))
  | finds {k i : Nat} :
      Targets mutations (k + 1) (.going (.writing mutations (k + 1) i (.start (.write mutations))))

theorem performSlotTask_targets (w : World) (slice : Slice) (mutations : List Mutation) (k : Nat) :
    HostCall.Targets mutations (k + 1) (w.performSlotTask (.target slice mutations (k + 1))).2 := by
  unfold performSlotTask
  dsimp only
  split
  · exact .finds
  · exact .misses

theorem startHost_targets (w : World) (me : JobId) (mutations : List Mutation) (k : Nat) :
    HostCall.Targets mutations k (w.startHost me (.writeActive mutations k)).2 := by
  unfold startHost
  dsimp only
  cases k with
  | zero => exact .gives_up
  | succ k =>
    rw [if_neg (Nat.succ_ne_zero k)]
    split
    · exact .misses
    · unfold askSlots
      dsimp only
      split
      · exact performSlotTask_targets ..
      · exact .queues

/-- A step of a call on the host leaves the call where it goes on, or its answer. -/
theorem advance_onward (env : Environment) {c : HostCall} (hn : w.Keeps (freely setup) ∧ w.Numbered) (hc : w.hostAt me = some c) :
    match (w.advanceHost env me c).2 with
    | .going c' => (w.advance env me).hostAt me = some c'
    | .done result =>
      (w.advance env me).job? me = none ∧ me < (w.advance env me).nextJob ∧
        (w.advance env me).outcome? me = some (.hosted result) := by
  have hj := hostAt_eq_some_iff.1 hc
  obtain ⟨step, -, -, honward, hcalls, -, -⟩ := advance_host hn.1 (show (freely setup).fits env from trivial) hc
  cases hd : (w.advanceHost env me c).2 with
  | going c' =>
    rw [← honward, hd] at hcalls
    simp [hcalls]
  | done result =>
    refine ⟨?_, ?_, outcome?_host hn.2 hc hd⟩
    · rw [job?_advance_self hn.1 (show (freely setup).fits env from trivial) hj, advanceJob_host, Onward.state?_bimap, hd]
      rfl
    · exact Nat.lt_of_lt_of_le (job?_lt hn.1.fresh hj)
        (nextJob_perform hn.1 (within_freely setup (.advance env me)))

/-- A step that turns to the slots brings no entry and ends no call on a workspace. -/
theorem advance_quiet (env : Environment) (hk : w.Keeps (freely setup)) (hc : w.callAt me = none) :
    (w.advance env me).log = w.log ∧ w.endingsBy me (.advance env me) = [] := by
  refine ⟨?_, (if_pos rfl).trans (endings_of_none hc)⟩
  rcases log_perform hk (within_freely setup (.advance env me)) with hsame | ⟨_, _, i, c, ws, ha, hcall, -, -⟩
  · exact hsame
  · cases ha
    exact absurd (hc.symm.trans hcall) nofun

/-- Where a write stands once it has turned to the slots. -/
theorem WriteStands.targets {k : Nat} {c : HostCall} (hc : (run setup acts).hostAt me = some c)
    (hcall : (run setup acts).callAt me = none) (hk : tries.length + k = writeAttempts)
    (ht : (run setup acts).Superseded mutations tries) (hr : (run setup acts).runs me = 0)
    (h : HostCall.Targets mutations k ((run setup acts).advanceHost env me c).2) :
    ((run setup acts).advance env me).WriteStands me mutations
      (tries ++ (run setup acts).endingsBy me (.advance env me)) := by
  have hn := numbered_run setup acts
  obtain ⟨hlog, hends⟩ := advance_quiet env hn.1 hcall
  have honward := advance_onward env hn hc
  have hruns : ((run setup acts).advance env me).runs me = 0 :=
    (runs_congr hlog).trans hr
  have hsuperseded : ((run setup acts).advance env me).Superseded mutations tries := ht.perform (.advance env me)
  rw [hends, List.append_nil]
  generalize ((run setup acts).advanceHost env me c).2 = onward at h honward
  cases h with
  | gives_up =>
    obtain ⟨hj, hlt, ho⟩ := honward
    exact .ends hj hlt ho (.failed hruns rfl fun _ => ⟨hk, hsuperseded⟩)
  | misses =>
    obtain ⟨hj, hlt, ho⟩ := honward
    exact .ends hj hlt ho (.failed hruns rfl nofun)
  | queues => exact .queues honward hk hsuperseded hruns
  | finds => exact .waits honward rfl rfl hk hsuperseded hruns

/-- What becomes of a write on the host with the call on the workspace that it makes. -/
theorem advanceHost_writing (w : World) (env : Environment) (me : JobId) (mutations : List Mutation) (k i : Nat)
    (c : Call) :
    (w.advanceHost env me (.writing mutations k i c)).2 =
      match (w.advanceCall env me i c).2 with
      | .going c => .going (.writing mutations k i c)
      | .done (.error error) =>
        if error.isRetryable then .going (.starting (.writeActive mutations (k - 1))) else .done (.error error)
      | .done (.ok (.wrote id)) => .done (.ok (.wrote id))
      | .done (.ok _) => .done (.ok .done) := by
  unfold advanceHost
  dsimp only
  generalize w.advanceCall env me i c = r
  obtain ⟨w', c' | error | answer⟩ := r
  · rfl
  · dsimp only
    split <;> rfl
  · cases answer <;> rfl

/-- What a step of a write does on a workspace that is there. -/
theorem advance_writes {k i : Nat} {c : Call} {ws : Workspace}
    (hc : (run setup acts).hostAt me = some (.writing mutations k i c)) (hq : c.request = .write mutations)
    (hb : ∀ batch, c.phase = .closing batch → ∃ n id, batch = .ofWrite n id)
    (hw : (run setup acts).workspace? i = some ws) (env : Environment) :
    ∃ a : Advance, c.Writes env ws mutations a ∧
      ((run setup acts).advanceCall env me i c).2 =
        (match a.progress with
        | .going c => .going c
        | .done result => .done result) ∧
      ((run setup acts).advance env me).log = (run setup acts).log ++ a.events.map (⟨me, i, ·⟩) ∧
      (run setup acts).endingsBy me (.advance env me) = a.endings i (.write mutations) := by
  have hcall : (run setup acts).callAt me = some (i, c) := by
    rw [callAt, hostAt_eq_some_iff.1 hc]
    rfl
  rw [← view_workspaces] at hw
  obtain ⟨s, hs, rfl, horderly⟩ := orderly_run setup acts hw
  have hfit := horderly.fit ((hs.calls me c).2 hcall)
  refine ⟨c.advance (run setup acts).setup env me (run setup acts).session s.workspace, Call.writes hq hfit hb,
    ?_, ?_, ?_⟩
  · obtain ⟨h, hh, hws⟩ := Option.map_eq_some_iff.1 ((view_workspaces ..).symm.trans hw)
    rw [← hws]
    exact advanceCall_progress hh env me c
  · have hk := (numbered_run setup acts).1
    obtain ⟨slices, hv⟩ := advance_view hk (show (freely setup).fits env from trivial) hcall hw
    exact congrArg View.log hv
  · exact (if_pos rfl).trans (hq ▸ endings_of_call hcall hw)

/-- An attempt that finds no workspace fails. -/
theorem WriteStands.misses {k i : Nat} {c : Call} (hc : (run setup acts).hostAt me = some (.writing mutations k i c))
    (hw : (run setup acts).workspace? i = none) (hr : (run setup acts).runs me = 0) (tries : List Ending) :
    ((run setup acts).advance env me).WriteStands me mutations tries := by
  have hn := numbered_run setup acts
  have hcall : (run setup acts).callAt me = some (i, c) := by
    rw [callAt, hostAt_eq_some_iff.1 hc]
    rfl
  have hnone : (run setup acts).hosted[i]? = none := Option.map_eq_none_iff.1 hw
  have honward := advance_onward env hn hc
  rw [advanceHost_writing, advanceCall, hnone] at honward
  obtain ⟨hj, hlt, ho⟩ := honward
  have hlog : ((run setup acts).advance env me).log = (run setup acts).log := by
    refine (advance_still hn.1 (show (freely setup).fits env from trivial) fun j c' ws hcall' hw' => ?_).2
    cases hcall.symm.trans hcall'
    rw [view_workspaces] at hw'
    cases hw.symm.trans hw'
  exact .ends hj hlt ho (.failed ((runs_congr hlog).trans hr) rfl (by simp))

/-- Where a write stands after a step of an attempt that has not run the action. -/
theorem WriteStands.waits_step {k i : Nat} {c : Call}
    (hc : (run setup acts).hostAt me = some (.writing mutations (k + 1) i c)) (hq : c.request = .write mutations)
    (hn : c.isClosing = false) (hk : tries.length + (k + 1) = writeAttempts)
    (ht : (run setup acts).Superseded mutations tries) (hr : (run setup acts).runs me = 0) :
    ((run setup acts).advance env me).WriteStands me mutations
      (tries ++ (run setup acts).endingsBy me (.advance env me)) := by
  cases hw : (run setup acts).workspace? i with
  | none => exact .misses hc hw hr _
  | some ws =>
    have hopen (batch : OpenBatch) (hp : c.phase = .closing batch) : ∃ n id, batch = .ofWrite n id := by
      rw [Call.isClosing, hp] at hn
      cases hn
    obtain ⟨a, hwrites, hprogress, hlog, hends⟩ := advance_writes hc hq hopen hw env
    have honward := advance_onward env (numbered_run setup acts) hc
    rw [advanceHost_writing, hprogress] at honward
    have hsuperseded : ((run setup acts).advance env me).Superseded mutations tries := ht.perform (.advance env me)
    rw [hends]
    cases hwrites with
    | waits _ he hp hr' hc' =>
      rw [hp] at honward
      rw [Advance.endings, hp, List.append_nil]
      exact .waits honward hr' hc' hk hsuperseded ((runs_congr (by rw [hlog, he, List.map_nil, List.append_nil])).trans hr)
    | @fails error _ he hp hb hu =>
      have hruns : ((run setup acts).advance env me).runs me = 0 :=
        (runs_congr (by rw [hlog, he, List.map_nil, List.append_nil])).trans hr
      rw [hp] at honward
      rw [Advance.endings, hp]
      dsimp only at honward ⊢
      by_cases hretry : error.isRetryable = true
      · obtain rfl : error = .activeConfigurationChanged := by
          cases error <;> first | rfl | cases hretry
        rw [if_pos hretry] at honward
        refine .starts honward (by rw [List.length_append, List.length_singleton]; omega) ?_ hruns
        intro e he
        rcases List.mem_append.1 he with he | he
        · exact hsuperseded e he
        · obtain rfl := List.mem_singleton.1 he
          have hunload : (run setup acts).unloadOf i = some .activeConfigurationChanged :=
            Option.bind_eq_some_iff.2 ⟨ws, hw, hu rfl⟩
          refine ⟨rfl, rfl, ?_⟩
          have hstays := unloadOf_stays hunload [.advance env me]
          rwa [run_concat] at hstays
      · rw [if_neg hretry] at honward
        obtain ⟨hj, hlt, ho⟩ := honward
        refine .ends hj hlt ho (.failed hruns hb fun h => ?_)
        subst h
        exact absurd rfl hretry
    | acts _ he hp =>
      rw [hp] at honward
      rw [Advance.endings, hp, List.append_nil]
      exact .closes honward (ran_of_action hr (he ▸ hlog))
    | stays hp => simp [Call.isClosing, hp] at hn
    | closes hp => simp [Call.isClosing, hp] at hn

/-- Where a write stands after a step of an attempt that has run the action. -/
theorem WriteStands.closes_step {k i n : Nat} {id : ContextId}
    (hc : (run setup acts).hostAt me = some (.writing mutations k i ⟨.write mutations, .closing (.ofWrite n id)⟩))
    (hran : (run setup acts).Ran me mutations n id []) (tries : List Ending)
    (hb : ∀ error, env.rejected = some error → error.isBatch = true) :
    ((run setup acts).advance env me).WriteStands me mutations tries := by
  obtain ⟨hk, hsound, -⟩ := tidy_run setup acts
  have hcall : (run setup acts).callAt me = some (i, ⟨.write mutations, .closing (.ofWrite n id)⟩) := by
    rw [callAt, hostAt_eq_some_iff.1 hc]
    rfl
  obtain ⟨ws, hw, -⟩ := hsound.locked hcall rfl
  rw [view_workspaces] at hw
  obtain ⟨a, hwrites, hprogress, hlog, -⟩ := advance_writes hc rfl
    (fun batch hp => ⟨n, id, (Phase.closing.inj hp).symm⟩) hw env
  have honward := advance_onward env (numbered_run setup acts) hc
  rw [advanceHost_writing, hprogress] at honward
  cases hwrites with
  | waits hn | fails hn | acts hn => cases hn
  | stays _ he hp =>
    rw [hp] at honward
    exact .closes honward (hran.congr (by rw [hlog, he, List.map_nil, List.append_nil]))
  | closes hp he hresult =>
    cases hp
    rw [hresult] at honward
    rw [he] at hlog
    have hran' := hran.append hlog fun e he => by
      rw [List.map_singleton, List.mem_singleton] at he
      subst he
      rfl
    have hsince : Event.callsOf n ([(⟨me, i, .context n .endBatch⟩ : Entry)].map (·.event)) = [.endBatch] := by
      simp
    unfold Environment.written at honward
    cases hrejected : env.rejected with
    | some error =>
      obtain ⟨message, rfl⟩ := SyncError.eq_batch (hb error hrejected)
      rw [hrejected] at honward
      obtain ⟨hj, hlt, ho⟩ := honward
      exact .ends hj hlt ho (.rejected hran' (by rw [List.nil_append, List.map_singleton, hsince]; rfl))
    | none =>
      rw [hrejected] at honward
      obtain ⟨hj, hlt, ho⟩ := honward
      exact .ends hj hlt ho (.written hran' (by rw [List.nil_append, List.map_singleton, hsince]; rfl))

/-- Every act leaves a write to the active slice in one of its stands, if its context rejects batches with their error
only. -/
theorem WriteStands.perform (h : (run setup acts).WriteStands me mutations tries) (a : Act)
    (hb : ∀ env, a = .advance env me → ∀ error, env.rejected = some error → error.isBatch = true) :
    ((run setup acts).perform a).WriteStands me mutations (tries ++ (run setup acts).endingsBy me a) := by
  rcases a.step_or_not me with hne | ⟨env, rfl⟩
  · exact h.others hne
  · have call {c : HostCall} (hc : (run setup acts).hostAt me = some c) : (run setup acts).callAt me = c.call? := by
      rw [callAt, hostAt_eq_some_iff.1 hc]
      rfl
    cases h with
    | starts hc hk ht hr => exact .targets hc (call hc) hk ht hr (startHost_targets ..)
    | queues hc hk ht hr =>
      refine .targets hc (call hc) hk ht hr ?_
      unfold advanceHost
      dsimp only
      split
      · exact performSlotTask_targets ..
      · exact .queues
    | waits hc hq hn hk ht hr => exact .waits_step hc hq hn hk ht hr
    | closes hc hr => exact .closes_step hc hr _ (hb env rfl)
    | ends hj hlt ho he =>
      have hsame : (run setup acts).perform (.advance env me) = run setup acts := by simp [World.perform, advance, hj]
      have hquiet : (run setup acts).endingsBy me (.advance env me) = [] :=
        (if_pos rfl).trans (endings_of_none (by simp [callAt, hj]))
      rw [hsame, hquiet, List.append_nil]
      exact .ends hj hlt ho he

/-- What happened is on account of jobs that have begun. -/
theorem begun_run (setup : Setup) (acts : List Act) : ∀ e ∈ (run setup acts).log, e.job < (run setup acts).nextJob := by
  induction acts using List.reverseRecOn with
  | nil => exact fun e he => absurd he List.not_mem_nil
  | append_singleton acts a ih =>
    obtain ⟨hk, -⟩ := numbered_run setup acts
    rw [run_concat]
    intro e he
    refine Nat.lt_of_lt_of_le ?_ (nextJob_perform hk (within_freely setup a))
    rcases log_perform hk (within_freely setup a) with hsame | ⟨env, me, i, c, ws, rfl, hcall, -, hlog⟩
    · exact ih e (hsame ▸ he)
    · rw [hlog] at he
      rcases List.mem_append.1 he with he | he
      · exact ih e he
      · obtain ⟨event, -, rfl⟩ := List.mem_map.1 he
        obtain ⟨job, hj, -⟩ := Option.bind_eq_some_iff.1 hcall
        exact job?_lt hk.fresh hj

/-- A write to the active slice that has begun, after whatever acts. -/
theorem write_stands (setup : Setup) (acts : List Act) (mutations : List Mutation) (more : List Act)
    (hb : ∀ env, .advance env (run setup acts).nextJob ∈ more → ∀ error, env.rejected = some error →
      error.isBatch = true) :
    (run setup (acts ++ .host (.writeActive mutations writeAttempts) :: more)).WriteStands (run setup acts).nextJob
      mutations ((run setup (acts ++ [.host (.writeActive mutations writeAttempts)])).endedBy
        (run setup acts).nextJob more) := by
  rw [List.append_cons]
  induction more using List.reverseRecOn with
  | nil =>
    obtain ⟨hk, -⟩ := numbered_run setup acts
    rw [List.append_nil, run_concat]
    refine .starts (k := writeAttempts) ?_ rfl (fun _ he => absurd he List.not_mem_nil) ?_
    · show ((run setup acts).spawn _).hostAt _ = _
      rw [hostAt_spawn hk.fresh, Function.update_self]
      rfl
    · show (run setup acts).log.countP (tellsRun (run setup acts).nextJob) = 0
      refine List.countP_eq_zero.2 fun e he => ?_
      have hne : e.job ≠ (run setup acts).nextJob := Nat.ne_of_lt (begun_run setup acts e he)
      unfold tellsRun
      cases e.event <;> simp [hne]
  | append_singleton more a ih =>
    have hrest : (run setup (acts ++ [.host (.writeActive mutations writeAttempts)])).runFrom more =
        run setup (acts ++ [.host (.writeActive mutations writeAttempts)] ++ more) := (runFrom_append ..).symm
    rw [← List.append_assoc, run_concat, endedBy_concat, hrest]
    exact (ih fun env hmem => hb env (List.mem_append_left _ hmem)).perform a fun env ha =>
      hb env (ha ▸ List.mem_append_right _ (List.mem_singleton_self _))

/-! ## Every run -/

/-- How a write to the active slice has gone: its action, its answer and its attempts. -/
structure WrittenOnce (w : World) (me : JobId) (mutations : List Mutation) (tries : List Ending) : Prop where
  once : w.runs me ≤ 1
  /-- The action runs inside a batch of a context: the next that the context hears is the end of the batch. -/
  batched : 0 < w.runs me → ∃ n id since, w.Ran me mutations n id since ∧ (since = [] ∨ since.head? = some .endBatch)
  /-- A write that has returned ran its action exactly if it returned well, or the batch was rejected. -/
  returned : ∀ {outcome}, w.outcome? me = some outcome → ∃ result, outcome = .hosted result ∧
    (w.runs me = 1 ↔ (∃ id, result = .ok (.wrote id)) ∨ ∃ message, result = .error (.batch message))
  never : ∀ {error}, w.outcome? me = some (.hosted (.error error)) → error.isBatch = false → w.runs me = 0
  wrote : ∀ {answer}, w.outcome? me = some (.hosted (.ok answer)) →
    ∃ n id since, answer = .wrote id ∧ w.Ran me mutations n id since ∧ since.head? = some .endBatch
  /-- It gives up after all its attempts, each to a workspace whose unload was first requested for a switch. -/
  superseded : w.outcome? me = some (.hosted (.error .activeConfigurationChanged)) →
    tries.length = 5 ∧ w.Superseded mutations tries

theorem WriteStands.writtenOnce (h : w.WriteStands me mutations tries) (hn : w.Numbered) :
    w.WrittenOnce me mutations tries := by
  -- while the job is at work there is no answer
  have unanswered {c : HostCall} (hc : w.hostAt me = some c) {outcome : Outcome} : w.outcome? me ≠ some outcome := by
    rw [hn.apart (hostAt_eq_some_iff.1 hc)]
    nofun
  have idle {c : HostCall} (hc : w.hostAt me = some c) (hr : w.runs me = 0) : w.WrittenOnce me mutations tries :=
    ⟨hr ▸ Nat.zero_le 1, fun h => absurd h (by rw [hr]; exact Nat.lt_irrefl 0), fun h => absurd h (unanswered hc),
      fun h => absurd h (unanswered hc), fun h => absurd h (unanswered hc), fun h => absurd h (unanswered hc)⟩
  cases h with
  | starts hc _ _ hr | queues hc _ _ hr | waits hc _ _ _ _ hr => exact idle hc hr
  | closes hc hr =>
    exact ⟨Nat.le_of_eq hr.once, fun _ => ⟨_, _, _, hr, .inl rfl⟩, fun h => absurd h (unanswered hc),
      fun h => absurd h (unanswered hc), fun h => absurd h (unanswered hc), fun h => absurd h (unanswered hc)⟩
  | ends _ _ ho he =>
    cases he with
    | written hr hs =>
      refine ⟨Nat.le_of_eq hr.once, fun _ => ⟨_, _, _, hr, .inr hs⟩, fun h => ?_, fun h => ?_, fun h => ?_, fun h => ?_⟩ <;>
        cases ho.symm.trans h
      · exact ⟨_, rfl, fun _ => .inl ⟨_, rfl⟩, fun _ => hr.once⟩
      · exact ⟨_, _, _, rfl, hr, hs⟩
    | rejected hr hs =>
      refine ⟨Nat.le_of_eq hr.once, fun _ => ⟨_, _, _, hr, .inr hs⟩, fun h => ?_, fun h hb => ?_, fun h => ?_, fun h => ?_⟩ <;>
        cases ho.symm.trans h
      · exact ⟨_, rfl, fun _ => .inr ⟨_, rfl⟩, fun _ => hr.once⟩
      · cases hb
    | failed hr hb ht =>
      refine ⟨hr ▸ Nat.zero_le 1, fun h => absurd h (by rw [hr]; exact Nat.lt_irrefl 0), fun h => ?_, fun h _ => hr,
        fun h => ?_, fun h => ?_⟩ <;> cases ho.symm.trans h
      · refine ⟨_, rfl, fun h => absurd (hr.symm.trans h) nofun, ?_⟩
        rintro (⟨id, h⟩ | ⟨message, h⟩) <;> cases h
        cases hb
      · exact ht rfl

/-- Whatever else goes on, a write to the active slice runs its action at most once, in a batch of a context, if contexts
reject its batches with the error of a batch only. -/
theorem written_once (setup : Setup) (acts : List Act) (mutations : List Mutation) (more : List Act)
    (hb : ∀ env, .advance env (run setup acts).nextJob ∈ more → ∀ error, env.rejected = some error →
      error.isBatch = true) :
    (run setup (acts ++ .host (.writeActive mutations writeAttempts) :: more)).WrittenOnce (run setup acts).nextJob
      mutations ((run setup (acts ++ [.host (.writeActive mutations writeAttempts)])).endedBy
        (run setup acts).nextJob more) :=
  (write_stands setup acts mutations more hb).writtenOnce (numbered_run setup _).2

set_option maxRecDepth 100000 in
/-- A write to the active slice whose batch is rejected has run its action all the same. -/
theorem written_once_rejected :
    let acts := .setActiveConfiguration Sample.slice :: underWay ++ [.advance {} 1]
    let mutations := [.setLastBuildSucceeded true]
    let more := List.replicate 4 (.advance { rejection := some (.described "locked") } 3)
    let w := run {} (acts ++ .host (.writeActive mutations writeAttempts) :: more)
    w.hostAt 3 = none ∧ w.runs 3 = 1 ∧
      w.WrittenOnce 3 mutations
        ((run {} (acts ++ [.host (.writeActive mutations writeAttempts)])).endedBy 3 more) := by
  intro acts mutations more w
  have hjob : (run {} acts).nextJob = 3 := by decide +kernel
  refine ⟨by decide +kernel, by decide +kernel, hjob ▸ written_once {} acts mutations more ?_⟩
  intro env hmem error herror
  cases List.eq_of_mem_replicate hmem
  cases herror
  rfl

end World

end SliceSync
