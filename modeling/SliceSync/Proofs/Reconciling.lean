import SliceSync.Proofs.Causes
import SliceSync.Proofs.Shutdowns
/-!
# Changes of the wanted slices

Calls that change what is wanted mix in any order, with teardowns that take as long as they like. Each waits for
the slots, fills them and tears down what it has retired (`World.Served`); what that amounts to for the slices,
the workspaces and the answers is `World.Reconciled`.

Main statement: `World.reconciled`.
-/

namespace SliceSync

namespace HostCall

/-- The change of the wanted slices that a call has begun to make. -/
def change? : HostCall → Option Reconciliation
  | .creating r | .evicting r .. | .retiring r | .disposing r .. => some r
  | .queued (.forget _ cause retired error) => some { wanted := [], retired, cause, error }
  | _ => none

/-- The slice for whose old workspace a call waits. -/
def awaited : HostCall → Option Slice
  | .evicting _ slice .. => some slice
  | _ => none

variable {w : World} {env : Environment} {me : JobId} {c : HostCall} {step : HostStep} {slices : List Slice}
  {cause : DisposeCause} {r : Reconciliation}

theorem change?_of_demands (h : c.demands = some (slices, cause)) : c.change? = none := by
  cases c with
  | queued task =>
    cases task with
    | reconcile => rfl
    | _ => cases h
  | starting => rfl
  | _ => cases h

/-- Whoever has the slots neither before a step nor after it leaves what is live alone. -/
theorem Paths.live_still (h : c.Paths w env me step) (hd : c.drains = false) (hh : c.holds = false)
    (hn : ∀ c', step.onward = .going c' → c'.holds = false) : step.slots.live = w.slots.live := by
  cases h with
  | @performs c task slots step hs hp =>
    have hlive : slots.live = w.slots.live := by rcases hs with ⟨-, -, rfl⟩ | ⟨-, -, rfl⟩ <;> rfl
    cases hp with
    | reconciles => exact absurd (hn _ rfl) nofun
    | forgets | answers | targets => exact hlive
    | drains =>
      rcases hs with ⟨ha, -⟩ | ⟨rfl, -⟩
      · exact absurd rfl (ha.calm hd)
      · cases hd
  | makes hcl => exact absurd (hcl.holds.2.symm.trans hh) nofun
  | _ => rfl

/-- A call that has slices that it wants waits for the slots, or has them from now on and all it wants before it. -/
theorem Paths.of_demands (h : c.Paths w env me step) (hd : c.demands = some (slices, cause)) :
    ∃ wanted, (∀ s, s ∈ wanted ↔ s ∈ slices) ∧
      (step.onward = .going (.queued (.reconcile wanted cause)) ∨
        ∃ retired, step.onward = .going (.creating { wanted, retired, cause }) ∧
          ∀ s, (step.slots.live.get? s).isSome → s ∈ wanted) := by
  have reconciled {slots : Slots} {task : SlotTask} {wanted : List Slice} (ht : task = .reconcile wanted cause)
      (hp : task.Performs slots step) : ∃ retired, step.onward = .going (.creating { wanted, retired, cause }) ∧
        ∀ s, (step.slots.live.get? s).isSome → s ∈ wanted := by
    subst ht
    cases hp with
    | reconciles =>
      refine ⟨_, rfl, fun s hs => ?_⟩
      by_contra hw
      have := Slots.live_retire slots wanted cause s
      rw [if_neg hw] at this
      simp [this] at hs
    | answers ht => cases ht
  cases h with
  | queues ha hl =>
    obtain ⟨wanted, rfl, hsame⟩ := ha.of_demands hd
    exact ⟨wanted, hsame, .inl rfl⟩
  | @waits task hl =>
    cases task with
    | reconcile wanted cause' =>
      cases hd
      exact ⟨slices, fun _ => .rfl, .inl rfl⟩
    | _ => cases hd
  | @performs c task slots step hs hp =>
    rcases hs with ⟨ha, -⟩ | ⟨rfl, -⟩
    · obtain ⟨wanted, ht, hsame⟩ := ha.of_demands hd
      exact ⟨wanted, hsame, .inr (reconciled ht hp)⟩
    · cases task with
      | reconcile wanted cause' =>
        cases hd
        exact ⟨slices, fun _ => .rfl, .inr (reconciled rfl hp)⟩
      | _ => cases hd
  | settles | keeps | evicts => cases hd
  | makes hcl | misses hcl => cases hcl <;> cases hd
  | walks hw => cases hw <;> cases hd
  | ends he =>
    cases he with
    | refuses ht =>
      rw [HostRequest.task_of_wants hd] at ht
      cases ht
    | _ => cases hd

/-- A call that waits for the slots to change what is wanted had it before it. -/
theorem Paths.demanded (h : c.Paths w env me step) {c' : HostCall} (hn : step.onward = .going c')
    {wanted : List Slice} (hd : c'.demands = some (wanted, cause)) :
    ∃ slices, c.demands = some (slices, cause) ∧ ∀ s, s ∈ wanted ↔ s ∈ slices := by
  cases h with
  | @queues c task other ha hl =>
    cases hn
    cases task with
    | reconcile =>
      cases hd
      exact ha.demands
    | _ => cases hd
  | waits =>
    cases hn
    exact ⟨wanted, hd, fun _ => .rfl⟩
  | performs hs hp => cases hp <;> cases hn <;> cases hd
  | settles | keeps | evicts | makes | misses =>
    cases hn
    cases hd
  | walks hw =>
    cases hn
    cases hw <;> cases hd
  | ends => cases hn

/-- A call that has the slots goes on with what is wanted, one slice after the other, until all are live. -/
theorem Paths.of_filling (h : c.Paths w env me step) (hh : c.holds = true) (hr : c.change? = some r)
    (he : env.scheduling = true ∧ ∀ slice, env.unsubscribed slice = none) :
    r.wanted = [] ∧ c.awaited = none ∧ step.onward = .going (.retiring r) ∧ step.slots.live = w.slots.live ∨
      ∃ c' r', step.onward = .going c' ∧ c'.holds = true ∧ c'.change? = some r' ∧ r'.error = r.error ∧
        ∀ s, (step.slots.live.get? s).isSome ∨ s ∈ r'.wanted ∨ c'.awaited = some s ↔
          (w.slots.live.get? s).isSome ∨ s ∈ r.wanted ∨ c.awaited = some s := by
  cases h with
  | queues ha => exact absurd (ha.unlocked.2.symm.trans hh) nofun
  | waits => cases hh
  | performs hs hp =>
    rcases hs with ⟨ha, -⟩ | ⟨rfl, -⟩
    · exact absurd (ha.unlocked.2.symm.trans hh) nofun
    · cases hh
  | settles hw =>
    cases hr
    exact .inl ⟨hw, rfl, rfl, rfl⟩
  | @keeps r slice rest hw hl =>
    cases hr
    refine .inr ⟨_, _, rfl, rfl, rfl, rfl, fun s => ?_⟩
    rw [hw, List.mem_cons]
    constructor
    · exact fun h => h.imp_right fun h => h.imp_left .inr
    · rintro (hs | (rfl | hs) | hs)
      · exact .inl hs
      · exact .inl hl
      · exact .inr (.inl hs)
      · cases hs
  | @evicts r slice rest old hw hl ho =>
    cases hr
    refine .inr ⟨_, _, rfl, rfl, rfl, rfl, fun s => ?_⟩
    simp only [hw, List.mem_cons, awaited, Option.some.injEq, reduceCtorEq, or_false]
    rw [eq_comm (a := slice), or_comm (a := s ∈ rest)]
  | @makes c slice r' hcl =>
    refine .inr ⟨_, r', rfl, rfl, rfl, ?_, fun s => ?_⟩
    · cases hcl <;> cases hr <;> rfl
    · have hlive : ((w.slots.live.insert slice w.hosted.length).get? s).isSome ↔ slice = s ∨ (w.slots.live.get? s).isSome := by
        rw [Listing.get?_insert]
        by_cases hs : slice = s <;> simp [hs]
      rw [hlive, eq_comm (a := slice)]
      cases hcl with
      | vacant hw =>
        cases hr
        simp only [hw, List.mem_cons, awaited, reduceCtorEq, or_false]
        rw [or_assoc, or_left_comm]
      | evicted =>
        cases hr
        simp only [awaited, Option.some.injEq, reduceCtorEq, or_false]
        rw [eq_comm (a := slice), or_comm (a := s = slice), or_assoc, or_comm (a := s = slice)]
  | misses hcl hfails => exact absurd ⟨he.1, he.2 _⟩ hfails
  | walks hw =>
    cases hw with
    | evicting hg =>
      cases hr
      exact .inr ⟨_, _, rfl, rfl, rfl, rfl, fun _ => .rfl⟩
    | _ => cases hh
  | ends hend => exact absurd (hend.unlocked.2.symm.trans hh) nofun

/-- A call that has given the slots back leaves what is live alone, and tells of its first error when it ends. -/
theorem Paths.of_tearing (h : c.Paths w env me step) (hh : c.holds = false) (hr : c.change? = some r) :
    step.slots.live = w.slots.live ∧
      ((∃ c' r', step.onward = .going c' ∧ c'.holds = false ∧ c'.change? = some r' ∧ r'.error = r.error) ∨
        step.onward = .done (match r.error with
          | some error => .error error
          | none => .ok .done)) := by
  cases h with
  | queues ha =>
    cases ha with
    | starts => cases hr
    | returns =>
      cases hr
      exact ⟨rfl, .inl ⟨_, _, rfl, rfl, rfl, rfl⟩⟩
  | waits => exact ⟨rfl, .inl ⟨_, r, rfl, rfl, hr, rfl⟩⟩
  | @performs c task slots step hs hp =>
    have hlive : slots.live = w.slots.live := by rcases hs with ⟨-, -, rfl⟩ | ⟨-, -, rfl⟩ <;> rfl
    have hforget : ∃ i, task = .forget i r.cause r.retired r.error := by
      rcases hs with ⟨ha, -⟩ | ⟨rfl, -⟩
      · cases ha with
        | starts => cases hr
        | returns =>
          cases hr
          exact ⟨_, rfl⟩
      · cases task with
        | forget =>
          cases hr
          exact ⟨_, rfl⟩
        | _ => cases hr
    obtain ⟨i, rfl⟩ := hforget
    cases hp with
    | forgets => exact ⟨hlive, .inl ⟨_, _, rfl, rfl, rfl, rfl⟩⟩
    | answers ht => cases ht
  | settles | keeps | evicts => cases hh
  | makes hcl | misses hcl => exact absurd (hcl.holds.2.symm.trans hh) nofun
  | walks hw =>
    cases hw with
    | evicting => cases hh
    | disposes | disposing =>
      cases hr
      exact ⟨rfl, .inl ⟨_, _, rfl, rfl, rfl, rfl⟩⟩
    | _ => cases hr
  | ends hend =>
    cases hend with
    | retired =>
      cases hr
      exact ⟨rfl, .inr rfl⟩
    | _ => cases hr

end HostCall

namespace World

variable {setup : Setup} {acts : List Act} {w w' : World} {a : Act} {me : JobId} {c : HostCall} {slices : List Slice}
  {cause : DisposeCause} {alone alone' : Prop} {i : Nat} {slice : Slice}

/-! ## Where a change of the wanted slices stands -/

/-- Where a call stands that is to change what is wanted. If it is left alone, then from the time when all that it
wants is live just that is live. -/
inductive Served (w : World) (me : JobId) (slices : List Slice) (cause : DisposeCause) (alone : Prop) : Prop
  | waits {c : HostCall} {wanted : List Slice} (hc : w.hostAt me = some c) (hd : c.demands = some (wanted, cause))
      (hw : ∀ s, s ∈ wanted ↔ s ∈ slices)
  | fills {c : HostCall} {r : Reconciliation} (hc : w.hostAt me = some c) (hh : c.holds = true)
      (hr : c.change? = some r) (he : r.error = none)
      (hw : ∀ s, (w.slots.live.get? s).isSome ∨ s ∈ r.wanted ∨ c.awaited = some s ↔ s ∈ slices)
  | tears {c : HostCall} {r : Reconciliation} (hc : w.hostAt me = some c) (hh : c.holds = false)
      (hr : c.change? = some r) (he : r.error = none) (hl : alone → ∀ s, (w.slots.live.get? s).isSome ↔ s ∈ slices)
  | returned (hc : w.hostAt me = none) (ho : w.outcome? me = some (.hosted (.ok .done)))
      (hl : alone → ∀ s, (w.slots.live.get? s).isSome ↔ s ∈ slices)

/-- A step of the call takes it on. -/
theorem Served.goes {env : Environment} {step : HostStep} (h : w.Served me slices cause alone)
    (hc : w.hostAt me = some c) (hp : c.Paths w env me step)
    (he : env.scheduling = true ∧ ∀ slice, env.unsubscribed slice = none) (ha : alone' → alone)
    (slots : w'.slots = step.slots) (calls : w'.hostAt me = step.onward.state?)
    (ended : ∀ result, step.onward = .done result → w'.outcome? me = some (.hosted result)) :
    w'.Served me slices cause alone' := by
  have goes {c' : HostCall} (hn : step.onward = .going c') : w'.hostAt me = some c' := by rw [calls, hn]; rfl
  cases h with
  | waits hc' hd hw =>
    cases hc.symm.trans hc'
    obtain ⟨wanted, hsame, hn | ⟨retired, hn, hlive⟩⟩ := hp.of_demands hd
    · exact .waits (goes hn) rfl fun s => (hsame s).trans (hw s)
    · refine .fills (goes hn) rfl rfl rfl fun s => ?_
      rw [slots, ← hw s, ← hsame s]
      constructor
      · rintro (hs | hs | hs)
        · exact hlive s hs
        · exact hs
        · cases hs
      · exact fun hs => .inr (.inl hs)
  | fills hc' hh hr herror hw =>
    cases hc.symm.trans hc'
    rcases hp.of_filling hh hr he with ⟨hnil, hnone, hn, hlive⟩ | ⟨c', r', hn, hh', hr', hsame, hcovers⟩
    · refine .tears (goes hn) rfl rfl herror fun _ s => ?_
      rw [slots, hlive, ← hw s, hnil, hnone]
      simp
    · refine .fills (goes hn) hh' hr' (hsame.trans herror) fun s => ?_
      rw [slots, hcovers s, hw s]
  | tears hc' hh hr herror hl =>
    cases hc.symm.trans hc'
    obtain ⟨hlive, ⟨c', r', hn, hh', hr', hsame⟩ | hn⟩ := hp.of_tearing hh hr
    · refine .tears (goes hn) hh' hr' (hsame.trans herror) fun halone => ?_
      rw [slots, hlive]
      exact hl (ha halone)
    · rw [herror] at hn
      refine .returned (by rw [calls, hn]; rfl) (ended _ hn) fun halone => ?_
      rw [slots, hlive]
      exact hl (ha halone)
  | returned hc' => cases hc.symm.trans hc'

/-- What others do leaves the call where it stands; what is live stays so while the call has the slots, and after that
if it is left alone. -/
theorem Served.aside (h : w.Served me slices cause alone) (calls : w'.hostAt me = w.hostAt me)
    (outcome : ∀ o, w.outcome? me = some o → w'.outcome? me = some o)
    (held : ∀ c, w.hostAt me = some c → c.holds = true → w'.slots.live = w.slots.live)
    (still : alone' → (∀ c, w.hostAt me = some c → c.demands = none ∧ c.holds = false) →
      alone ∧ w'.slots.live = w.slots.live) : w'.Served me slices cause alone' := by
  cases h with
  | waits hc hd hw => exact .waits (calls.trans hc) hd hw
  | fills hc hh hr he hw =>
    refine .fills (calls.trans hc) hh hr he ?_
    rw [held _ hc hh]
    exact hw
  | @tears c r hc hh hr he hl =>
    refine .tears (calls.trans hc) hh hr he fun halone => ?_
    obtain ⟨halone, hlive⟩ := still halone fun c' hc' => by
      cases hc.symm.trans hc'
      refine ⟨?_, hh⟩
      cases hd : c.demands with
      | none => rfl
      | some demand => exact absurd ((HostCall.change?_of_demands hd).symm.trans hr) nofun
    rw [hlive]
    exact hl halone
  | returned hc ho hl =>
    refine .returned (calls.trans hc) (outcome _ ho) fun halone => ?_
    obtain ⟨halone, hlive⟩ := still halone fun c' hc' => absurd (hc.symm.trans hc') nofun
    rw [hlive]
    exact hl halone

/-- No other call on the host has the slots, unless this one still waits for them. -/
def Alone (w : World) (me : JobId) : Prop := ∀ other c, other ≠ me → w.hostAt other = some c → c.holds = true →
  ∃ c', w.hostAt me = some c' ∧ c'.demands.isSome

/-- Who has had the slots before a step is still past that after a step of another call, which had them neither
before nor after if the call is left alone. -/
theorem Alone.still {env : Environment} {other : JobId} {step : HostStep} (h : w.Alone me) (h' : w'.Alone me)
    (hother : other ≠ me) (hc : w.hostAt other = some c) (hp : c.Paths w env other step) (hd : c.drains = false)
    (slots : w'.slots = step.slots) (calls : w'.hostAt = Function.update w.hostAt other step.onward.state?)
    (hme : ∀ c, w.hostAt me = some c → c.demands = none ∧ c.holds = false) : w'.slots.live = w.slots.live := by
  have hsame : w'.hostAt me = w.hostAt me := by rw [calls, Function.update_of_ne hother.symm]
  have free {w'' : World} (h : w''.Alone me) (hsame : w''.hostAt me = w.hostAt me) {c' : HostCall}
      (hc' : w''.hostAt other = some c') : c'.holds = false := by
    by_contra hh
    obtain ⟨c'', hc'', hdemands⟩ := h other c' hother hc' (by simpa using hh)
    rw [(hme c'' (hsame.symm.trans hc'')).1] at hdemands
    cases hdemands
  rw [slots]
  refine hp.live_still hd (free h rfl hc) fun c' hn => free h' hsame ?_
  rw [calls, Function.update_self, hn]
  rfl

/-- Every act leaves the call where it stands or takes it on. -/
theorem Served.step (h : (run setup acts).Served me slices cause alone) (hacts : ∀ b ∈ acts, b.Steady) (ha : a.Steady)
    (halone : alone' → alone ∧ (run setup acts).Alone me ∧ (run setup (acts ++ [a])).Alone me) :
    (run setup (acts ++ [a])).Served me slices cause alone' := by
  obtain ⟨hk, hn⟩ := numbered_run setup acts
  have hlatched := (kept_run setup acts).toLatched
  have hseated := seated_run setup acts (not_mem_of_steady hacts)
  have houtcome (o : Outcome) (ho : (run setup acts).outcome? me = some o) :
      (run setup (acts ++ [a])).outcome? me = some o := by
    rw [run_concat]
    exact outcome?_perform ho a
  have hm := perform_host hk (within_freely setup a)
  rw [← run_concat] at hm
  cases hm with
  | rests slots calls makes =>
    exact h.aside (by rw [calls]) houtcome (fun _ _ _ => by rw [slots]) fun h _ => ⟨(halone h).1, by rw [slots]⟩
  | begins hnew slots calls =>
    refine h.aside ?_ houtcome (fun _ _ _ => by rw [slots]) fun h _ => ⟨(halone h).1, by rw [slots]⟩
    rw [calls, Function.update_of_ne]
    rintro rfl
    cases h with
    | waits hc | fills hc | tears hc => exact absurd (hc.symm.trans hnew) nofun
    | returned hc ho => exact absurd ((hn.begun _ (Nat.le_refl _)).symm.trans ho) nofun
  | @goes env other c step _ hc hp slots onward calls makes here =>
    by_cases hme : other = me
    · subst hme
      refine h.goes hc hp ha (fun h => (halone h).1) slots ?_ fun result hresult => ?_
      · rw [calls, Function.update_self]
      · rw [run_concat]
        exact outcome?_host hn hc (onward.trans hresult)
    · refine h.aside ?_ houtcome (fun c' hc' hh => ?_) fun h hpast => ?_
      · rw [calls, Function.update_of_ne (Ne.symm hme)]
      · rw [slots]
        exact (hlatched.leaves hc' hh (Ne.symm hme) hc hp).1
      · obtain ⟨hbefore, halone, halone'⟩ := halone h
        exact ⟨hbefore, halone.still halone' hme hc hp (hseated.calm hc) slots calls hpast⟩

/-- A call that began after some acts is left alone: once it has had the slots, no other call on the host has them. -/
def Undisturbed (setup : Setup) (before : List Act) (request : HostRequest) (more : List Act) : Prop :=
  ∀ first, first <+: more → (run setup (before ++ .host request :: first)).Alone (run setup before).nextJob

/-- Where a call stands that began some acts ago to change what is wanted. -/
theorem served_run (setup : Setup) (before : List Act) (request : HostRequest) (more : List Act)
    (hw : request.wants = some (slices, cause)) (ha : ∀ b ∈ before ++ .host request :: more, b.Steady) :
    (run setup (before ++ .host request :: more)).Served (run setup before).nextJob slices cause
      (Undisturbed setup before request more) := by
  induction more using List.reverseRecOn with
  | nil =>
    have hk := (plays_orderly setup before 0).1
    have hc : (run setup (before ++ [.host request])).hostAt (run setup before).nextJob = some (.starting request) := by
      rw [run_concat]
      show ((run setup before).spawn _).hostAt _ = _
      rw [hostAt_spawn hk.fresh, Function.update_self]
      rfl
    exact .waits hc hw fun _ => .rfl
  | append_singleton more a ih =>
    rw [← List.cons_append, ← List.append_assoc] at ha ⊢
    have hacts : ∀ b ∈ before ++ .host request :: more, b.Steady := fun b hb => ha b (List.mem_append_left _ hb)
    refine (ih hacts).step hacts (ha a (by simp)) fun h => ⟨fun first hf => h first ?_, h more ?_, ?_⟩
    · exact hf.trans (List.prefix_append ..)
    · exact List.prefix_append ..
    · have := h (more ++ [a]) (List.prefix_refl _)
      rwa [← List.cons_append, ← List.append_assoc] at this

/-- A call that is to change what is wanted began with an act that asked for it. -/
theorem exists_request {wanted : List Slice} (hc : (run setup acts).hostAt me = some c)
    (hd : c.demands = some (wanted, cause)) : ∃ before request between slices,
      acts = before ++ .host request :: between ∧ me = (run setup before).nextJob ∧
        request.wants = some (slices, cause) ∧ ∀ s, s ∈ wanted ↔ s ∈ slices := by
  induction acts using List.reverseRecOn generalizing c wanted with
  | nil => cases hc
  | append_singleton acts a ih =>
    have hm := perform_host (plays_orderly setup acts 0).1 (within_freely setup a)
    rw [← run_concat] at hm
    rcases hostAt_new hm hc with hc | ⟨request, rfl, hme, rfl⟩ | ⟨env, c', step, -, hc', hp, hn, -⟩
    · obtain ⟨before, request, between, slices, hacts, hasked⟩ := ih hc hd
      exact ⟨before, request, between ++ [a], slices, by simp [hacts], hasked⟩
    · exact ⟨acts, request, [], wanted, rfl, hme, hd, fun _ => .rfl⟩
    · obtain ⟨wanted', hd', hsame⟩ := hp.demanded hn hd
      obtain ⟨before, request, between, slices, hacts, hme, hwants, hsame'⟩ := ih hc' hd'
      exact ⟨before, request, between ++ [a], slices, by simp [hacts], hme, hwants, fun s => (hsame s).trans (hsame' s)⟩

/-- What is live stays so, if every call that is going to change what is wanted wants it. -/
theorem live_run (hl : (run setup acts).slots.live.get? slice = some i) (more : List Act)
    (ha : ∀ b ∈ acts ++ more, b.Steady)
    (hc : ∀ me c wanted cause, (run setup acts).hostAt me = some c → c.demands = some (wanted, cause) → slice ∈ wanted)
    (hr : ∀ request wanted cause, .host request ∈ more → request.wants = some (wanted, cause) → slice ∈ wanted) :
    (run setup (acts ++ more)).slots.live.get? slice = some i ∧
      ∀ me c wanted cause, (run setup (acts ++ more)).hostAt me = some c → c.demands = some (wanted, cause) →
        slice ∈ wanted := by
  induction more using List.reverseRecOn with
  | nil => simpa using And.intro hl hc
  | append_singleton more a ih =>
    rw [← List.append_assoc] at ha ⊢
    have hacts : ∀ b ∈ acts ++ more, b.Steady := fun b hb => ha b (List.mem_append_left _ hb)
    obtain ⟨hl, hc⟩ := ih hacts fun request wanted cause hmem => hr request wanted cause (List.mem_append_left _ hmem)
    have hlatched := (kept_run setup (acts ++ more)).toLatched
    have hseated := seated_run setup (acts ++ more) (not_mem_of_steady hacts)
    have hm := perform_host (plays_orderly setup (acts ++ more) 0).1 (within_freely setup a)
    rw [← run_concat] at hm
    constructor
    · cases hm with
      | rests slots calls makes => exact slots ▸ hl
      | begins hn slots calls => exact slots ▸ hl
      | @goes env me c step _ hat hp slots onward calls makes here =>
        rcases hp.live_out hlatched hat hl with hl | ⟨cause, hretires⟩
        · exact slots ▸ hl
        · obtain ⟨wanted, hd, hunwanted, -⟩ := hretires.wants (hseated.calm hat)
          exact absurd (hc me c wanted cause hat hd) hunwanted
    · intro me c wanted cause hat hd
      rcases hostAt_new hm hat with hat | ⟨request, rfl, -, rfl⟩ | ⟨env, c', step, -, hat', hp, hn, -⟩
      · exact hc me c wanted cause hat hd
      · exact hr request wanted cause (by simp) hd
      · obtain ⟨wanted', hd', hsame⟩ := hp.demanded hn hd
        exact (hsame slice).2 (hc me c' wanted' cause hat' hd')

/-! ## What changes of the wanted slices amount to -/

/-- All that has asked for the unload of a workspace, or tears it down now, does so with one cause. -/
structure UnloadedFor (setup : Setup) (acts : List Act) (i : Nat) (cause : DisposeCause) : Prop where
  unload : ∀ ws, (run setup acts).workspace? i = some ws → ∀ other, ws.unload.cause = some other → other = cause
  gone : (run setup acts).Gone i → ∃ ws, (run setup acts).workspace? i = some ws ∧ ws.unload.cause = some cause
  teardowns : ∀ me c other, (run setup acts).callAt me = some (i, c) → c.request = .dispose other → other = cause
  ended : ∀ e ∈ history setup acts, e.place = i → ∀ other, e.request = .dispose other → other = cause

theorem unloadedFor_of_agreed (ha : ∀ b ∈ acts, b.Steady)
    (h : (run setup acts).Agreed (history setup acts) i (· = cause)) : UnloadedFor setup acts i cause := by
  constructor
  case unload => exact fun ws hw other hu => h.unload hw hu
  case gone =>
    rintro ⟨⟨ws, hw, hstatus, -⟩, -, -⟩
    -- where a teardown got on unload has been requested
    obtain ⟨s, hs, rfl, -⟩ := orderly_run setup acts (i := i) (by rwa [view_workspaces])
    obtain ⟨other, hu⟩ := Option.isSome_iff_exists.1 ((audited_run hs).torn hstatus)
    obtain rfl := h.unload hw hu
    exact ⟨_, hw, hu⟩
  case teardowns =>
    intro me c other hc hr
    obtain ⟨call, hcall, hdooms⟩ := (attributed_run setup acts ha).hosts.dooms (kept_run setup acts) hc hr
    exact h.dooms hcall hdooms
  case ended => exact fun e he hi other hr => h.past he hi hr

/-- What holds at every time of a host on which what is wanted changes. -/
structure Reconciled (setup : Setup) (acts : List Act) : Prop where
  /-- No slice is both live and retiring. -/
  apart : ∀ slice i, (run setup acts).slots.live.get? slice = some i → (run setup acts).slots.retiring.get? slice = none
  /-- What is live under a slice is a workspace that the host has made for it, -/
  live : ∀ slice i, (run setup acts).slots.live.get? slice = some i →
    i ∈ made setup acts ∧ (run setup acts).Houses i slice
  /-- so no slice has two. -/
  single : ∀ key other slice i j, (run setup acts).slots.live.get? key = some i →
    (run setup acts).slots.live.get? other = some j → (run setup acts).Houses i slice → (run setup acts).Houses j slice →
    i = j
  /-- When the host makes a workspace, all that it made before for the slice are gone before the new one has anything. -/
  fresh : ∀ first a rest slice i j, acts = first ++ a :: rest → j ∈ (run setup first).makes a →
    (run setup (first ++ [a])).Houses j slice → i ∈ made setup first → (run setup first).Houses i slice →
    (run setup (first ++ [a])).Gone i ∧ (run setup (first ++ [a])).workspace? j = some { slice }
  /-- A slice that is live and stays wanted keeps its workspace. -/
  stays : ∀ first rest slice i, acts = first ++ rest → (run setup first).slots.live.get? slice = some i →
    (∀ me c wanted cause, (run setup first).hostAt me = some c → c.demands = some (wanted, cause) → slice ∈ wanted) →
    (∀ request wanted cause, .host request ∈ rest → request.wants = some (wanted, cause) → slice ∈ wanted) →
    (run setup acts).slots.live.get? slice = some i
  /-- A workspace that is live no more was taken out by a call that did not want its slice, and is torn down with the
  cause of this call. -/
  retired : ∀ first a rest slice i, acts = first ++ a :: rest → (run setup first).slots.live.get? slice = some i →
    (run setup (first ++ [a])).slots.live.get? slice ≠ some i →
    ∃ before request between env slices cause, first = before ++ .host request :: between ∧
      a = .advance env (run setup before).nextJob ∧ request.wants = some (slices, cause) ∧ slice ∉ slices ∧
      UnloadedFor setup acts i cause
  /-- A call that has returned answers that it is done, and all that it took out is gone; if it was left alone, just
  the slices it wanted are live. -/
  returns : ∀ before request more slices cause, acts = before ++ .host request :: more →
    request.wants = some (slices, cause) → (run setup acts).hostAt (run setup before).nextJob = none →
    (run setup acts).outcome? (run setup before).nextJob = some (.hosted (.ok .done)) ∧
      (∀ first env rest slice i, more = first ++ .advance env (run setup before).nextJob :: rest →
        (run setup (before ++ .host request :: first)).slots.live.get? slice = some i →
        (run setup (before ++ .host request :: first ++ [.advance env (run setup before).nextJob])).slots.live.get?
          slice ≠ some i → (run setup acts).Gone i) ∧
      (Undisturbed setup before request more → ∀ slice, ((run setup acts).slots.live.get? slice).isSome ↔ slice ∈ slices)

/-- However calls that change what is wanted mix, with each other and with all else that nobody tears workspaces down
by, and however long teardowns take, the host keeps its slots in order. -/
theorem reconciled (setup : Setup) (acts : List Act) (ha : ∀ a ∈ acts, a.Steady) : Reconciled setup acts := by
  have hseated := seated_run setup acts (not_mem_of_steady ha)
  constructor
  case apart => exact fun slice i hl => hseated.apart hl
  case live => exact fun slice i hl => hseated.live hl
  case single =>
    intro key other slice i j hi hj hsi hsj
    obtain rfl := (hseated.live hi).2.unique hsi
    obtain rfl := (hseated.live hj).2.unique hsj
    exact Option.some.inj (hi.symm.trans hj)
  case fresh =>
    rintro first a rest slice i j rfl hj hsj hi hsi
    have hsteady : ∀ b ∈ first ++ [a], b.Steady := fun b hb => ha b (by simp at hb ⊢; tauto)
    have hseated := seated_run setup _ (not_mem_of_steady hsteady)
    have hm := perform_host (plays_orderly setup first 0).1 (within_freely setup a)
    have hnew := (exists_live_of_makes hm hj).1
    constructor
    · refine gone_of_torn (hseated.earlier (j := j) ?_ ?_ ?_ (hsi.later [a]) hsj)
      · rw [made_concat]
        exact List.mem_append_left _ hi
      · rw [made_concat]
        exact List.mem_append_right _ hj
      · rw [hnew]
        exact lt_of_made hi
    · obtain ⟨ws, hw, rfl⟩ := hsj
      obtain ⟨slice, rfl⟩ := workspace_new (by simp [workspace?, hnew]) hw
      exact hw
  case stays =>
    rintro first rest slice i rfl hl hc hr
    exact (live_run hl rest ha hc hr).1
  case retired =>
    rintro first a rest slice i rfl hl hout
    have hsteady : ∀ b ∈ first ++ [a], b.Steady := fun b hb => ha b (by simp at hb ⊢; tauto)
    obtain ⟨env, me, c, wanted, cause, rfl, hc, hd, hunwanted, hagreed⟩ := retired_run hsteady hl hout
    obtain ⟨before, request, between, slices, hfirst, rfl, hwants, hsame⟩ := exists_request hc hd
    refine ⟨before, request, between, env, slices, cause, hfirst, rfl, hwants, fun h => hunwanted ((hsame slice).2 h), ?_⟩
    refine unloadedFor_of_agreed ha ?_
    simpa using hagreed rest fun b hb => ha b (by simp [hb])
  case returns =>
    rintro before request more slices cause rfl hwants hreturned
    cases served_run setup before request more hwants ha with
    | waits hc | fills hc | tears hc => cases hreturned.symm.trans hc
    | returned hc ho hl =>
      refine ⟨ho, ?_, hl⟩
      rintro first env rest slice i rfl hlive hout
      have hgone := gone_of_returned (before ++ .host request :: first) rest hlive hout
      simp only [List.append_assoc, List.cons_append] at hgone hreturned ⊢
      exact hgone hreturned

/-- While the batch of the first evaluation is open the active slice is switched away and back again: the second
switch waits for the old workspace to go. -/
def switchedBack : List Act :=
  let other : Slice := .ofList [("TargetFramework", "net9.0")]
  underWay ++
    .host (.activate [] other) :: List.replicate 5 (.advance Sample.shut 3) ++
    .host (.activate [] Sample.slice) :: List.replicate 3 (.advance Sample.shut 5) ++
    [.advance {} 1] ++ List.replicate 2 (.advance {} 3) ++ List.replicate 6 (.advance {} 5) ++
    List.replicate 5 (.advance {} 1) ++ List.replicate 5 (.advance {} 3) ++ List.replicate 5 (.advance {} 4) ++
    List.replicate 5 (.advance {} 5)

set_option maxRecDepth 100000 in
/-- The slice that is active again has a new workspace, and the two that were retired meanwhile are gone. -/
theorem reconciled_switchedBack : (∀ a ∈ switchedBack, a.Steady) ∧ made {} switchedBack = [0, 1, 2] ∧
    (run {} switchedBack).slots.live.values = [2] ∧ (run {} switchedBack).slots.retiring.values = [] ∧
    (run {} switchedBack).hostAt 3 = none ∧ (run {} switchedBack).hostAt 5 = none ∧ Reconciled {} switchedBack := by
  have h : ∀ a ∈ switchedBack, a.Steady := by
    simp [switchedBack, underWay, Sample.shut, Act.Steady, or_imp, forall_and]
  exact ⟨h, by decide +kernel, by decide +kernel, by decide +kernel, by decide +kernel, by decide +kernel,
    reconciled {} switchedBack h⟩

end World

end SliceSync
