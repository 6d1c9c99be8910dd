import SliceSync.Proofs.Outcomes
import SliceSync.Proofs.Owing
/-!
# Shutdown of a host

A shutdown takes all live workspaces out and tears them down one after the other. What another call has taken
out before is torn down by that call, and the shutdown does not wait for it: when it has returned, every
workspace made before is gone or owed by a call that is still at work.

Main statement: `World.shut_down`.
-/

namespace SliceSync

namespace World

variable {setup : Setup} {acts : List Act} {w w' : World} {a : Act} {me : JobId}

/-- Where a shutdown stands: it has the slots to empty, or has emptied them of all workspaces that were there. -/
inductive Closing (w : World) (me : JobId) (places : Nat) : Prop
  | starting (hc : w.hostAt me = some (.starting .shutdown))
  | queued (hc : w.hostAt me = some (.queued .drain))
  | tearing (hl : ∀ slice i, w.slots.live.get? slice = some i → places ≤ i)
      (hc : (∃ rest, w.hostAt me = some (.draining rest)) ∨
        ∃ rest i retirement, w.hostAt me = some (.closing rest i retirement))
  | returned (hl : ∀ slice i, w.slots.live.get? slice = some i → places ≤ i) (hc : w.hostAt me = none)
      (ho : w.outcome? me = some (.hosted (.ok .done)))

/-- A task to drain leaves nothing live. -/
theorem drained_of_performs {slots : Slots} {step : HostStep} (hp : SlotTask.drain.Performs slots step) :
    step.onward = .going (.draining slots.live.values) ∧ step.slots.live = ∅ := by
  cases hp with
  | answers ht => cases ht
  | drains => exact ⟨rfl, rfl⟩

/-- A shutdown goes on to drain, to tear down, and to answer. -/
theorem Closing.goes {places : Nat} {env : Environment} {c : HostCall} {step : HostStep} (h : w.Closing me places)
    (hc : w.hostAt me = some c) (hp : c.Paths w env me step) (hle : places ≤ w.hosted.length)
    (slots : w'.slots = step.slots) (calls : w'.hostAt me = step.onward.state?)
    (ended : ∀ result, step.onward = .done result → w'.outcome? me = some (.hosted result)) : w'.Closing me places := by
  have drains {slots' : Slots} (ht : SlotTask.drain.Performs slots' step) : w'.Closing me places := by
    obtain ⟨honward, hlive⟩ := drained_of_performs ht
    refine .tearing (fun slice i hl => ?_) (.inl ⟨_, by rw [calls, honward]; rfl⟩)
    rw [slots, hlive] at hl
    cases hl
  have live (hl : ∀ slice i, w.slots.live.get? slice = some i → places ≤ i) :
      ∀ slice i, w'.slots.live.get? slice = some i → places ≤ i := by
    intro slice i hi
    rw [slots] at hi
    rcases hp.live_new hi with hi | ⟨rfl, -⟩
    · exact hl slice i hi
    · exact hle
  cases h with
  | starting hc' =>
    cases hc.symm.trans hc'
    cases hp with
    | queues ha =>
      cases ha with
      | starts ht =>
        cases ht
        exact .queued (by rw [calls]; rfl)
    | performs hs hp =>
      rcases hs with ⟨ha, -⟩ | ⟨heq, -⟩
      · cases ha with
        | starts ht =>
          cases ht
          exact drains hp
      · cases heq
    | makes hcl | misses hcl => cases hcl
    | walks hw => cases hw
    | ends he =>
      cases he with
      | refuses he => cases he
  | queued hc' =>
    cases hc.symm.trans hc'
    cases hp with
    | queues ha => cases ha
    | waits => exact .queued (by rw [calls]; rfl)
    | performs hs hp =>
      rcases hs with ⟨ha, -⟩ | ⟨heq, -⟩
      · cases ha
      · cases heq
        exact drains hp
    | makes hcl | misses hcl => cases hcl
    | walks hw => cases hw
    | ends he => cases he
  | tearing hl hc' =>
    have hl' := live hl
    rcases hc' with ⟨rest, hc'⟩ | ⟨rest, i, retirement, hc'⟩
    · cases hc.symm.trans hc'
      cases hp with
      | queues ha => cases ha
      | performs hs hp =>
        rcases hs with ⟨ha, -⟩ | ⟨heq, -⟩
        · cases ha
        · cases heq
      | makes hcl | misses hcl => cases hcl
      | walks hw =>
        cases hw with
        | closes => exact .tearing hl' (.inr ⟨_, _, _, by rw [calls]; rfl⟩)
      | ends he =>
        cases he with
        | drained => exact .returned hl' (by rw [calls]; rfl) (ended _ rfl)
    · cases hc.symm.trans hc'
      cases hp with
      | queues ha => cases ha
      | performs hs hp =>
        rcases hs with ⟨ha, -⟩ | ⟨heq, -⟩
        · cases ha
        · cases heq
      | makes hcl | misses hcl => cases hcl
      | walks hw =>
        cases hw with
        | closing hg => exact .tearing hl' (.inr ⟨_, _, _, by rw [calls]; rfl⟩)
        | closed hd => exact .tearing hl' (.inl ⟨_, by rw [calls]; rfl⟩)
      | ends he => cases he
  | returned hl hc' => exact absurd (hc.symm.trans hc') nofun

/-- What others do leaves a shutdown where it stands, and brings only new workspaces. -/
theorem Closing.aside {places : Nat} (h : w.Closing me places) (calls : w'.hostAt me = w.hostAt me)
    (live : (∀ slice i, w.slots.live.get? slice = some i → places ≤ i) →
      ∀ slice i, w'.slots.live.get? slice = some i → places ≤ i)
    (outcome : ∀ o, w.outcome? me = some o → w'.outcome? me = some o) : w'.Closing me places := by
  cases h with
  | starting hc => exact .starting (calls.trans hc)
  | queued hc => exact .queued (calls.trans hc)
  | tearing hl hc =>
    refine .tearing (live hl) ?_
    rw [calls]
    exact hc
  | returned hl hc ho => exact .returned (live hl) (calls.trans hc) (outcome _ ho)

/-- Whatever happens, a shutdown goes on or stays where it stands. -/
theorem Closing.step {places : Nat} (h : (run setup acts).Closing me places)
    (hle : places ≤ (run setup acts).hosted.length) (a : Act) : (run setup (acts ++ [a])).Closing me places := by
  obtain ⟨hk, hn⟩ := numbered_run setup acts
  have hm := perform_host hk (within_freely setup a)
  have houtcome (o : Outcome) (ho : (run setup acts).outcome? me = some o) :=
    outcome?_perform ho a
  rw [run_concat]
  have live (hl : ∀ slice i, (run setup acts).slots.live.get? slice = some i → places ≤ i) :
      ∀ slice i, ((run setup acts).perform a).slots.live.get? slice = some i → places ≤ i := by
    intro slice i hi
    rcases live_new hm hi with hi | ⟨rfl, -⟩
    · exact hl slice i hi
    · exact hle
  -- only a step of its own takes it ahead
  cases hm with
  | rests slots calls makes => exact h.aside (by rw [calls]) live houtcome
  | @begins request _ hnew slots calls =>
    refine h.aside ?_ live houtcome
    rw [calls, Function.update_of_ne]
    rintro rfl
    cases h with
    | starting hc | queued hc => exact absurd (hc.symm.trans hnew) nofun
    | tearing hl hc => rcases hc with ⟨_, hc⟩ | ⟨_, _, _, hc⟩ <;> exact absurd (hc.symm.trans hnew) nofun
    | returned hl hc ho => exact absurd ((hn.begun _ (Nat.le_refl _)).symm.trans ho) nofun
  | @goes env other c step _ hc hp slots onward calls makes here =>
    by_cases hother : me = other
    · subst hother
      refine h.goes hc hp hle slots ?_ fun result hresult => ?_
      · rw [calls, Function.update_self]
      · exact outcome?_host hn hc (onward.trans hresult)
    · refine h.aside ?_ live houtcome
      rw [calls, Function.update_of_ne hother]

/-- Where a shutdown stands that began some acts ago. -/
theorem closing_run (setup : Setup) (acts more : List Act) :
    (run setup (acts ++ .host .shutdown :: more)).Closing (run setup acts).nextJob (run setup acts).hosted.length := by
  induction more using List.reverseRecOn with
  | nil =>
    have hk := (plays_orderly setup acts 0).1
    refine .starting ?_
    rw [run_concat]
    show ((run setup acts).spawn _).hostAt _ = _
    rw [hostAt_spawn hk.fresh, Function.update_self]
    rfl
  | append_singleton more a ih =>
    rw [← List.cons_append, ← List.append_assoc]
    exact ih.step (hosted_le ..) a

/-- What holds when a shutdown that was asked for after some acts has returned. -/
structure ShutDown (setup : Setup) (acts more : List Act) : Prop where
  /-- It answers that it is done. -/
  answers : (run setup (acts ++ .host .shutdown :: more)).outcome? (run setup acts).nextJob = some (.hosted (.ok .done))
  /-- Nothing that was made before is live. -/
  emptied : ∀ slice i, (run setup (acts ++ .host .shutdown :: more)).slots.live.get? slice = some i → i ∉ made setup acts
  /-- What it has taken out of the live ones is gone. -/
  drained : ∀ first env rest slice i, more = first ++ .advance env (run setup acts).nextJob :: rest →
    (run setup (acts ++ .host .shutdown :: first)).slots.live.get? slice = some i →
    (run setup (acts ++ .host .shutdown :: first ++ [.advance env (run setup acts).nextJob])).slots.live.get? slice ≠
      some i →
    (run setup (acts ++ .host .shutdown :: more)).Gone i
  /-- What was made before is gone, or still to be torn down by another call that is at work. -/
  left : ∀ i ∈ made setup acts, (run setup (acts ++ .host .shutdown :: more)).Gone i ∨
    ∃ other c, (run setup (acts ++ .host .shutdown :: more)).hostAt other = some c ∧ i ∈ c.owes
  /-- So all of it is gone if no other call on the host has anything to tear down. -/
  complete : (∀ other c, (run setup (acts ++ .host .shutdown :: more)).hostAt other = some c → c.owes = []) →
    ∀ i ∈ made setup acts, (run setup (acts ++ .host .shutdown :: more)).Gone i

/-- When a shutdown has returned, what was made before it is gone, but for what other calls on the host have taken
out of the live ones and not torn down yet. -/
theorem shut_down (setup : Setup) (acts more : List Act)
    (hr : (run setup (acts ++ .host .shutdown :: more)).hostAt (run setup acts).nextJob = none) :
    ShutDown setup acts more := by
  have hmade : ∀ i ∈ made setup acts, i ∈ made setup (acts ++ .host .shutdown :: more) := by
    intro i hi
    rw [made_append]
    exact List.mem_append_left _ hi
  cases closing_run setup acts more with
  | starting hc | queued hc => exact absurd (hr.symm.trans hc) nofun
  | tearing hl hc => rcases hc with ⟨_, hc⟩ | ⟨_, _, _, hc⟩ <;> exact absurd (hr.symm.trans hc) nofun
  | returned hl hc ho =>
    have hleft : ∀ i ∈ made setup acts, (run setup (acts ++ .host .shutdown :: more)).Gone i ∨
        ∃ other c, (run setup (acts ++ .host .shutdown :: more)).hostAt other = some c ∧ i ∈ c.owes := by
      intro i hi
      rcases (kept_run setup (acts ++ .host .shutdown :: more)).accounted i (hmade i hi) with
        ⟨slice, hlive⟩ | howed | htorn
      · exact absurd (hl slice i hlive) (Nat.not_le_of_lt (lt_of_made hi))
      · exact .inr howed
      · exact .inl (gone_of_torn htorn)
    refine ⟨ho, ?_, ?_, hleft, ?_⟩
    · intro slice i hlive hi
      exact absurd (hl slice i hlive) (Nat.not_le_of_lt (lt_of_made hi))
    · rintro first env rest slice i rfl hlive htaken
      have hgone := gone_of_returned (acts ++ .host .shutdown :: first) rest hlive htaken
      simp only [List.append_assoc, List.cons_append] at hgone hr
      exact hgone hr
    · intro hnone i hi
      rcases hleft i hi with hgone | ⟨other, c, hc, howed⟩
      · exact hgone
      · rw [hnone other c hc] at howed
        cases howed

namespace Sample

/-- A slice for which there is an evaluation. -/
def slice : Slice := .ofList [("TargetFramework", "net8.0")]

/-- An environment in which no batch can be closed. -/
def shut : Environment := { gateOpen := false }

end Sample

/-- The host has a workspace, and its driver the evaluation in hand, with the batch open. -/
def underWay : List Act :=
  [.host (.setSlices [Sample.slice])] ++ List.replicate 4 (.advance {} 0) ++
    [.send 0 [Sample.evaluation ["a.cs"]], .advance {} 2] ++ List.replicate 3 (.advance Sample.shut 1)

set_option maxRecDepth 100000 in
/-- With nobody else at work, a shutdown that waits for an open batch leaves nothing. -/
theorem shut_down_alone :
    let more := List.replicate 5 (.advance Sample.shut 3) ++ [.advance {} 1] ++ List.replicate 6 (.advance {} 3) ++
      List.replicate 2 (.advance {} 1) ++ List.replicate 4 (.advance {} 3)
    (run {} (underWay ++ .host .shutdown :: more)).hostAt (run {} underWay).nextJob = none ∧
      made {} underWay = [0] ∧ ShutDown {} underWay more := by
  intro more
  have h : (run {} (underWay ++ .host .shutdown :: more)).hostAt (run {} underWay).nextJob = none := by decide +kernel
  exact ⟨h, by decide +kernel, shut_down _ _ _ h⟩

set_option maxRecDepth 100000 in
/-- A shutdown does not wait for what another call has taken out of the live ones: here a call that wants no slice
any more waits for the open batch, and the shutdown that comes after it returns at once. -/
theorem not_shut_down :
    ¬∀ (setup : Setup) (acts more : List Act),
      (run setup (acts ++ .host .shutdown :: more)).hostAt (run setup acts).nextJob = none →
      ∀ i ∈ made setup acts, (run setup (acts ++ .host .shutdown :: more)).Gone i := by
  intro h
  let acts := underWay ++ .host (.setSlices []) :: List.replicate 5 (.advance Sample.shut 3)
  let more : List Act := List.replicate 2 (.advance Sample.shut 4)
  obtain ⟨⟨ws, hw, hstatus, -⟩, -, -⟩ := h {} acts more (by decide +kernel) 0 (by decide +kernel)
  have hopen : ((run {} (acts ++ .host .shutdown :: more)).workspace? 0).map (·.status) = some .initialized := by
    decide +kernel
  rw [hw] at hopen
  exact absurd (hstatus.symm.trans (Option.some.inj hopen)) nofun

end World

end SliceSync
