import SliceSync.Proofs.Owing
/-!
# The workspaces of one slice

While nobody shuts the host down, a workspace that it has made is live, retiring or being evicted until it has
been torn down (`World.Seat`), and no workspace is made for a slice that has one so. Hence no slice is both live
and retiring, and when a workspace is made all earlier ones of its slice are gone (`World.seated_run`).
-/

namespace SliceSync

/-! ## The slice of a workspace stays -/

theorem Workspace.Receives.slice {setup : Setup} {env : Environment} {session : Session} {w : Workspace} {u : Update}
    {p : Passage} (h : w.Receives setup env session u p) : p.workspace.slice = w.slice := by
  have henroll : (w.enroll setup u).1.slice = w.slice := Workspace.enroll_slice u
  cases h <;> first | rfl | exact henroll

theorem Workspace.close_slice (env : Environment) (session : Session) (w : Workspace) (batch : OpenBatch) :
    (w.close env session batch).workspace.slice = w.slice := by
  obtain ⟨_, _, _, h⟩ := w.close_workspace env session batch
  rw [h]

theorem Request.passage_slice (setup : Setup) (env : Environment) (session : Session) (w : Workspace)
    (request : Request) : (request.passage setup env session w).workspace.slice = w.slice := by
  have h := request.enters setup env session w
  generalize request.passage setup env session w = p at h ⊢
  cases h with
  | receives h => exact h.slice
  | _ => rfl

theorem Call.Paths.slice {setup : Setup} {env : Environment} {me : JobId} {c : Call} {session : Session}
    {w : Workspace} {a : Advance} (h : c.Paths setup env me session w a) : a.workspace.slice = w.slice := by
  have concluded (p : Passage) : (c.conclude setup p).workspace.slice = p.workspace.slice := by
    obtain ⟨lock, hw⟩ := conclude_workspace setup c p
    rw [hw]
  cases h with
  | stays | yields | despairs | learns | passes | queues => rfl
  | enters => rw [concluded, Request.passage_slice]
  | succeeds => rw [concluded, Request.passage_slice]
  | closes => rw [concluded, Workspace.close_slice]
  | parts => exact concluded _

namespace World

variable {setup : Setup} {acts : List Act} {w w' : World} {i : Nat} {slice other : Slice}

/-- There is a workspace of the slice in a place. -/
def Houses (w : World) (i : Nat) (slice : Slice) : Prop := ∃ ws, w.workspace? i = some ws ∧ ws.slice = slice

theorem Houses.unique (h : w.Houses i slice) (h' : w.Houses i other) : slice = other := by
  obtain ⟨ws, hw, rfl⟩ := h
  obtain ⟨ws', hw', rfl⟩ := h'
  cases hw.symm.trans hw'
  rfl

theorem Houses.later (h : (run setup acts).Houses i slice) (more : List Act) :
    (run setup (acts ++ more)).Houses i slice := by
  obtain ⟨ws, hw, hslice⟩ := h
  have step {s s' : Scene} {past ended : List Ending} (h : s.Orderly past)
      (hst : Scene.Step (freely setup) i s s' ended) : s'.workspace.slice = s.workspace.slice := by
    cases hst with
    | rests | unloads | begins => rfl
    | goes he hc => exact (Call.paths _ _ _ _ _ (h.fit hc)).slice
  obtain ⟨ws', hw', hsame⟩ := later_run (R := fun w w' => w'.slice = w.slice) (fun _ => rfl)
    (fun h h' => h'.trans h) step hw more
  exact ⟨ws', hw', hsame.trans hslice⟩

/-- A place that was filled before had the slice before. -/
theorem Houses.before {more : List Act} (h : (run setup (acts ++ more)).Houses i slice)
    (hi : i < (run setup acts).hosted.length) : (run setup acts).Houses i slice := by
  obtain ⟨ws, hw⟩ : ∃ ws, (run setup acts).workspace? i = some ws := by
    simp [workspace?, List.getElem?_eq_getElem hi]
  have hbefore : (run setup acts).Houses i ws.slice := ⟨ws, hw, rfl⟩
  rwa [h.unique (hbefore.later more)]

end World

/-! ## One step -/

namespace HostCall

variable {w : World} {env : Environment} {me : JobId} {c : HostCall} {step : HostStep} {slice : Slice} {i : Nat}
  {cause : DisposeCause}

/-- A slice that is live is not retiring, before a step and after it. -/
theorem Paths.apart (h : c.Paths w env me step) (hv : w.Latched) (hc : w.hostAt me = some c)
    (ha : ∀ {slice i}, w.slots.live.get? slice = some i → w.slots.retiring.get? slice = none)
    (hl : step.slots.live.get? slice = some i) : step.slots.retiring.get? slice = none := by
  have erased {other : Slice} (hr : w.slots.retiring.get? slice = none) :
      (w.slots.retiring.erase other).get? slice = none := by
    rw [Listing.get?_erase]
    split
    · rfl
    · exact hr
  cases h with
  | queues | waits | settles | keeps | misses | walks | ends => exact ha hl
  | @performs c task slots step hs hp =>
    have hsame : slots.live = w.slots.live ∧ slots.retiring = w.slots.retiring := by
      rcases hs with ⟨-, -, rfl⟩ | ⟨-, -, rfl⟩ <;> exact ⟨rfl, rfl⟩
    cases hp with
    | @reconciles wanted cause =>
      have hl := (Slots.live_retire slots wanted cause slice).symm.trans hl
      by_cases hw : slice ∈ wanted
      · rw [if_pos hw, hsame.1] at hl
        refine (Slots.retiring_retire ..).trans ?_
        rw [if_pos hw, hsame.2]
        exact ha hl
      · simp [hw] at hl
    | forgets hforget =>
      have hr : w.slots.retiring.get? slice = none := ha (hsame.1 ▸ hl)
      rcases hforget with rfl | ⟨other, cause, -, rfl⟩
      · exact hsame.2 ▸ hr
      · exact hsame.2 ▸ erased hr
    | answers | targets => exact hsame.2 ▸ ha (hsame.1 ▸ hl)
    | drains => cases hl
  | evicts hw hl' hr => exact erased (ha hl)
  | @makes c other r hcl =>
    rw [Listing.get?_insert] at hl
    by_cases hne : other = slice
    · rw [← hne]
      exact (hv.cleared hc hcl).2
    · rw [if_neg hne] at hl
      exact ha hl

section Run

variable {setup : Setup} {acts : List Act} {past : List Ending}

/-- A retiring workspace stays so, or it is being evicted from now on, or it has been torn down. -/
theorem Paths.retiring_out (h : c.Paths w env me step) (hf : c.Fit past)
    (ha : ∀ {slice i}, w.slots.live.get? slice = some i → w.slots.retiring.get? slice = none)
    (hr : w.slots.retiring.get? slice = some ⟨i, cause⟩) :
    step.slots.retiring.get? slice = some ⟨i, cause⟩ ∨
      (∃ r call, step.onward = .going (.evicting r slice i call)) ∨ Torn past i := by
  cases h with
  | queues | waits | settles | keeps | makes | misses | walks | ends => exact .inl hr
  | @performs c task slots step hs hp =>
    have hsame : slots.live = w.slots.live ∧ slots.retiring = w.slots.retiring := by
      rcases hs with ⟨-, -, rfl⟩ | ⟨-, -, rfl⟩ <;> exact ⟨rfl, rfl⟩
    have hr' : slots.retiring.get? slice = some ⟨i, cause⟩ := hsame.2 ▸ hr
    cases hp with
    | @reconciles wanted other =>
      left
      refine (Slots.retiring_retire ..).trans ?_
      split
      · exact hr'
      · cases hl : slots.live.get? slice with
        | none => simpa using hr'
        | some j => cases hr.symm.trans (ha (hsame.1 ▸ hl))
    | @forgets j other retired error retiring hforget =>
      rcases hforget with rfl | ⟨other, cause', ho, rfl⟩
      · exact .inl hr'
      · by_cases hslice : other = slice
        · -- what is forgotten has been torn down
          subst hslice
          cases hr'.symm.trans ho
          right
          right
          rcases hs with ⟨hasks, -⟩ | ⟨rfl, -⟩
          · exact hasks.fit hf
          · exact hf
        · left
          show (slots.retiring.erase other).get? slice = _
          rw [Listing.get?_erase, if_neg hslice]
          exact hr'
    | answers | targets | drains => exact .inl hr'
  | @evicts r other rest old hw hl ho =>
    by_cases hslice : other = slice
    · subst hslice
      cases hr.symm.trans ho
      exact .inr (.inl ⟨_, _, rfl⟩)
    · left
      rw [Listing.get?_erase, if_neg hslice]
      exact hr

/-- A workspace is being evicted until it has been torn down. -/
theorem Paths.evicting_out {r : Reconciliation} {call : Call}
    (h : (evicting r slice i call).Paths (World.run setup acts) env me step)
    (hc : (World.run setup acts).hostAt me = some (.evicting r slice i call))
    (hf : (evicting r slice i call).Fit past) (hi : i < (World.run setup acts).hosted.length) :
    (∃ call', step.onward = .going (.evicting r slice i call')) ∨
      Torn ((World.run setup acts).endings (.advance env me)) i := by
  obtain ⟨cause, hr⟩ := hf
  have cleared {other : Slice} {r' : Reconciliation}
      (hcl : (evicting r slice i call).Clears (World.run setup acts) env me other r') :
      Torn ((World.run setup acts).endings (.advance env me)) i := by
    cases hcl with
    | evicted hd => exact World.torn_of_done (callAt_of_hostAt hc) hr hi hd
  cases h with
  | queues ha => cases ha
  | performs hs hp =>
    rcases hs with ⟨ha, -⟩ | ⟨heq, -⟩
    · cases ha
    · cases heq
  | makes hcl | misses hcl => exact .inr (cleared hcl)
  | walks hw =>
    cases hw with
    | evicting hg => exact .inl ⟨_, rfl⟩
  | ends he => cases he

end Run

end HostCall

namespace World

variable {setup : Setup} {acts : List Act} {w w' : World} {a : Act} {i j : Nat} {slice : Slice} {past : List Ending}
  {places : List Nat}

/-- Where the workspace of a slice stands that is still to be torn down. -/
inductive Seat (w : World) (slice : Slice) (i : Nat) : Prop
  | live (h : w.slots.live.get? slice = some i)
  | retiring {cause : DisposeCause} (h : w.slots.retiring.get? slice = some ⟨i, cause⟩)
  | evicting (me : JobId) (r : Reconciliation) (call : Call) (h : w.hostAt me = some (.evicting r slice i call))

/-- The workspaces that the host has made stand in their slots until they have been torn down, and a slice has no
new one before. -/
structure Seated (w : World) (past : List Ending) (places : List Nat) : Prop where
  calm : ∀ {me c}, w.hostAt me = some c → c.drains = false
  apart : ∀ {slice i}, w.slots.live.get? slice = some i → w.slots.retiring.get? slice = none
  live : ∀ {slice i}, w.slots.live.get? slice = some i → i ∈ places ∧ w.Houses i slice
  seat : ∀ {slice i}, i ∈ places → w.Houses i slice → w.Seat slice i ∨ Torn past i
  earlier : ∀ {slice i j}, i ∈ places → j ∈ places → i < j → w.Houses i slice → w.Houses j slice → Torn past i

theorem seated_initial (setup : Setup) : (initial setup).Seated [] [] := by
  refine ⟨?_, ?_, ?_, ?_, ?_⟩
  · intro me c h
    cases h
  · intro slice i h
    cases h
  · intro slice i h
    cases h
  · intro slice i h
    cases h
  · intro slice i j h
    cases h

/-- Only what is torn down leaves its seat. -/
theorem Seated.seat_step (h : (run setup acts).Seated past places) (hk : (run setup acts).Kept past places)
    (a : Act) (hs : (run setup acts).Seat slice i) :
    (run setup (acts ++ [a])).Seat slice i ∨ Torn (past ++ (run setup acts).endings a) i := by
  have hm := perform_host (plays_orderly setup acts 0).1 (within_freely setup a)
  rw [run_concat]
  generalize (run setup acts).perform a = w' at hm ⊢
  cases hm with
  | rests slots calls makes =>
    left
    cases hs with
    | live hl => exact .live (slots ▸ hl)
    | retiring hr => exact .retiring (slots ▸ hr)
    | evicting other r call hc => exact .evicting other r call (calls ▸ hc)
  | begins hn slots calls =>
    left
    cases hs with
    | live hl => exact .live (slots ▸ hl)
    | retiring hr => exact .retiring (slots ▸ hr)
    | evicting other r call hc =>
      refine .evicting other r call ?_
      rw [calls, Function.update_of_ne]
      · exact hc
      · rintro rfl
        exact absurd (hc.symm.trans hn) nofun
  | @goes env me c step _ hc hp slots onward calls makes here =>
    cases hs with
    | live hl =>
      left
      rcases hp.live_out hk.toLatched hc hl with hl | ⟨cause, hretires⟩
      · exact .live (slots ▸ hl)
      · obtain ⟨-, -, -, hr⟩ := hretires.wants (h.calm hc)
        exact .retiring (slots ▸ hr)
    | @retiring cause hr =>
      rcases hp.retiring_out (hk.fit hc) h.apart hr with hr | ⟨r, call, hn⟩ | htorn
      · exact .inl (.retiring (slots ▸ hr))
      · refine .inl (.evicting me r call ?_)
        rw [calls, Function.update_self, hn]
        rfl
      · exact .inr (htorn.append _)
    | evicting other r call hc' =>
      by_cases hme : other = me
      · subst hme
        cases hc.symm.trans hc'
        rcases hp.evicting_out hc (hk.fit hc) (hk.owed hc (by simp [HostCall.owes])) with ⟨call', hn⟩ | htorn
        · refine .inl (.evicting other r call' ?_)
          rw [calls, Function.update_self, hn]
          rfl
        · exact .inr (htorn.of_append past)
      · refine .inl (.evicting other r call ?_)
        rw [calls, Function.update_of_ne hme]
        exact hc'

/-- Where a workspace is made the earlier ones of its slice have been torn down. -/
theorem Seated.cleared (h : (run setup acts).Seated past places) (hk : (run setup acts).Kept past places)
    {env : Environment} {me : JobId} {c : HostCall} {step : HostStep} (hc : (run setup acts).hostAt me = some c)
    (hp : c.Paths (run setup acts) env me step) (hm : step.made = some slice) (hi : i ∈ places)
    (hs : (run setup acts).Houses i slice) : Torn (past ++ (run setup acts).endings (.advance env me)) i := by
  cases hp with
  | performs hs hp => cases hp <;> cases hm
  | @makes c other r hcl =>
    cases hm
    obtain ⟨hlive, hretiring⟩ := hk.cleared hc hcl
    rcases h.seat hi hs with (hl | hr | ⟨me', r', call, hc'⟩) | htorn
    · exact absurd (hlive.symm.trans hl) nofun
    · exact absurd (hretiring.symm.trans hr) nofun
    · -- two calls cannot have the slots, so it is this one that was waiting for the old workspace to go
      have hholder := hk.holder hc hcl.holds.2
      cases hholder.symm.trans (hk.holder hc' rfl)
      cases hc.symm.trans hc'
      have hpaths : (HostCall.evicting r' slice i call).Paths (run setup acts) env me _ := .makes hcl
      rcases hpaths.evicting_out hc (hk.fit hc) (hk.owed hc (by simp [HostCall.owes])) with ⟨call', hn⟩ | htorn
      · cases hn
      · exact htorn.of_append past
    · exact htorn.append _
  | _ => cases hm

/-- What an act fills is a place of its own, with a live workspace of the slice. -/
theorem exists_live_of_makes (hm : HostMove w a w') (hi : i ∈ w.makes a) :
    i = w.hosted.length ∧ ∃ env me c step slice, a = .advance env me ∧ w.hostAt me = some c ∧
      c.Paths w env me step ∧ step.made = some slice ∧ w'.slots.live.get? slice = some i ∧ w'.Houses i slice := by
  cases hm with
  | rests slots calls makes =>
    rw [makes] at hi
    cases hi
  | begins => cases hi
  | @goes env me c step _ hc hp slots onward calls makes here =>
    rw [makes] at hi
    obtain ⟨slice, hs, rfl⟩ := List.mem_map.1 hi
    have hmade := Option.mem_toList.1 hs
    exact ⟨rfl, env, me, c, step, slice, rfl, hc, hp, hmade, slots ▸ hp.made_live hmade, _, here slice hmade, rfl⟩

/-- Every act but a shutdown keeps the workspaces in their slots until they have been torn down. -/
theorem Seated.step (h : (run setup acts).Seated past places) (hk : (run setup acts).Kept past places)
    (hfill : ∀ i ∈ places, i < (run setup acts).hosted.length) (ha : a ≠ .host .shutdown) :
    (run setup (acts ++ [a])).Seated (past ++ (run setup acts).endings a) (places ++ (run setup acts).makes a) := by
  have hm := perform_host (plays_orderly setup acts 0).1 (within_freely setup a)
  rw [← run_concat] at hm
  have earlier {i : Nat} {slice : Slice} (hi : i ∈ places) (hs : (run setup (acts ++ [a])).Houses i slice) :
      (run setup acts).Houses i slice := hs.before (hfill i hi)
  refine ⟨?_, ?_, ?_, ?_, ?_⟩
  · intro me c' hc'
    rcases hostAt_new hm hc' with hc' | ⟨request, rfl, -, rfl⟩ | ⟨env, c, step, rfl, hc, hp, hn, -⟩
    · exact h.calm hc'
    · cases request <;> first | rfl | exact absurd rfl ha
    · exact hp.calm (h.calm hc) hn
  · intro slice i hl
    cases hm with
    | rests slots calls makes =>
      rw [slots] at hl ⊢
      exact h.apart hl
    | begins hn slots calls =>
      rw [slots] at hl ⊢
      exact h.apart hl
    | goes hc hp slots onward calls makes here =>
      rw [slots] at hl ⊢
      exact hp.apart hk.toLatched hc h.apart hl
  · intro slice i hl
    rcases live_new hm hl with hl | ⟨-, hmakes, hw⟩
    · obtain ⟨hi, hs⟩ := h.live hl
      exact ⟨List.mem_append_left _ hi, hs.later [a]⟩
    · exact ⟨List.mem_append_right _ hmakes, _, hw, rfl⟩
  · intro slice i hi hs
    rcases List.mem_append.1 hi with hi | hi
    · rcases h.seat hi (earlier hi hs) with hseat | htorn
      · exact h.seat_step hk a hseat
      · exact .inr (htorn.append _)
    · obtain ⟨-, env, me, c, step, other, -, -, -, -, hl, hhouses⟩ := exists_live_of_makes hm hi
      rw [hs.unique hhouses]
      exact .inl (.live hl)
  · intro slice i j hi hj hij hsi hsj
    have old {i : Nat} (hi : i ∈ (run setup acts).makes a) : i = (run setup acts).hosted.length :=
      (exists_live_of_makes hm hi).1
    rcases List.mem_append.1 hi with hold | hnew <;> rcases List.mem_append.1 hj with hold' | hnew'
    · exact (h.earlier hold hold' hij (earlier hold hsi) (earlier hold' hsj)).append _
    · have hbefore := earlier hold hsi
      obtain ⟨-, env, me, c, step, other, rfl, hc, hp, hmade, -, hhouses⟩ := exists_live_of_makes hm hnew'
      rw [hsj.unique hhouses] at hbefore
      exact h.cleared hk hc hp hmade hold hbefore
    · -- an old place does not come after the new one
      have := hfill j hold'
      have := old hnew
      omega
    · have := old hnew
      have := old hnew'
      omega

/-- In every run without a shutdown the workspaces stand in their slots until they have been torn down. -/
theorem seated_run (setup : Setup) (acts : List Act) (ha : .host .shutdown ∉ acts) :
    (run setup acts).Seated (history setup acts) (made setup acts) := by
  induction acts using List.reverseRecOn with
  | nil => exact seated_initial setup
  | append_singleton acts a ih =>
    rw [history_concat, made_concat]
    simp only [List.mem_append, List.mem_singleton, not_or] at ha
    exact (ih ha.1).step (kept_run setup acts) (fun i hi => lt_of_made hi) (Ne.symm ha.2)

end World

end SliceSync
