import SliceSync.Proofs.WindingUp
/-!
# What is reported

When the driver of a script's slice has ended its lane has come to its end, and what is found out about the slice then
(`Outlook.found?`) depends on the script alone: whether it has an evaluation, whether the first of these says what a
context needs, how many updates it has and whether there is a build among them, wherever it stands (`Script.Came`). Once
the host has shut down as well the report on it is the one that the script calls for (`Script.Came.reported`).
-/

namespace SliceSync

open Event (tellings creations callsOf)

/-! ## What is found out about slices -/

/-- What is told of a script's slice before the shutdown. -/
inductive Script.Came (s : Script) (w : World) (size : Nat) (o : SliceOutcome) : Prop
  | unfed (hr : s.firstRules? = none)
      (ho : o =
        { slice := s.slice, exit := some .completed, evaluationIntegrated := false, buildIntegrated := false
          processed := 0, contextId := none })
  | refused {rules : NameMap Snapshot} {name : String} (hr : s.firstRules? = some rules) (hn : name ∈ requiredProperties)
      (hp : generalProperty? rules name = none)
      (ho : o =
        { slice := s.slice, exit := some (.faulted (.missingProperty WellKnown.generalRule name))
          evaluationIntegrated := false, buildIntegrated := false, processed := 0, contextId := none })
  | served {rules : NameMap Snapshot} {place : Nat} {ws : Workspace} {handle : ContextHandle} {params : CreationParams}
      (hr : s.firstRules? = some rules) (hp : ∀ name ∈ requiredProperties, (generalProperty? rules name).isSome)
      (hi : place < size) (hw : w.workspace? place = some ws) (hs : ws.status ≠ .disposed) (hc : ws.context = some handle)
      (hm : (creations w.events).filter (·.2.id = params.id) = [(handle.serial, params)])
      (ho : o =
        { slice := s.slice, exit := some .completed, evaluationIntegrated := true, buildIntegrated := s.hasBuild
          processed := s.scripted.length, contextId := some params.id })

/-- What is found out about a slice from what its lane shows. -/
def Outlook.found? (o : Outlook) (slice : Slice) : Option SliceOutcome :=
  o.workspace.map fun ws =>
    { slice
      exit := o.exit
      evaluationIntegrated := ws.evaluation = .integrated
      buildIntegrated := ws.buildIntegrated
      processed := o.told
      contextId := ws.contextId }

theorem World.outcomeOf_lane (w : World) (scenario : Scenario) (slices : List Slice) (k : Nat) (script : Script) :
    w.outcomeOf scenario script.slice (slices.idxOf script.slice) (w.exitOf (slices.idxOf script.slice)) =
      (w.outlook (scenario.lane slices k script)).found? script.slice := by
  have htold : w.processedFor (scenario.configured script.slice).ownerTag =
      (w.outlook (scenario.lane slices k script)).told := w.processedFor_eq _
  rw [outcomeOf, htold]
  rfl

/-- Where a script's lane has come to its end, this is found out about its slice. -/
theorem Lane.Ended.came {w : World} {scenario : Scenario} {slices : List Slice} {k : Nat} {script : Script}
    (h : (scenario.lane slices k script).Ended (w.outlook (scenario.lane slices k script)))
    (hi : slices.idxOf script.slice < slices.length) {out : SliceOutcome}
    (ho : (w.outlook (scenario.lane slices k script)).found? script.slice = some out) : script.Came w slices.length out := by
  obtain ⟨ws', hws', rfl⟩ := Option.map_eq_some_iff.1 ho
  cases h with
  | unfed he hw hx ht =>
    cases hws'.symm.trans hw
    refine .unfed (Script.firstRules?_eq_none he) ?_
    rw [ht, hx]
    rfl
  | @refused e error ws he hp hw hx hs ht =>
    cases hws'.symm.trans hw
    obtain ⟨rules, hr, hcarries⟩ := Script.firstRules?_eq_some he
    rcases e.creationParams_cases with ⟨name, hn, hmissing, herror⟩ | ⟨⟨params, hok⟩, -⟩
    · cases hp.symm.trans herror
      refine .refused hr hn ((hcarries name).symm.trans hmissing) ?_
      simp [ht, hx, hs.evaluation, hs.built, hs.contextId]
    · cases hp.symm.trans hok
  | @served e params ws handled he hp hw hx hs hu ht =>
    obtain rfl : ws = ws' := Option.some.inj (hw.symm.trans hws')
    obtain ⟨rules, hr, hcarries⟩ := Script.firstRules?_eq_some he
    obtain ⟨handle, -, params', hcontext, -, -, hid, hparams, hmade⟩ := hs.context
    have hcontextId : (scenario.lane slices k script).contextId? = some params'.id := by
      rw [Lane.contextId?, hparams]
      rfl
    have hmade' : (creations w.events).filter (·.2.id = params'.id) = [(handle.serial, params')] := by
      refine Eq.trans (List.filter_congr fun c _ => ?_) hmade
      simp [hcontextId, eq_comm]
    have hstatus : ws.status ≠ .disposed := by
      rw [hs.opened.status]
      rintro ⟨⟩
    have hbuilt : ws.buildIntegrated = script.hasBuild := by
      rw [hs.built, hu.any_eq]
      exact script.updates_hasBuild _
    have htold : (w.outlook (scenario.lane slices k script)).told = script.scripted.length :=
      ht.trans (script.updates_length _)
    rcases e.creationParams_cases with ⟨name, -, -, herror⟩ | ⟨-, hpresent⟩
    · cases hp.symm.trans herror
    · refine .served hr (fun name hn => ?_) hi hw hstatus hcontext hmade' ?_
      · rw [← hcarries name]
        exact hpresent name hn
      · simp [htold, hx, hbuilt, hs.opened.evaluation, hid]

/-- A lane that has come to its end leaves its workspace to whoever asks for it, and its driver's exit to be claimed. -/
theorem Lane.Ended.rests {l : Lane} {o : Outlook} (h : l.Ended o) :
    o.exit.isSome ∧ ∃ ws, o.workspace = some ws ∧ ws.lock = {} := by
  cases h with
  | unfed _ hw hx => exact ⟨by rw [hx]; rfl, _, hw, rfl⟩
  | refused _ _ hw hx hs => exact ⟨by rw [hx]; rfl, _, hw, hs.lock⟩
  | served _ _ hw hx hs => exact ⟨by rw [hx]; rfl, _, hw, hs.opened.lock⟩

namespace World

variable {w : World} {scenario : Scenario} {settings : Settings} {slices : List Slice} {k : Nat} {l : Lane}

/-! ## Exits are claimed -/

/-- Claiming an exit shows nowhere but in the claim. -/
theorem outlook_claimExit (w : World) (i : Nat) (l : Lane) : (w.claimExit i).outlook l = w.outlook l := by
  rw [outlook, claimExit, workspace?_claimed, exitOf_claimed]
  rfl

theorem isClaimed_claimExit {i j : Nat} (hne : i ≠ j) : (w.claimExit i).isClaimed j = w.isClaimed j := by
  unfold isClaimed claimExit modifyHosted
  rw [List.getElem?_modify_ne _ _ hne]

theorem Fed.claimExit (h : w.Fed scenario settings slices k) (i : Nat) : (w.claimExit i).Fed scenario settings slices k :=
  { h with
    follows := fun l hl => by
      rw [outlook_claimExit]
      exact h.follows l hl
    idle := fun j hj hfree => by
      obtain ⟨hdriver, hworkspace, hexit, hpair⟩ := h.idle j hj hfree
      exact ⟨hdriver, by rwa [World.claimExit, workspace?_claimed], by rwa [World.claimExit, exitOf_claimed], hpair⟩ }

/-! ## The shutdown begins -/

/-- The contexts that are alive, by place and number. -/
def alive (w : World) (size : Nat) : Set (Nat × Nat) :=
  {c | c.1 < size ∧ ∃ ws handle, w.workspace? c.1 = some ws ∧ ws.status ≠ .disposed ∧ ws.context = some handle ∧
    handle.serial = c.2}

/-- With the scripts at their end the host begins to shut down. -/
theorem Fed.windsUp (h : w.Fed scenario settings slices scenario.scripts.length) (hd : scenario.Distinct) (hf : w.Fit)
    (hc : w.source.canOpen = true)
    (hover : ∀ l ∈ scenario.lanes slices, l.Over (w.outlook l)) :
    (w.spawn (.host (.starting .shutdown))).WindsUp w.nextJob slices.length (w.alive slices.length) (creations w.events)
      w.slots.live.values none := by
  have hall : (scenario.lanes slices).take scenario.scripts.length = scenario.lanes slices :=
    List.take_of_length_le (by simp [Scenario.lanes])
  have hplays := h.toPlays
  rw [hall] at hplays
  have hjob := job?_spawn hf.fresh (.host (.starting .shutdown))
  have hdriver {i : Nat} (hi : i < slices.length) :
      (w.spawn (.host (.starting .shutdown))).job? (i + 1) = w.job? (i + 1) := by
    have hlt : i + 1 < w.nextJob := by
      rw [h.nextJob]
      omega
    rw [hjob, Function.update_of_ne (Nat.ne_of_lt hlt)]
  have hlives {i : Nat} (hi : i < slices.length) : i ∈ w.slots.live.values :=
    Listing.mem_values_iff.2 ⟨slices[i], (h.live _ _).2 (List.getElem?_eq_getElem hi)⟩
  have hlane {i : Nat} (hi : i < slices.length) : (∃ l ∈ scenario.lanes slices, l.place = i) ∨ w.Idle i := by
    by_cases hlane : ∃ l ∈ scenario.lanes slices, l.place = i
    · exact .inl hlane
    · exact .inr (hplays.idle i hi fun l hl heq => hlane ⟨l, hl, heq⟩)
  exact
    { opens := hc
      made := rfl
      locks := fun i hi ws hws => by
        have hws : w.workspace? i = some ws := hws
        rcases hlane hi with ⟨l, hl, rfl⟩ | hidle
        · obtain ⟨-, ws', hws', hlock⟩ := (hover l hl).ended.rests
          cases hws.symm.trans hws'
          exact hlock
        · obtain ⟨slice, hworkspace⟩ := hidle.workspace
          cases hworkspace.symm.trans hws
          rfl
      owed := fun c hmem => .inr ⟨hlives hmem.1, hmem.2⟩
      departs := fun i hi => by
        rcases hlane hi with ⟨l, hl, rfl⟩ | hidle
        · exact .ended (hover l hl).ended.rests.1 ((hdriver hi).trans (hover l hl).driver)
        · obtain ⟨threshold, hdrives⟩ := hidle.driver
          obtain ⟨slice, hworkspace⟩ := hidle.workspace
          refine .waits ?_ ((hdriver hi).trans hdrives) hidle.pair (.inl (hlives hi))
          change (w.workspace? i).isSome
          rw [hworkspace]
          rfl
      jobs := fun other ho => by
        by_cases hother : other = w.nextJob
        · exact .inl hother
        · refine .inr ?_
          rw [hjob, Function.update_of_ne hother] at ho
          rcases hplays.jobs other ho with ⟨l, hl, rfl | rfl⟩ | ⟨i, hi, heq, -⟩
          · exact ⟨l.place, (h.among hd).place l hl, rfl⟩
          · rw [show w.job? l.sender = none from (hover l hl).sender] at ho
            cases ho
          · exact ⟨i, hi, heq⟩
      places := fun i hi => by
        obtain ⟨slice, hlive⟩ := Listing.mem_values_iff.1 hi
        exact (List.getElem?_eq_some_iff.1 ((h.live _ _).1 hlive)).1
      winds := by
        have hself : (w.spawn (.host (.starting .shutdown))).job? w.nextJob = some (.host (.starting .shutdown)) := by
          rw [hjob, Function.update_self]
        exact .starts hself h.lock }

end World

/-! ## Reports -/

/-- Nothing has come of a slice's updates. -/
structure SliceReport.IsBare (r : SliceReport) : Prop where
  processed : r.processed = 0
  evaluation : r.evaluationIntegrated = false
  build : r.buildIntegrated = false
  context : r.context = none

/-- What is to be reported of a script's slice. -/
structure Script.Reported (s : Script) (r : SliceReport) : Prop where
  slice : r.slice = s.slice
  /-- Without an evaluation nothing comes of the updates, however many builds there are. -/
  unfed : s.firstRules? = none → r.describeExit = "completed" ∧ r.IsBare
  /-- The first evaluation lacks a property that a context needs. -/
  refused : ∀ rules, s.firstRules? = some rules → (∃ name ∈ requiredProperties, generalProperty? rules name = none) →
    (∃ name ∈ requiredProperties, generalProperty? rules name = none ∧
      r.exit = some (.faulted (.missingProperty WellKnown.generalRule name))) ∧
      (∃ message, r.describeExit = "faulted: " ++ message) ∧ r.IsBare
  /-- All updates are integrated, and the context is gone in the end. -/
  served : ∀ rules, s.firstRules? = some rules → (∀ name ∈ requiredProperties, (generalProperty? rules name).isSome) →
    r.describeExit = "completed" ∧ r.processed = s.scripted.length ∧ r.evaluationIntegrated = true ∧
      r.buildIntegrated = s.hasBuild ∧ ∃ summary, r.context = some summary ∧ summary.disposed = true

/-- A context that was made once and has got its disposal is summed up as disposed. -/
theorem ContextSummary.disposed_of_mem {events : List Event} {id : ContextId} {serial : Nat} {params : CreationParams}
    (hm : (creations events).filter (·.2.id = id) = [(serial, params)]) (hd : .context serial .dispose ∈ events) :
    ∃ summary, ofEvents? events id = some summary ∧ summary.disposed = true := by
  rw [ofEvents?_eq, hm]
  refine ⟨_, rfl, ?_⟩
  have hcall : .dispose ∈ callsOf serial events := List.mem_filterMap.2 ⟨_, hd, if_pos rfl⟩
  simpa [ofCalls] using hcall

theorem Script.Came.reported {s : Script} {w : World} {size : Nat} {o : SliceOutcome} {events : List Event}
    (h : s.Came w size o) (hmade : creations events = creations w.events)
    (hdisposed : ∀ {i : Nat} {ws : Workspace} {handle : ContextHandle}, i < size → w.workspace? i = some ws →
      ws.status ≠ .disposed → ws.context = some handle → .context handle.serial .dispose ∈ events) :
    s.Reported (o.report events) := by
  cases h with
  | unfed hr ho =>
    subst ho
    refine ⟨rfl, fun _ => ⟨rfl, rfl, rfl, rfl, rfl⟩, fun rules hrules => ?_, fun rules hrules => ?_⟩ <;>
      cases hr.symm.trans hrules
  | @refused rules name hr hn hp ho =>
    subst ho
    refine ⟨rfl, fun hnone => ?_, fun rules' hrules _ => ?_, fun rules' hrules hall => ?_⟩
    · cases hr.symm.trans hnone
    · cases hr.symm.trans hrules
      exact ⟨⟨name, hn, hp, rfl⟩, ⟨_, rfl⟩, rfl, rfl, rfl, rfl⟩
    · cases hr.symm.trans hrules
      have hsome := hall name hn
      rw [hp] at hsome
      cases hsome
  | @served rules place ws handle params hr hp hi hw hs hc hm ho =>
    subst ho
    refine ⟨rfl, fun hnone => ?_, fun rules' hrules hlacks => ?_, fun rules' hrules _ => ?_⟩
    · cases hr.symm.trans hnone
    · cases hr.symm.trans hrules
      obtain ⟨name, hn, hmissing⟩ := hlacks
      have hsome := hp name hn
      rw [hmissing] at hsome
      cases hsome
    · exact ⟨rfl, rfl, rfl, rfl, ContextSummary.disposed_of_mem (hmade ▸ hm) (hdisposed hi hw hs hc)⟩

end SliceSync
