import SliceSync.Proofs.Standing
/-!
# Replays in every order

The steps of a replay can be taken in any order. Each leaves less to do (`Replaying.Sound.step`), so no order goes on for
ever, and until the routine returns there is a step to take (`Replaying.Sound.live`). So every order comes to its end,
which is the return of the routine with the reports that the scripts call for. `Scenario.replay` takes the steps in one of
these orders (`Replaying.Sound.play`).

Main statement: `Scenario.replayed`.
-/

namespace SliceSync

namespace Replaying

variable {scenario : Scenario} {settings : Settings} {r r' r'' next : Replaying} {me : JobId} {n m : Nat}

/-! ## Every step leaves less to do -/

/-- A replay that stands where one can get to, with its jobs in order. -/
structure Sound (scenario : Scenario) (settings : Settings) (r : Replaying) : Prop where
  fit : r.world.Fit
  numbered : r.world.Numbered
  stands : r.Stands scenario settings

/-- Without streams that are too long a step comes to what it does. -/
theorem goes_eq (h : next.world.source.canOpen = true) : r.goes next = next := by
  simp [goes, World.overruns, h]

variable (hd : scenario.Distinct) (hc : settings.updateChannelCapacity ≤ Source.capacityLimit)
include hd hc

theorem Sound.advance (h : r.Sound scenario settings) (hr : r.routine.isOver = false)
    (hme : r.world.canAdvance {} me = true) :
    r.goes { r with world := r.world.advance {} me } = { r with world := r.world.advance {} me } ∧
      ({ r with world := r.world.advance {} me } : Replaying).Sound scenario settings ∧
      ({ r with world := r.world.advance {} me } : Replaying).work scenario < r.work scenario := by
  have hstands := h.stands.advance hd h.fit h.numbered hr hme
  refine ⟨goes_eq (hstands.canOpen hc), ⟨h.fit.advance {} me, h.numbered.advance h.fit.keeps trivial, hstands⟩, ?_⟩
  exact Nat.add_lt_add_right (World.advance_work h.fit hme) _

theorem Sound.proceed (h : r.Sound scenario settings) (hp : r.proceed? scenario = some next) :
    r.goes next = next ∧ next.Sound scenario settings ∧ next.work scenario < r.work scenario := by
  obtain ⟨hchanges, hwork⟩ := proceed_spec hp
  have hstands := h.stands.proceed hd hc h.fit h.numbered hp
  exact ⟨goes_eq (hstands.canOpen hc), ⟨hchanges.fit h.fit, hchanges.numbered h.fit h.numbered, hstands⟩, hwork⟩

theorem Sound.step (h : r.Sound scenario settings) (hs : r.Step scenario next) :
    next.Sound scenario settings ∧ next.work scenario < r.work scenario := by
  cases hs with
  | job hr hme =>
    obtain ⟨hgoes, hsound, hwork⟩ := h.advance hd hc hr hme
    rw [hgoes]
    exact ⟨hsound, hwork⟩
  | routine hp =>
    obtain ⟨hgoes, hsound, hwork⟩ := h.proceed hd hc hp
    rw [hgoes]
    exact ⟨hsound, hwork⟩

/-- Every step that was taken is one less to take. -/
theorem Sound.reaches (h : r.Sound scenario settings) (hr : r.Reaches scenario n r') :
    r'.Sound scenario settings ∧ n + r'.work scenario ≤ r.work scenario := by
  induction hr with
  | refl => exact ⟨h, Nat.le_of_eq (Nat.zero_add _)⟩
  | step _ hs ih =>
    obtain ⟨hsound, hleft⟩ := ih
    obtain ⟨hsound', hwork⟩ := hsound.step hd hc hs
    exact ⟨hsound', by omega⟩

omit hd hc

/-- Until the routine has returned something can go on: a job, or with all of them stuck the routine. -/
theorem Sound.live (h : r.Sound scenario settings) : r.routine = .returned ∨ ∃ next, r.Step scenario next := by
  cases hr : r.routine.isOver with
  | true => exact .inl (h.stands.returned_of_isOver hr)
  | false =>
    right
    by_cases hrest : r.world.AtRest {}
    · obtain ⟨next, hp⟩ := h.stands.goesOn h.numbered hrest hr
      exact ⟨_, .routine hp⟩
    · obtain ⟨me, hme⟩ := not_forall.1 hrest
      exact ⟨_, .job hr (Bool.eq_true_of_not_eq_false hme)⟩

/-! ## One of the orders -/

theorem Step.reaches (h : r.Step scenario next) : r.Reaches scenario 1 next := .step .refl h

theorem Reaches.trans (h : r.Reaches scenario n r') (h' : r'.Reaches scenario m r'') :
    r.Reaches scenario (n + m) r'' := by
  induction h' with
  | refl => exact h
  | step _ hs ih => exact .step ih hs

theorem Changes.attends {w w' : World} {line stuck : List JobId} (h : Changes w w') (hf : w.Fit)
    (ha : Schedule.Attends { world := w, line, stuck }) :
    Schedule.Attends { world := w', line := line ++ List.range' w.nextJob (w'.nextJob - w.nextJob), stuck } := by
  cases h with
  | nothing h =>
    subst h
    exact fun me hme => (ha me hme).imp_left (List.mem_append_left _)
  | claims h =>
    subst h
    exact fun me hme => (ha me hme).imp_left (List.mem_append_left _)
  | @begins source job hj h =>
    subst h
    have hw : ({ w with source } : World).Fit := ⟨hf.nodup, hf.fresh, hf.jobs⟩
    have hbegun : List.range' w.nextJob (w.nextJob + 1 - w.nextJob) = [w.nextJob] := by
      rw [Nat.add_sub_cancel_left, List.range'_one]
    change Schedule.Attends { world := _, line := line ++ List.range' w.nextJob (w.nextJob + 1 - w.nextJob), stuck }
    rw [hbegun]
    exact Schedule.Attends.spawn (s := { world := { w with source }, line, stuck }) ha hw job

include hd hc

/-- With all jobs taken until they are stuck the replay got there step by step. -/
theorem Sound.settle (h : r.Sound scenario settings) (hr : r.routine.isOver = false) {s : Schedule}
    (hs : s.world = r.world) (ha : s.Attends) :
    (∃ n, r.Reaches scenario n { r with world := (s.settle {}).world } ∧ (n = 0 → (s.settle {}).world = r.world)) ∧
      (s.settle {}).Attends ∧ (s.settle {}).world.AtRest {} := by
  have hsettles := Schedule.settle_induction
    (P := fun w => ∃ n, r.Reaches scenario n { r with world := w } ∧ (n = 0 → w = r.world))
    (fun {w me} ⟨n, hreaches, _⟩ _ hme => by
      obtain ⟨hgoes, -⟩ := ((h.reaches hd hc hreaches).1).advance hd hc hr hme
      refine ⟨n + 1, ?_, nofun⟩
      have hstep := hreaches.step (.job hr hme)
      rwa [hgoes] at hstep)
    ⟨0, hs ▸ .refl, fun _ => hs⟩ (hs ▸ h.fit) ha
  exact ⟨hsettles.1, hsettles.2.2⟩

/-- With as many turns as there is work the routine returns. -/
theorem Sound.play (turns : Nat) {line stuck : List JobId} (h : r.Sound scenario settings)
    (ha : Schedule.Attends { world := r.world, line, stuck }) (hturns : r.work scenario < turns) :
    (∃ n, r.Reaches scenario n (r.play scenario turns line stuck)) ∧
      (r.play scenario turns line stuck).routine = .returned := by
  induction turns generalizing r line stuck with
  | zero => exact absurd hturns (Nat.not_lt_zero _)
  | succ turns ih =>
    unfold Replaying.play
    cases hp : r.proceed? scenario with
    | some next =>
      obtain ⟨hgoes, hsound, hwork⟩ := h.proceed hd hc hp
      have hstep := Step.reaches (.routine hp)
      rw [hgoes] at hstep
      dsimp only
      rw [hgoes]
      obtain ⟨⟨n, hreaches⟩, hreturned⟩ := ih hsound ((proceed_spec hp).1.attends h.fit ha) (by omega)
      exact ⟨⟨1 + n, hstep.trans hreaches⟩, hreturned⟩
    | none =>
      dsimp only
      cases hr : r.routine.isOver with
      | true => exact ⟨⟨0, .refl⟩, h.stands.returned_of_isOver hr⟩
      | false =>
        obtain ⟨⟨n, hreaches, hstays⟩, hattends, hrest⟩ := h.settle hd hc hr rfl ha
        obtain ⟨hsound, hwork⟩ := h.reaches hd hc hreaches
        -- with the routine waiting some job could go on
        have hsome : n ≠ 0 := by
          intro hn
          obtain ⟨next, hgoes⟩ := h.stands.goesOn h.numbered (hstays hn ▸ hrest) hr
          cases hp.symm.trans hgoes
        rw [if_neg Bool.false_ne_true, goes_eq (hsound.stands.canOpen hc)]
        obtain ⟨⟨m, hreaches'⟩, hreturned⟩ := ih hsound hattends (by omega)
        exact ⟨⟨n + m, hreaches.trans hreaches'⟩, hreturned⟩

end Replaying

namespace Scenario

variable (scenario : Scenario) (settings : Settings)

theorem start_sound :
    (scenario.start settings).Sound scenario settings where
  fit := (World.fit_initial _).spawn (show (Job.host (.starting scenario.hostRequest)).Fit from trivial)
  numbered := (World.numbered_initial _).spawn (World.fit_initial _).fresh _
  stands := .opening rfl rfl rfl (scenario.start_opening settings)

/-- In whatever order its steps are taken a replay comes to its end, with a report on each script. -/
structure Replayed : Prop where
  /-- No order goes on for ever. -/
  bounded : ∀ n r, (scenario.start settings).Reaches scenario n r → n ≤ (scenario.start settings).work scenario
  /-- No order gets stuck, fails or panics: the routine has returned or there is a step to take. -/
  live : ∀ n r, (scenario.start settings).Reaches scenario n r → r.routine = .returned ∨ ∃ next, r.Step scenario next
  /-- When the routine has returned the scripts are reported on, in their order. -/
  reports : ∀ n r, (scenario.start settings).Reaches scenario n r → r.routine = .returned →
    List.Forall₂ Script.Reported scenario.scripts (r.report scenario).slices
  /-- A replay takes the steps in one of these orders. -/
  replay : ∃ n r, (scenario.start settings).Reaches scenario n r ∧ r.routine = .returned ∧
    scenario.replay settings = r.report scenario

/-- Every scenario that lists each slice once is replayed to its end, and with any settings that ask for streams no longer
than streams can be the reports are those that its scripts call for. -/
theorem replayed (hd : scenario.Distinct) (hc : settings.updateChannelCapacity ≤ Source.capacityLimit) :
    scenario.Replayed settings := by
  have hstart := scenario.start_sound settings
  refine ⟨fun n r hr => ?_, fun n r hr => (hstart.reaches hd hc hr).1.live, fun n r hr hreturned => ?_, ?_⟩
  · exact Nat.le_trans (Nat.le_add_right _ _) (hstart.reaches hd hc hr).2
  · exact (hstart.reaches hd hc hr).1.stands.reported hreturned
  · have hattends : Schedule.Attends { world := (scenario.start settings).world, line := [0] } := by
      exact Schedule.Attends.spawn (s := { world := World.initial { settings } }) nofun (World.fit_initial _) _
    obtain ⟨⟨n, hreaches⟩, hreturned⟩ := hstart.play hd hc _ hattends (Nat.lt_succ_self _)
    exact ⟨n, _, hreaches, hreturned, rfl⟩

/-- Three slices: one with a build before its first evaluation, one with a build only, and one whose evaluation says
nothing of the project. -/
def threeWays : Scenario where
  project := "/src/a.proj"
  scripts :=
    [{ slice := .ofList [("Configuration", "Debug")]
       scripted :=
        [⟨1, .build ["/r:a.dll"]⟩,
          ⟨2, .evaluation
            (.ofList
              [(WellKnown.generalRule,
                { properties := .ofList
                    [(WellKnown.language, "C#"), (WellKnown.projectFullPath, "/src/a.proj"),
                      (WellKnown.targetPath, "/src/out/a.dll")] })]) ∅⟩] },
      { slice := .ofList [("Configuration", "Release")], scripted := [⟨1, .build []⟩] },
      { slice := .empty, scripted := [⟨1, .evaluation ∅ ∅⟩] }]

set_option maxRecDepth 100000 in
/-- The narrowest streams do, and no build need be held back without a warning. -/
theorem replayed_threeWays :
    threeWays.Distinct ∧ 1 ≤ Source.capacityLimit ∧
      threeWays.Replayed { updateChannelCapacity := 1, orderingBufferWarnThreshold := 0 } := by
  have hd : threeWays.Distinct := ⟨by decide, by decide⟩
  have hc : 1 ≤ Source.capacityLimit := by decide
  exact ⟨hd, hc, replayed _ _ hd hc⟩

end Scenario

end SliceSync
