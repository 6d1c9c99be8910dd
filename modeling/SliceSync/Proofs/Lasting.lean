import Mathlib.Data.List.Induction
import SliceSync.Proofs.DriverSteps
import SliceSync.Proofs.HostSteps
/-!
# What lasts through a call on the host

A call on the host touches the world in five ways: it takes calls on workspaces ahead, claims exits, changes the
slots, sets the active slice and creates workspaces. What each of these keeps lasts through every step of the call
(`World.Lasting.advanceHost`).

Every driver has a workspace (`World.housed_run`).
-/

namespace SliceSync

namespace World

/-- What is kept in each of the ways in which a call on the host touches the world. -/
structure Lasting (P : World → Prop) : Prop where
  call : ∀ {w : World} (env : Environment) (me : JobId) (i : Nat) (c : Call), P w → P (w.advanceCall env me i c).1
  claim : ∀ {w : World} (i : Nat), P w → P (w.modifyHosted i fun h => { h with claimed := true })
  slots : ∀ {w : World} (slots : Slots), P w → P { w with slots }
  active : ∀ {w : World} (slice : Slice), P w → P (w.setActiveConfiguration slice)
  create : ∀ {w : World} (env : Environment) (slice : Slice), P w → P (w.createHosted env slice).1

namespace Lasting

variable {P : World → Prop} {w : World}

theorem advanceRetirement (h : Lasting P) (hw : P w) (env : Environment) (me : JobId) (i : Nat) (r : Retirement) :
    P (w.advanceRetirement env me i r).1 := by
  cases r with
  | disposing c =>
    have hcall := h.call env me i c hw
    unfold World.advanceRetirement
    dsimp only
    generalize w.advanceCall env me i c = r at hcall ⊢
    obtain ⟨w', going | done⟩ := r <;> exact hcall
  | claiming =>
    unfold World.advanceRetirement
    dsimp only
    split
    · exact hw
    · split
      · exact hw
      · exact h.claim i hw
  | joining =>
    unfold World.advanceRetirement
    dsimp only
    split <;> exact hw

theorem createWanted (h : Lasting P) (hw : P w) (env : Environment) (r : Reconciliation) (slice : Slice) :
    P (w.createWanted env r slice).1 := by
  have hmade := h.create env slice hw
  unfold World.createWanted
  generalize w.createHosted env slice = made at hmade ⊢
  obtain ⟨w', error | i⟩ := made
  · exact hmade
  · exact h.slots _ hmade

theorem forgetRetired (h : Lasting P) (hw : P w) (i : Nat) : P (w.forgetRetired i) := by
  unfold World.forgetRetired
  split
  · exact hw
  · split
    · split
      · exact h.slots _ hw
      · exact hw
    · exact hw

theorem performSlotTask (h : Lasting P) (hw : P w) (task : SlotTask) : P (w.performSlotTask task).1 := by
  cases task with
  | target slice mutations attempts =>
    unfold World.performSlotTask
    dsimp only
    split <;> exact h.slots _ hw
  | forget i cause retired error => exact h.slots _ (h.forgetRetired hw i)
  | drain => exact h.slots _ (h.slots _ hw)
  | reconcile | list | find => exact h.slots _ hw

theorem askSlots (h : Lasting P) (hw : P w) (me : JobId) (task : SlotTask) : P (w.askSlots me task).1 := by
  unfold World.askSlots
  dsimp only
  split
  · exact h.performSlotTask (h.slots _ hw) task
  · exact h.slots _ hw

theorem startHost (h : Lasting P) (hw : P w) (me : JobId) (request : HostRequest) : P (w.startHost me request).1 := by
  cases request with
  | activate slices active => exact h.askSlots (h.active active hw) me _
  | activeHandle =>
    unfold World.startHost
    dsimp only
    split
    · exact hw
    · exact h.askSlots hw me _
  | writeActive mutations attempts =>
    unfold World.startHost
    dsimp only
    split
    · exact hw
    · split
      · exact hw
      · exact h.askSlots hw me _
  | setSlices | handles | shutdown => exact h.askSlots hw me _

/-- What lasts is kept by every step of a call on the host. -/
theorem advanceHost (h : Lasting P) (hw : P w) (env : Environment) (me : JobId) (c : HostCall) :
    P (w.advanceHost env me c).1 := by
  cases c with
  | starting request => exact h.startHost hw me request
  | queued task =>
    unfold World.advanceHost
    dsimp only
    split
    · exact h.performSlotTask hw task
    · exact hw
  | creating r =>
    unfold World.advanceHost
    dsimp only
    split
    · exact h.slots _ hw
    · split
      · exact hw
      · split
        · exact h.slots _ hw
        · exact h.createWanted hw env _ _
  | evicting r slice i call =>
    have hcall := h.call env me i call hw
    unfold World.advanceHost
    dsimp only
    generalize w.advanceCall env me i call = result at hcall ⊢
    obtain ⟨w', going | done⟩ := result
    · exact hcall
    · exact h.createWanted hcall env r slice
  | retiring r =>
    unfold World.advanceHost
    dsimp only
    split <;> exact hw
  | disposing r i retirement =>
    have hretirement := h.advanceRetirement hw env me i retirement
    unfold World.advanceHost
    dsimp only
    generalize w.advanceRetirement env me i retirement = result at hretirement ⊢
    obtain ⟨w', going | done⟩ := result
    · exact hretirement
    · exact h.askSlots hretirement me _
  | writing mutations attempts i call =>
    have hcall := h.call env me i call hw
    unfold World.advanceHost
    dsimp only
    generalize w.advanceCall env me i call = result at hcall ⊢
    obtain ⟨w', going | (error | answer)⟩ := result
    · exact hcall
    · dsimp only
      split <;> exact hcall
    · cases answer <;> exact hcall
  | draining rest =>
    unfold World.advanceHost
    dsimp only
    split <;> exact hw
  | closing rest i retirement =>
    have hretirement := h.advanceRetirement hw env me i retirement
    unfold World.advanceHost
    dsimp only
    generalize w.advanceRetirement env me i retirement = result at hretirement ⊢
    obtain ⟨w', going | done⟩ := result <;> exact hretirement

end Lasting

/-! ## Drivers and their workspaces -/

/-- Every driver has a workspace. -/
def Housed (w : World) : Prop := ∀ e ∈ w.jobs, ∀ d, e.2 = .drive d → d.workspace < w.hosted.length

variable {w w' : World} {env : Environment} {me : JobId} {job : Job}

theorem Housed.congr (h : w.Housed) (hj : w'.jobs = w.jobs) (hp : w'.hosted.length = w.hosted.length) : w'.Housed := by
  intro e he d hd
  rw [hp]
  exact h e (hj ▸ he) d hd

/-- A new driver comes with its workspace. -/
theorem Housed.createHosted (h : w.Housed) (env : Environment) (slice : Slice) : (w.createHosted env slice).1.Housed := by
  unfold World.createHosted
  split
  · exact h
  · split
    · exact h
    · intro e he d hd
      rcases List.mem_append.1 he with he | he
      · exact Nat.lt_of_lt_of_le (h e he d hd) (by simp [addWorkspace, World.spawn])
      · rw [List.mem_singleton.1 he] at hd
        cases hd
        simp [addWorkspace, World.spawn]

end World

/-- A step of a driver touches no other job. -/
theorem Driver.Paths.jobs {w : World} {env : Environment} {me : JobId} {d : Driver} {event : Option DriverEvent}
    {r : World × Onward Driver DriverExit} (h : d.Paths w env me event r) : r.1.jobs = w.jobs := by
  cases h with
  | works _ hg | succeeds _ hg => rw [← (w.advanceCall_grows env me d.workspace _).2.1, hg]
  | fails _ hg =>
    rw [← (w.advanceCall_grows env me d.workspace _).2.1, hg]
    rfl
  | _ => rfl

namespace World

variable {w w' : World} {env : Environment} {me : JobId} {job : Job}

theorem housed_lasting : Lasting Housed where
  call env me i c hw := hw.congr (advanceCall_grows _ env me i c).2.1 (advanceCall_spares _ env me i c).places
  claim i hw := hw.congr rfl (modifyHosted_spares _ i _).places
  slots _ hw := hw.congr rfl rfl
  active _ hw := hw.congr rfl rfl
  create env slice hw := hw.createHosted env slice

theorem Housed.spawn (h : w.Housed) (hj : ∀ d, job ≠ .drive d) : (w.spawn job).Housed := by
  intro e he d hd
  rcases List.mem_append.1 he with he | he
  · exact h e he d hd
  · rw [List.mem_singleton.1 he] at hd
    exact absurd hd (hj d)

/-- A step of a job leaves every driver its workspace, and is no driver's without one. -/
theorem Housed.advanceJob (h : w.Housed) (env : Environment) (hj : w.job? me = some job) :
    (w.advanceJob env me job).1.Housed ∧
      ∀ d, (w.advanceJob env me job).2 = .going (.drive d) → d.workspace < (w.advanceJob env me job).1.hosted.length := by
  cases job with
  | call i c =>
    refine ⟨?_, fun d hd => nomatch kind_of_going hd⟩
    rw [advanceJob_call]
    exact housed_lasting.call env me i c h
  | retire i r =>
    refine ⟨?_, fun d hd => nomatch kind_of_going hd⟩
    rw [advanceJob_retire]
    exact housed_lasting.advanceRetirement h env me i r
  | drive d =>
    have hplace : d.workspace < w.hosted.length := h _ (job?_mem hj) d rfl
    have hplaces := (w.advanceDriver_spares env me d).places
    obtain ⟨event, -, hp⟩ := w.advanceDriver_paths env me d
    rw [advanceJob_drive]
    refine ⟨h.congr hp.jobs hplaces, fun d'' hd'' => ?_⟩
    obtain ⟨d', hgoing, heq⟩ := Onward.bimap_eq_going_iff.1 hd''
    cases heq
    rw [(hp.same hgoing).1]
    exact hplaces ▸ hplace
  | send s =>
    have hjobs : (w.advanceSending me s).1.jobs = w.jobs := by
      obtain ⟨source, hsource⟩ := w.advanceSending_eq me s
      rw [hsource]
    refine ⟨?_, fun d hd => nomatch kind_of_going hd⟩
    rw [advanceJob_send]
    exact h.congr hjobs (w.advanceSending_spares me s).places
  | host c =>
    refine ⟨?_, fun d hd => nomatch kind_of_going hd⟩
    rw [advanceJob_host]
    exact housed_lasting.advanceHost h env me c

theorem Housed.advance (h : w.Housed) (env : Environment) (me : JobId) : (w.advance env me).Housed := by
  cases hj : w.job? me with
  | none => rwa [advance_of_none hj]
  | some job =>
    obtain ⟨hw, hgoing⟩ := h.advanceJob env hj
    obtain ⟨jobs, outcomes, hadvance⟩ := advance_eq env hj
    intro e he d hd
    have hplace : d.workspace < (w.advanceJob env me job).1.hosted.length := by
      obtain he | ⟨job', hgo, rfl⟩ := mem_jobs_advance hj he
      · exact hw e he d hd
      · exact hgoing d (hgo.trans (congrArg _ hd))
    rwa [hadvance]

/-- In every run every driver has a workspace. -/
theorem housed_run (setup : Setup) (acts : List Act) : (run setup acts).Housed := by
  induction acts using List.reverseRecOn with
  | nil => exact fun e he => absurd he List.not_mem_nil
  | append_singleton acts a ih =>
    rw [run_concat]
    cases a with
    | addWorkspace slice =>
      exact fun e he d hd => Nat.lt_of_lt_of_le (ih e he d hd) (by simp [perform, World.addWorkspace])
    | call | retire | host | send => exact ih.spawn fun d hd => by cases hd
    | create env slice => exact ih.createHosted env slice
    | requestUnload place | claimExit place => exact ih.congr rfl (modifyHosted_spares _ place _).places
    | advance env me => exact ih.advance env me
    | setSource | setActiveConfiguration | setActiveEditor => exact ih.congr rfl rfl

end World

end SliceSync
