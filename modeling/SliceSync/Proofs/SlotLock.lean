import SliceSync.Proofs.HostSteps
import SliceSync.Proofs.Lines
/-!
# The lock of the slots

The slots are locked by the call that creates what is wanted, or passed to one that waits for them, so nobody
else changes what is live or retiring; and the slot of a workspace that is being evicted is free
(`World.Latched`).
-/

namespace SliceSync

namespace HostCall

/-- Whether a call has locked the slots while it stands here. -/
def holds : HostCall → Bool
  | .creating _ | .evicting .. => true
  | _ => false

/-- Whether a call waits for the slots while it stands here. -/
def isQueued : HostCall → Bool
  | .queued _ => true
  | _ => false

variable {w : World} {env : Environment} {me : JobId} {c : HostCall} {step : HostStep}

theorem Asks.unlocked {task : SlotTask} (h : c.Asks w env me task) : c.isQueued = false ∧ c.holds = false := by
  cases h <;> exact ⟨rfl, rfl⟩

theorem Clears.holds {slice : Slice} {r : Reconciliation} (h : c.Clears w env me slice r) :
    c.isQueued = false ∧ c.holds = true := by
  cases h <;> exact ⟨rfl, rfl⟩

theorem Walks.keeps {c' : HostCall} (h : c.Walks w env me c') :
    c'.isQueued = false ∧ c.isQueued = false ∧ c'.holds = c.holds := by
  cases h <;> exact ⟨rfl, rfl, rfl⟩

theorem Ends.unlocked {result : Except SyncError HostAnswer} (h : c.Ends w env me result) :
    c.isQueued = false ∧ c.holds = false := by
  cases h <;> exact ⟨rfl, rfl⟩

/-- What a step does to a lock, and where the call stands after it. -/
inductive Turns (lock : Lock) (me : JobId) (c : HostCall) (next : Option HostCall) : Lock → Prop
  | stays (hq : next.any isQueued = c.isQueued) (hh : next.any holds = c.holds) : Turns lock me c next lock
  | joins {other : JobId} (hc : c.isQueued = false ∧ c.holds = false) (hl : lock.holder = some other)
      (hq : next.any isQueued = true) (hh : next.any holds = false) :
      Turns lock me c next { lock with waiting := lock.waiting ++ [me] }
  /-- The lock is taken where it is free, or where it has been passed on; it is kept, or given back at once. -/
  | takes {taken lock' : Lock}
      (ht : (c.isQueued = false ∧ c.holds = false) ∧ lock.holder = none ∧ taken = { lock with holder := some me } ∨
        c.isQueued = true ∧ lock.holder = some me ∧ taken = lock)
      (hq : next.any isQueued = false)
      (hn : lock' = taken ∧ next.any holds = true ∨ lock' = taken.release ∧ next.any holds = false) :
      Turns lock me c next lock'
  | gives (hc : c.holds = true) (hq : next.any isQueued = false) (hh : next.any holds = false) :
      Turns lock me c next lock.release

/-- A step of a call on the host turns to the lock in one of these ways. -/
theorem Paths.turns (h : c.Paths w env me step) : Turns w.slots.lock me c step.onward.state? step.slots.lock := by
  cases h with
  | queues ha hl => exact .joins ha.unlocked hl rfl rfl
  | waits hl => exact .stays rfl rfl
  | @performs c task slots step hs hp =>
    have ht : (c.isQueued = false ∧ c.holds = false) ∧ w.slots.lock.holder = none ∧
          slots.lock = { w.slots.lock with holder := some me } ∨
        c.isQueued = true ∧ w.slots.lock.holder = some me ∧ slots.lock = w.slots.lock := by
      rcases hs with ⟨ha, hl, rfl⟩ | ⟨rfl, hl, rfl⟩
      · exact .inl ⟨ha.unlocked, hl, rfl⟩
      · exact .inr ⟨rfl, hl, rfl⟩
    cases hp with
    | reconciles => exact .takes ht rfl (.inl ⟨rfl, rfl⟩)
    | forgets | answers | targets | drains => exact .takes ht rfl (.inr ⟨rfl, rfl⟩)
  | settles hw => exact .gives rfl rfl rfl
  | keeps hw hl => exact .stays rfl rfl
  | evicts hw hl hr => exact .stays rfl rfl
  | makes hc => exact .stays hc.holds.1.symm hc.holds.2.symm
  | misses hc he => exact .stays hc.holds.1.symm hc.holds.2.symm
  | walks hc => exact .stays (hc.keeps.1.trans hc.keeps.2.1.symm) hc.keeps.2.2
  | ends hc => exact .stays hc.unlocked.1.symm hc.unlocked.2.symm

/-- Who has not locked the slots, and is not passed them, leaves them as they are. -/
theorem Paths.leaves (h : c.Paths w env me step) (hc : c.holds = false)
    (hl : ∃ other, other ≠ me ∧ w.slots.lock.holder = some other) :
    step.slots.live = w.slots.live ∧ step.slots.retiring = w.slots.retiring := by
  obtain ⟨other, hne, hl⟩ := hl
  cases h with
  | performs hs hp =>
    rcases hs with ⟨-, hfree, -⟩ | ⟨-, hmine, -⟩
    · exact absurd (hl.symm.trans hfree) nofun
    · exact absurd (Option.some.inj (hl.symm.trans hmine)) hne
  | evicts => cases hc
  | makes hc' | misses hc' => exact absurd (hc'.holds.2.symm.trans hc) nofun
  | _ => exact ⟨rfl, rfl⟩

/-- A call that turns to the lock keeps its line. -/
theorem Turns.line {lock lock' : Lock} {next : Option HostCall} {calls : JobId → Option HostCall}
    (ht : Turns lock me c next lock') (hc : calls me = some c)
    (h : lock.Line (fun job => (calls job).any isQueued = true) (fun job => (calls job).any holds = true)) :
    lock'.Line (fun job => (Function.update calls me next job).any isQueued = true)
      (fun job => (Function.update calls me next job).any holds = true) := by
  have hq : (calls me).any isQueued = c.isQueued := by simp [hc]
  have hh : (calls me).any holds = c.holds := by simp [hc]
  cases ht with
  | stays hnq hnh =>
    refine h.congr (fun job => ?_) fun job => ?_
    · by_cases hjob : job = me
      · simp [hjob, hq, hnq]
      · simp [hjob]
    · by_cases hjob : job = me
      · simp [hjob, hh, hnh]
      · simp [hjob]
  | joins hc hl hnq hnh =>
    refine (h.join me hl (by simp [hq, hc]) (by simp [hh, hc])).congr (fun job => ?_) fun job => ?_
    · by_cases hjob : job = me
      · simp [hjob, hnq]
      · simp [hjob]
    · by_cases hjob : job = me
      · simp [hjob, hh, hc, hnh]
      · simp [hjob]
  | @takes taken _ ht hnq hn =>
    -- once the lock is taken it makes no difference where it was taken
    have htaken : taken.holder = some me ∧ taken.Line (fun job => job ≠ me ∧ (calls job).any isQueued = true)
        (fun job => job = me ∨ (calls job).any holds = true) := by
      rcases ht with ⟨hc, hl, rfl⟩ | ⟨hc, hl, rfl⟩
      · refine ⟨rfl, (h.take hl).congr (fun job => ?_) fun _ => .rfl⟩
        by_cases hjob : job = me
        · simp [hjob, hq, hc]
        · simp [hjob]
      · exact ⟨hl, h.succeed hl⟩
    obtain ⟨hl, hline⟩ := htaken
    rcases hn with ⟨rfl, hnh⟩ | ⟨rfl, hnh⟩
    · refine hline.congr (fun job => ?_) fun job => ?_
      · by_cases hjob : job = me
        · simp [hjob, hnq]
        · simp [hjob]
      · by_cases hjob : job = me
        · simp [hjob, hnh]
        · simp [hjob]
    · refine (hline.release hl).congr (fun job => ?_) fun job => ?_
      · by_cases hjob : job = me
        · simp [hjob, hnq]
        · simp [hjob]
      · by_cases hjob : job = me
        · simp [hjob, hnh]
        · simp [hjob]
  | gives hc hnq hnh =>
    have hl : lock.holder = some me := h.holds (hh.trans hc)
    refine (h.release hl).congr (fun job => ?_) fun job => ?_
    · by_cases hjob : job = me
      · simp [hjob, hnq]
      · simp [hjob]
    · by_cases hjob : job = me
      · simp [hjob, hnh]
      · simp [hjob]

end HostCall

namespace World

variable {t : Terms} {w w' : World} {me other : JobId} {c : HostCall} {a : Act}

/-- The line at the slots is made up of the calls that wait for them, and the slot of a workspace that is being
evicted is free. -/
structure Latched (w : World) : Prop where
  line : w.slots.lock.Line (fun me => (w.hostAt me).any HostCall.isQueued = true)
    (fun me => (w.hostAt me).any HostCall.holds = true)
  vacant : ∀ {me r slice i call}, w.hostAt me = some (.evicting r slice i call) →
    w.slots.live.get? slice = none ∧ w.slots.retiring.get? slice = none

theorem latched_initial (setup : Setup) : (initial setup).Latched := by
  refine ⟨⟨?_, nofun, ?_, List.nodup_nil, fun _ => rfl⟩, ?_⟩
  · intro me h
    cases h
  · intro me
    simp [initial, hostAt, job?]
  · intro me r slice i call h
    cases h

/-- Who has locked the slots is their holder. -/
theorem Latched.holder (h : w.Latched) (hc : w.hostAt me = some c) (hh : c.holds = true) :
    w.slots.lock.holder = some me :=
  h.line.holds (by simp [hc, hh])

/-- A slice for which nothing is in the way of a new workspace is neither live nor retiring. -/
theorem Latched.cleared (h : w.Latched) {env : Environment} {slice : Slice} {r : Reconciliation}
    (hc : w.hostAt me = some c) (hcl : c.Clears w env me slice r) :
    w.slots.live.get? slice = none ∧ w.slots.retiring.get? slice = none := by
  cases hcl with
  | vacant hw hl hr => exact ⟨hl, hr⟩
  | evicted hd => exact h.vacant hc

/-- Where one call has locked the slots another one's step leaves them as they are. -/
theorem Latched.leaves (h : w.Latched) {env : Environment} {step : HostStep} {c' : HostCall}
    (hc : w.hostAt other = some c') (hh : c'.holds = true) (hne : other ≠ me) (hme : w.hostAt me = some c)
    (hp : c.Paths w env me step) :
    step.slots.live = w.slots.live ∧ step.slots.retiring = w.slots.retiring := by
  have hl := h.holder hc hh
  refine hp.leaves ?_ ⟨other, hne, hl⟩
  cases hold : c.holds with
  | false => rfl
  | true => exact absurd (Option.some.inj (hl.symm.trans (h.holder hme hold))) hne

/-- Every act keeps the line at the slots. -/
theorem Latched.step (h : w.Latched) (hm : HostMove w a w') : w'.Latched := by
  cases hm with
  | rests slots calls _ => exact ⟨slots ▸ calls ▸ h.line, fun hc => slots ▸ h.vacant (calls ▸ hc)⟩
  | @begins request _ hn slots calls =>
    have hany (p : HostCall → Bool) (hp : p (.starting request) = false) (job : JobId) :
        (w'.hostAt job).any p = (w.hostAt job).any p := by
      rw [calls]
      by_cases hjob : job = w.nextJob
      · simp [hjob, hn, hp]
      · simp [hjob]
    refine ⟨?_, fun {me r slice i call} hc => ?_⟩
    · rw [slots]
      exact h.line.congr (fun job => by rw [hany _ rfl job]) fun job => by rw [hany _ rfl job]
    · rw [slots]
      rw [calls] at hc
      by_cases hjob : me = w.nextJob
      · rw [hjob, Function.update_self] at hc
        cases hc
      · rw [Function.update_of_ne hjob] at hc
        exact h.vacant hc
  | @goes env me c step _ hc hp slots _ calls _ _ =>
    refine ⟨?_, fun {job r slice i call} hjob => ?_⟩
    · rw [slots, calls]
      exact hp.turns.line hc h.line
    · rw [slots]
      rw [calls] at hjob
      by_cases hne : job = me
      · subst hne
        rw [Function.update_self] at hjob
        -- the slot was cleared just now, or had been
        cases hp with
        | performs hs hp => cases hp <;> cases hjob
        | evicts hw hl hr =>
          cases hjob
          exact ⟨hl, by simp⟩
        | walks hwalk =>
          cases hjob
          cases hwalk with
          | evicting hgo => exact h.vacant hc
        | ends | _ => cases hjob
      · rw [Function.update_of_ne hne] at hjob
        obtain ⟨hlive, hretiring⟩ := h.leaves hjob rfl hne hc hp
        rw [hlive, hretiring]
        exact h.vacant hjob

end World

end SliceSync
