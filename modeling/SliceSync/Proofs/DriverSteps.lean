import SliceSync.Proofs.Jobs
/-!
# Steps of drivers

What one step of a driver can do, as an inductive with one case for each way on (`Driver.Paths`): it goes on
with the update in hand, hands over the next one, takes one out of a stream, notes that a stream has ended,
waits, or ends. What it does at its streams and its workspace is a `DriverEvent`.
-/

namespace SliceSync

/-! ## Reading a stream -/

namespace Source

variable {s : Source} {pair : Nat} {kind : UpdateKind}

/-- A stream with nothing in it, to which nobody can send any more. -/
def HasEnded (s : Source) (pair : Nat) (kind : UpdateKind) : Prop :=
  ∀ p, s.pairs[pair]? = some p → (p.stream kind).queue = [] ∧ (p.stream kind).senders = 0

/-- The source after the oldest update of a stream has been taken out. -/
def Takes (s : Source) (pair : Nat) (kind : UpdateKind) (u : Update) (s' : Source) : Prop :=
  ∃ p stream, s.pairs[pair]? = some p ∧ (p.stream kind).take = some (u, stream) ∧
    s' = s.modifyPair pair (·.setStream kind stream)

/-- A stream that has something to tell yields an update, or its end. -/
theorem receive_of_isReady (h : s.isReady pair kind = true) :
    (∃ source u, s.receive pair kind = (source, .update u) ∧ s.Takes pair kind u source) ∨
      s.receive pair kind = (s, .ended) ∧ s.HasEnded pair kind := by
  unfold isReady at h
  unfold receive
  cases hp : s.pairs[pair]? with
  | none => exact .inr ⟨rfl, fun p hp' => absurd (hp.symm.trans hp') nofun⟩
  | some p =>
    rw [hp] at h
    dsimp only at h ⊢
    cases ht : (p.stream kind).take with
    | some taken => exact .inl ⟨_, _, rfl, p, taken.2, hp, ht, rfl⟩
    | none =>
      have hqueue : (p.stream kind).queue = [] := by
        unfold Stream.take at ht
        cases hq : (p.stream kind).queue with
        | nil => rfl
        | cons u rest =>
          rw [hq] at ht
          dsimp only at ht
          cases hw : (p.stream kind).waiting <;> simp [hw] at ht
      have hsenders : (p.stream kind).senders = 0 := by simpa [StreamPair.isReady, hqueue] using h
      right
      refine ⟨by simp [hsenders], fun p' hp' => ?_⟩
      cases hp.symm.trans hp'
      exact ⟨hqueue, hsenders⟩

end Source

/-! ## One step -/

/-- What a driver does at its streams and at its workspace. -/
inductive DriverEvent
  /-- It takes an update out of a stream. -/
  | received (u : Update)
  /-- It notes that a stream has ended. -/
  | ended (kind : UpdateKind)
  /-- It hands an update over to the workspace. -/
  | handed (u : Update)
  /-- The update that was handed over last has come to its end. -/
  | returned (result : Except SyncError Answer)

/-- What a driver does with its next step. -/
def World.driverEvent? (w : World) (env : Environment) (me : JobId) (d : Driver) : Option DriverEvent :=
  match d.handing with
  | some c =>
    match (w.advanceCall env me d.workspace c).2 with
    | .going _ => none
    | .done result => some (.returned result)
  | none =>
    match d.passed with
    | u :: _ => some (.handed u)
    | [] =>
      if !d.evaluationOpen && !d.buildOpen then none
      else
        match w.unloadOf d.workspace with
        | some _ => none
        | none =>
          (w.readyKind d).map fun kind =>
            match (w.source.receive d.pair kind).2 with
            | .update u => .received u
            | _ => .ended kind

/-- The ways a step of a driver can go, with what the driver does. -/
inductive Driver.Paths (w : World) (env : Environment) (me : JobId) (d : Driver) :
    Option DriverEvent → World × Onward Driver DriverExit → Prop
  /-- The update in hand goes on. -/
  | works {c c' : Call} {w' : World} (hh : d.handing = some c)
      (hg : w.advanceCall env me d.workspace c = (w', .going c')) :
      Paths w env me d none (w', .going { d with handing := some c' })
  /-- It ends well, and the next one can come. -/
  | succeeds {c : Call} {answer : Answer} {w' : World} (hh : d.handing = some c)
      (hd : w.advanceCall env me d.workspace c = (w', .done (.ok answer))) :
      Paths w env me d (some (.returned (.ok answer))) (w', .going { d with handing := none })
  /-- It fails, and the driver with it. -/
  | fails {c : Call} {error : SyncError} {w' : World} (hh : d.handing = some c)
      (hd : w.advanceCall env me d.workspace c = (w', .done (.error error))) :
      Paths w env me d (some (.returned (.error error)))
        (w'.endDriver d (exitAfter error { cause := w'.unloadOf d.workspace }))
  | hands {u : Update} {rest : List Update} (hh : d.handing = none) (hp : d.passed = u :: rest) :
      Paths w env me d (some (.handed u))
        (w, .going { d with passed := rest, handing := some (.start (.update u)) })
  /-- Both streams have ended. -/
  | completes (hh : d.handing = none) (hp : d.passed = []) (he : d.evaluationOpen = false)
      (hb : d.buildOpen = false) : Paths w env me d none (w.endDriver d .completed)
  | unloads {cause : DisposeCause} (hh : d.handing = none) (hp : d.passed = [])
      (ho : d.evaluationOpen = true ∨ d.buildOpen = true) (hu : w.unloadOf d.workspace = some cause) :
      Paths w env me d none (w.endDriver d (.unloaded cause))
  | waits (hh : d.handing = none) (hp : d.passed = []) (ho : d.evaluationOpen = true ∨ d.buildOpen = true)
      (hu : w.unloadOf d.workspace = none) (hk : w.readyKind d = none) : Paths w env me d none (w, .going d)
  | receives {kind : UpdateKind} {source : Source} {u : Update} (hh : d.handing = none) (hp : d.passed = [])
      (hu : w.unloadOf d.workspace = none) (hk : w.readyKind d = some kind)
      (hr : w.source.Takes d.pair kind u source) :
      Paths w env me d (some (.received u)) ({ w with source }, .going (d.push u))
  /-- The stream has ended. -/
  | closes {kind : UpdateKind} (hh : d.handing = none) (hp : d.passed = []) (hu : w.unloadOf d.workspace = none)
      (hk : w.readyKind d = some kind) (hr : w.source.HasEnded d.pair kind) :
      Paths w env me d (some (.ended kind)) (w, .going (d.closeStream kind))

/-- A driver stays with its workspace and its streams. -/
theorem Driver.Paths.same {w : World} {env : Environment} {me : JobId} {d d' : Driver} {event : Option DriverEvent}
    {r : World × Onward Driver DriverExit} (h : d.Paths w env me event r) (hg : r.2 = .going d') :
    d'.workspace = d.workspace ∧ d'.pair = d.pair := by
  cases h with
  | closes =>
    rename_i kind _ _ _ _ _
    cases hg
    cases kind <;> exact ⟨rfl, rfl⟩
  | fails | completes | unloads => cases hg
  | _ =>
    cases hg
    exact ⟨rfl, rfl⟩

namespace World

variable {w : World} {d : Driver} {kind : UpdateKind}

/-- The stream that is read next is followed, and has something to tell. -/
theorem readyKind_eq_some (h : w.readyKind d = some kind) :
    d.isOpen kind = true ∧ w.source.isReady d.pair kind = true := by
  unfold readyKind at h
  split at h
  · rename_i he
    cases h
    simpa [Driver.isOpen] using he
  · split at h
    · rename_i hb
      cases h
      simpa [Driver.isOpen] using hb
    · cases h

/-- A step of a driver goes one of the ways. -/
theorem advanceDriver_paths (w : World) (env : Environment) (me : JobId) (d : Driver) :
    ∃ event, w.driverEvent? env me d = event ∧ d.Paths w env me event (w.advanceDriver env me d) := by
  unfold advanceDriver driverEvent?
  cases hh : d.handing with
  | some c =>
    dsimp only
    cases hc : w.advanceCall env me d.workspace c with
    | mk w' onward =>
      obtain c' | (error | answer) := onward
      · exact ⟨_, rfl, .works hh hc⟩
      · exact ⟨_, rfl, .fails hh hc⟩
      · exact ⟨_, rfl, .succeeds hh hc⟩
  | none =>
    dsimp only
    cases hp : d.passed with
    | cons u rest => exact ⟨_, rfl, .hands hh hp⟩
    | nil =>
      dsimp only
      split
      · rename_i hclosed
        simp only [Bool.and_eq_true, Bool.not_eq_true'] at hclosed
        exact ⟨_, rfl, .completes hh hp hclosed.1 hclosed.2⟩
      · rename_i hopen
        have ho : d.evaluationOpen = true ∨ d.buildOpen = true := by
          cases he : d.evaluationOpen <;> cases hb : d.buildOpen <;> simp [he, hb] at hopen ⊢
        cases hu : w.unloadOf d.workspace with
        | some cause => exact ⟨_, rfl, .unloads hh hp ho hu⟩
        | none =>
          dsimp only
          cases hk : w.readyKind d with
          | none => exact ⟨_, rfl, .waits hh hp ho hu hk⟩
          | some kind =>
            dsimp only [Option.map_some]
            rcases Source.receive_of_isReady (readyKind_eq_some hk).2 with ⟨source, u, hr, htakes⟩ | ⟨hr, hended⟩
            · rw [hr]
              exact ⟨_, rfl, .receives hh hp hu hk htakes⟩
            · rw [hr]
              exact ⟨_, rfl, .closes hh hp hu hk hended⟩

end World

end SliceSync
