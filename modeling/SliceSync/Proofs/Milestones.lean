import SliceSync.Proofs.Rounds
/-!
# Milestones

Of all that happens on account of a workspace a few events make up its outer life: progress is followed or no
longer followed, a context is created or told to go, a handler drops what it remembers. Which of them a
passage brings is told here; a batch brings none.
-/

namespace SliceSync

namespace Event

/-- Whether an event belongs to the outer life of a workspace. -/
def isMilestone : Event → Bool
  | registered _ | unregistered _ | created .. | released .. => true
  | context _ call => call = .dispose
  | _ => false

/-- The milestones among some events, in order. -/
def milestones (l : List Event) : List Event := l.filter (·.isMilestone)

@[simp] theorem milestones_nil : milestones [] = [] := rfl

@[simp] theorem milestones_append (l m : List Event) : milestones (l ++ m) = milestones l ++ milestones m :=
  List.filter_append l m

@[simp] theorem milestones_cons (e : Event) (l : List Event) :
    milestones (e :: l) = if e.isMilestone then e :: milestones l else milestones l := List.filter_cons

theorem milestones_eq_nil {l : List Event} (h : ∀ e ∈ l, e.isMilestone = false) : milestones l = [] :=
  List.filter_eq_nil_iff.2 fun e he => by simp [h e he]

theorem milestones_eq_self {l : List Event} (h : ∀ e ∈ l, e.isMilestone = true) : milestones l = l :=
  List.filter_eq_self.2 h

@[simp] theorem milestones_effects (n : Nat) (effects : List Effect) :
    milestones (effects.map (Effect.event n)) = [] := by
  refine milestones_eq_nil fun e he => ?_
  obtain ⟨effect, -, rfl⟩ := List.mem_map.1 he
  cases effect <;> simp [Effect.event, isMilestone]

/-- Milestones are events. -/
theorem mem_of_mem_milestones {e : Event} {l : List Event} (h : e ∈ milestones l) : e ∈ l :=
  (List.mem_filter.1 h).1

theorem mem_milestones {e : Event} {l : List Event} : e ∈ milestones l ↔ e ∈ l ∧ e.isMilestone = true :=
  List.mem_filter

theorem mem_callsOf {n : Nat} {call : ContextCall} {l : List Event} :
    call ∈ callsOf n l ↔ .context n call ∈ l := by
  induction l with
  | nil => simp
  | cons e rest ih =>
    cases e with
    | context m other =>
      by_cases hm : m = n
      · subst hm
        rw [callsOf_context_cons, List.mem_cons, ih, List.mem_cons, context.injEq]
        simp
      · rw [callsOf_context_cons_of_ne hm, ih, List.mem_cons, context.injEq]
        simp [Ne.symm hm]
    | _ =>
      rw [List.mem_cons]
      exact ih.trans (by simp)

end Event

open Event (milestones)

namespace Call

/-- The report of a fault is no milestone. -/
@[simp] theorem milestones_report (setup : Setup) (c : Call) (result : Except SyncError Answer) :
    milestones (c.report setup result) = [] := by
  unfold report
  split
  · split <;> rfl
  · rfl

@[simp] theorem milestones_conclude (setup : Setup) (c : Call) (p : Passage) :
    milestones (c.conclude setup p).events = milestones p.events := by
  unfold conclude
  cases p.held <;> simp

end Call

namespace Workspace

variable {setup : Setup} {env : Environment} {session : Session} {w : Workspace} {u : Update}

@[simp] theorem milestones_tell (versions : Versions) : milestones (w.tell versions) = [] := by
  unfold tell
  cases w.owner <;> rfl

/-- To follow progress is a milestone. -/
@[simp] theorem milestones_enroll (u : Update) : milestones (w.enroll setup u).2 = (w.enroll setup u).2 := by
  unfold enroll
  split
  · split <;> rfl
  · rfl

@[simp] theorem milestones_openEvaluation {handle : ContextHandle} {fresh : Bool} {versions : Versions}
    {e : Evaluation} : milestones (openEvaluation setup env session w handle fresh versions e).events = [] := by
  unfold openEvaluation
  cases fresh <;> simp [Event.isMilestone]

@[simp] theorem milestones_openBuild {handle : ContextHandle} {versions : Versions} {b : Build} :
    milestones (openBuild env session w handle versions b).events = [] := by
  simp [openBuild, Event.isMilestone]

theorem milestones_after (events : List Event) (p : Passage) :
    milestones (p.after events).events = milestones events ++ milestones p.events :=
  Event.milestones_append ..

/-- An update brings what following progress brings, and the context that it creates. -/
theorem Receives.milestones {p : Passage} (h : w.Receives setup env session u p) :
    (∃ error, w.admits = .error error) ∧ p.workspace = w ∧ Event.milestones p.events = [] ∨
      w.admits = .ok () ∧ Event.milestones p.events = (w.enroll setup u).2 ++
        match w.context with
        | some _ => []
        | none =>
          match u.payload with
          | .build _ => []
          | .evaluation e =>
            match session.create env setup.registry e with
            | .error _ => []
            | .ok (_, _, events) => events := by
  cases h with
  | refused ha => exact .inl ⟨⟨_, ha⟩, rfl, rfl⟩
  | uncreated ha hu hc hf => exact .inr ⟨ha, by simp [hc, hu, hf]⟩
  | creates ha hu hc hs =>
    obtain ⟨-, -, -, params, rfl⟩ := Session.create_eq hs
    refine .inr ⟨ha, ?_⟩
    simp [milestones_after, hc, hu, hs, Event.isMilestone]
  | skips ha hu hc hk => exact .inr ⟨ha, by simp [hc]⟩
  | applies ha hu hc => exact .inr ⟨ha, by simp [milestones_after, hc]⟩
  | skipsBuild ha hu hk =>
    refine .inr ⟨ha, ?_⟩
    cases w.context <;> simp [hu]
  | misses ha hu hc => exact .inr ⟨ha, by simp [hc, hu]⟩
  | appliesBuild ha hu hc => exact .inr ⟨ha, by simp [milestones_after, hc]⟩

theorem milestones_beginWrite (session : Session) (mutations : List Mutation) :
    milestones (w.beginWrite session mutations).events = [] := by
  unfold beginWrite
  split
  · rfl
  · split
    · rfl
    · refine Event.milestones_eq_nil fun e he => ?_
      simp only [List.mem_cons, List.mem_map] at he
      rcases he with rfl | rfl | ⟨m, -, rfl⟩ <;> simp [Event.isMilestone]

theorem milestones_close (env : Environment) (session : Session) (w : Workspace) (batch : OpenBatch) :
    milestones (w.close env session batch).events = [] := by
  unfold close
  dsimp only
  split
  · rfl
  · cases batch.commit <;> simp [commit, Event.isMilestone]

/-- The end of progress is a milestone. -/
theorem milestones_unregister (w : Workspace) : milestones (w.unregister).2 = (w.owner.map Event.unregistered).toList := by
  unfold unregister
  cases w.owner <;> rfl

/-- What the end of a release brings: each handler drops what it remembers, and progress ends. -/
theorem milestones_finishDispose (session : Session) (w : Workspace) (handle : ContextHandle) :
    milestones (w.finishDispose session handle).events =
      (handle.handlers.release.2.map fun m => .released handle.serial m.1 m.2 handle.id) ++
        (w.owner.map Event.unregistered).toList := by
  unfold finishDispose
  dsimp only
  rw [Event.milestones_append, milestones_unregister]
  congr 1
  refine Event.milestones_eq_self fun e he => ?_
  obtain ⟨m, -, rfl⟩ := List.mem_map.1 he
  rfl

end Workspace

end SliceSync
