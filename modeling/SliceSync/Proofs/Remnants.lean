import SliceSync.Proofs.SourceItems
import SliceSync.Proofs.Turnovers
/-!
# What failed evaluations leave behind

An evaluation that fails leaves the baseline as it was, but the handlers of files that it called have put files in
and taken files out already. So a run goes on as if the evaluation had not been made (`Workspace.Alongside`), and
every evaluation is still seen from what the last good one delivered; but the files are those that remain of all
turnovers, the failed ones among them.

Main statement: `Workspace.files_iff_remain`.
-/

namespace SliceSync

/-! ## Handlers that differ in what they track -/

section Round

variable {η α : Type} {call : Nat → η → Round η} {f : η → α}

/-- Rounds whose calls go alike call alike. -/
theorem calls_congr
    (hf : ∀ n g g', f g = f g' → (call n g).failure = (call n g').failure ∧
      Effect.calls (call n g).effects = Effect.calls (call n g').effects) {l l' : List η}
    (hl : l.map f = l'.map f) (position : Nat) :
    Effect.calls (callUntilFailure call position l).effects = Effect.calls (callUntilFailure call position l').effects := by
  induction l generalizing position l' with
  | nil =>
    obtain rfl : l' = [] := List.map_eq_nil_iff.1 hl.symm
    rfl
  | cons g rest ih =>
    obtain ⟨g', rest', rfl, hg, hrest⟩ := List.map_eq_cons_iff.1 hl.symm
    obtain ⟨hfailure, hcalls⟩ := hf position g g' hg.symm
    cases hc : (call position g).failure with
    | some error =>
      rw [callUntilFailure_cons_of_failure hc, callUntilFailure_cons_of_failure (hfailure.symm.trans hc)]
      exact hcalls
    | none =>
      rw [callUntilFailure_cons_of_none hc, callUntilFailure_cons_of_none (hfailure.symm.trans hc)]
      simp only [Effect.calls_append, hcalls, ih hrest.symm]

end Round

namespace HandlerSet

variable {s s' : HandlerSet} {env : Environment} {rules : NameMap Change} {items : Listing String Change}
  {activity : Activity} {d : ArgumentDifference}

theorem callItems_forget (n : Nat) (h : ItemHandler) :
    forgetItems (callItems env items activity n h).state = forgetItems h := by
  cases h with
  | files name f => exact congrArg (ItemHandler.files name) f.made_follow
  | external name => rfl

theorem callItems_congr (n : Nat) (g g' : ItemHandler) (h : forgetItems g = forgetItems g') :
    (callItems env items activity n g).failure = (callItems env items activity n g').failure ∧
      Effect.calls (callItems env items activity n g).effects =
        Effect.calls (callItems env items activity n g').effects := by
  cases g with
  | files name f =>
    cases g' with
    | files name' f' =>
      obtain ⟨rfl, -⟩ := ItemHandler.files.inj h
      simp [callItems, ItemHandler.name, ItemHandler.isExternal]
    | external name' => cases h
  | external name =>
    cases g' with
    | files name' f' => cases h
    | external name' =>
      cases h
      exact ⟨rfl, rfl⟩

/-- Two sets of handlers differ at most in the files that they track. -/
structure Like (s s' : HandlerSet) : Prop where
  evaluation : s.evaluation = s'.evaluation
  arguments : s.arguments = s'.arguments
  items : s.items.map forgetItems = s'.items.map forgetItems

theorem Like.symm (h : s.Like s') : s'.Like s := ⟨h.evaluation.symm, h.arguments.symm, h.items.symm⟩

theorem Like.trans {s'' : HandlerSet} (h : s.Like s') (h' : s'.Like s'') : s.Like s'' :=
  ⟨h.evaluation.trans h'.evaluation, h.arguments.trans h'.arguments, h.items.trans h'.items⟩

/-- The rounds of an evaluation change no more than what is tracked. -/
theorem like_applyBoth (s : HandlerSet) : (s.applyBoth env rules items activity).state.Like s := by
  cases hf : (s.applyEvaluation env rules activity).failure with
  | some error =>
    rw [applyBoth_of_failure hf]
    exact ⟨rfl, rfl, rfl⟩
  | none =>
    rw [applyBoth_of_none hf]
    exact ⟨rfl, rfl, map_state callItems_forget⟩

/-- Handlers that track other files fail and are called alike. -/
theorem Like.applyBoth (h : s.Like s') :
    (s.applyBoth env rules items activity).failure = (s'.applyBoth env rules items activity).failure ∧
      Effect.calls (s.applyBoth env rules items activity).effects =
        Effect.calls (s'.applyBoth env rules items activity).effects := by
  have hfailure : (s.applyEvaluation env rules activity).failure = (s'.applyEvaluation env rules activity).failure := by
    rw [applyEvaluation, applyEvaluation, h.evaluation]
  have heffects : (s.applyEvaluation env rules activity).effects = (s'.applyEvaluation env rules activity).effects := by
    rw [applyEvaluation, applyEvaluation, h.evaluation]
  cases hf : (s.applyEvaluation env rules activity).failure with
  | some error =>
    rw [applyBoth_of_failure hf, applyBoth_of_failure (hfailure.symm.trans hf), heffects]
    exact ⟨rfl, rfl⟩
  | none =>
    rw [applyBoth_of_none hf, applyBoth_of_none (hfailure.symm.trans hf), Effect.calls_append, Effect.calls_append,
      heffects]
    exact ⟨(failure_congr (fun n g g' hg => (callItems_congr n g g' hg).1) h.items).1,
      congrArg _ (calls_congr callItems_congr h.items 0)⟩

theorem Like.applyArguments (h : s.Like s') :
    (s.applyArguments env d activity).failure = (s'.applyArguments env d activity).failure ∧
      Effect.calls (s.applyArguments env d activity).effects =
        Effect.calls (s'.applyArguments env d activity).effects ∧
      (s.applyArguments env d activity).state.Like (s'.applyArguments env d activity).state := by
  have h' := h.arguments
  simp only [HandlerSet.applyArguments, h', true_and]
  exact ⟨h.evaluation, rfl, h.items⟩

end HandlerSet

namespace Processed

/-- Whether an evaluation has failed with the error of a handler or of its batch. -/
def isFailedEvaluation (p : Processed) : Bool :=
  match p.update.payload, p.result with
  | .evaluation _, some (.error error) => error.ofBatch
  | _, _ => false

theorem isFailedEvaluation_iff {p : Processed} :
    p.isFailedEvaluation = true ↔ ∃ e error, p.update.payload = .evaluation e ∧ p.result = some (.error error) ∧
      error.ofBatch = true := by
  unfold isFailedEvaluation
  split
  · rename_i e error hu hr
    simp [hu, hr]
  · rename_i hnone
    refine iff_of_false nofun ?_
    rintro ⟨e, error, hu, hr, -⟩
    exact hnone e error hu hr

/-- What came of an update, but for what the context was told. -/
def account (p : Processed) : Update × Option (Except SyncError Answer) × List HandlerCall :=
  (p.update, p.result, Event.handlings p.events)

/-- Failed evaluations are told by their accounts. -/
theorem filter_congr {l l' : List Processed} (h : l.map account = l'.map account) :
    (l.filter (!·.isFailedEvaluation)).map account = (l'.filter (!·.isFailedEvaluation)).map account := by
  let kept : Update × Option (Except SyncError Answer) × List HandlerCall → Bool := fun a =>
    !isFailedEvaluation ⟨a.1, [], a.2.1⟩
  have hfilter (l : List Processed) :
      (l.filter (!·.isFailedEvaluation)).map account = (l.map account).filter kept := by
    rw [List.filter_map]
    rfl
  rw [hfilter, hfilter, h]

end Processed

/-- That a context cannot be created is no error of a batch, unless the factory answers with one. -/
theorem Session.ofBatch_of_create {s : Session} {env : Environment} {registry : Registry} {e : Evaluation}
    {error : SyncError} (h : s.create env registry e = .error error) (hf : env.refused ≠ some error) :
    error.ofBatch = false := by
  rcases of_create_error h with hparams | ⟨params, -, -, rfl⟩ | hrefused
  · obtain ⟨name, rfl⟩ := Evaluation.eq_missing_of_creationParams hparams
    rfl
  · rfl
  · exact absurd hrefused hf

namespace Workspace

variable {setup : Setup} {w w' : Workspace} {handle handle' : ContextHandle} {x : Payload} {o : Occasion}
  {calls : List (Payload × Occasion)}

/-! ## Calls on a workspace that has its context -/

/-- The context is there, and nobody is at the workspace. -/
structure Fitted (w : Workspace) (handle : ContextHandle) : Prop extends w.Free where
  status : w.status = .initialized
  context : w.context = some handle
  evaluation : w.evaluation ≠ .failed

/-- A call that ends finds the workspace ready. -/
theorem Fitted.ready (h : w.Fitted handle) (hp : (w.attempt setup x o).progress.result?.isSome = true) :
    w.Ready handle x := by
  refine ⟨h.toFree, h.status, h.context, fun b hx => ?_⟩
  subst hx
  cases he : w.evaluation with
  | pending =>
    obtain ⟨c, hgo⟩ := attempt_of_pending setup h.toFree he b o
    rw [hgo] at hp
    cases hp
  | failed => exact absurd he h.evaluation
  | integrated => rfl

theorem Fitted.withHandlers (h : w.Fitted handle) (s : HandlerSet) :
    (w.withHandlers handle s).Fitted { handle with handlers := s } :=
  ⟨⟨h.lock, h.unload⟩, h.status, rfl, h.evaluation⟩

theorem Fitted.skipping (h : w.Fitted handle) (x : Payload) : (w.skipping x).Fitted handle := by
  cases x with
  | evaluation e => exact h
  | build b => exact ⟨⟨h.lock, h.unload⟩, h.status, h.context, h.evaluation⟩

theorem Fitted.integrating (h : w.Fitted handle) (x : Payload) (o : Occasion) :
    (w.integrating x o).Fitted handle := by
  cases x with
  | evaluation e => exact ⟨⟨h.lock, h.unload⟩, h.status, h.context, nofun⟩
  | build b => exact ⟨⟨h.lock, h.unload⟩, h.status, h.context, h.evaluation⟩

section Filing

variable {name : String} {made : ItemFiles} {serial : Nat} {c : Content} {turns : List (List String × List String)}

/-- A handler of files keeps its list of the context in step with the turnovers it was called with. -/
structure Filing (name : String) (made : ItemFiles) (c : Content) (turns : List (List String × List String))
    (handle : ContextHandle) : Prop where
  items : Tracking name made handle.handlers.items c turns
  arguments : ∀ other r, .references other r ∈ handle.handlers.arguments → r.list ≠ made.list

/-- A round of calls keeps the handler in step. -/
theorem Filing.round (h : Filing name made c turns handle) (w : Workspace) (hs : o.env.Spares made.list)
    (x : Payload) :
    Filing name made
      (c.replay (x.tells (Effect.mutations (w.roundOf x o handle.handlers).effects)))
      (turns ++ turnoversIn name made.itemType (Effect.calls (w.roundOf x o handle.handlers).effects))
      { handle with handlers := (w.roundOf x o handle.handlers).state } := by
  cases x with
  | evaluation e =>
    refine ⟨h.items.evaluation hs, fun other r hr => h.arguments other r ?_⟩
    have hsame : (w.roundOf (.evaluation e) o handle.handlers).state.arguments = handle.handlers.arguments :=
      HandlerSet.applyBoth_arguments
    rwa [← hsame]
  | build b =>
    let effects := [.mutate (.setOptions b.arguments)] ++ (w.roundOf (.build b) o handle.handlers).effects ++
      [.mutate (.setLastBuildSucceeded b.producedItems)]
    have hround : PassesBy name made.list (w.roundOf (.build b) o handle.handlers).effects :=
      .round (fun n g hg => passesBy_callArguments hs n fun other r hr => h.arguments other r (hr ▸ hg)) 0
    have hpass : PassesBy name made.list effects :=
      ((PassesBy.mutate (fun h => by cases h)).append hround).append (.mutate (fun h => by cases h))
    have hmutations : Effect.mutations effects =
        (Payload.build b).tells (Effect.mutations (w.roundOf (.build b) o handle.handlers).effects) := by
      simp [effects, Payload.tells, Effect.mutations]
    have hcalls : Effect.calls effects = Effect.calls (w.roundOf (.build b) o handle.handlers).effects := by
      simp [effects, Effect.calls]
    have hfiled := h.items.aside hpass
    rw [hmutations, hcalls] at hfiled
    refine ⟨hfiled, fun other r hr => ?_⟩
    -- the round counts, and leaves the lists of the handlers as they were
    have hforget : (w.roundOf (.build b) o handle.handlers).state.arguments.map HandlerSet.forgetArguments =
        handle.handlers.arguments.map HandlerSet.forgetArguments := map_state callArguments_forget
    have hmem := List.mem_map_of_mem (f := HandlerSet.forgetArguments) hr
    rw [hforget] at hmem
    obtain ⟨g, hg, hsame⟩ := List.mem_map.1 hmem
    cases g with
    | references other' r' =>
      obtain ⟨-, hr'⟩ := ArgumentHandler.references.inj hsame
      have hlist : r'.list = r.list := (References.mk.inj hr').1
      exact hlist ▸ h.arguments other' r' hg
    | external other' => cases hsame

/-- A call that ends keeps the handler in step. -/
theorem Fitted.files (h : w.Fitted handle) (hf : Filing name made c turns handle) (hs : o.env.Spares made.list)
    (hp : (w.attempt setup x o).progress.result?.isSome = true) :
    ∃ s, (w.attempt setup x o).workspace.Fitted { handle with handlers := s } ∧
      Filing name made
        (c.replay (ContextCall.mutations (Event.callsOf handle.serial (w.attempt setup x o).events)))
        (turns ++ turnoversIn name made.itemType (Event.handlings (w.attempt setup x o).events))
        { handle with handlers := s } := by
  have hround := hf.round w hs x
  have ha : w.Attempts handle x o (w.attempt setup x o) := attempts (h.ready hp)
  generalize w.attempt setup x o = a at ha hp ⊢
  cases ha with
  | skips =>
    refine ⟨handle.handlers, h.skipping x, ?_⟩
    rw [callsOf_tell, handlings_tell, turnoversIn_nil, List.append_nil]
    exact hf
  | hangs _ _ hgo =>
    rw [hgo] at hp
    cases hp
  | fails _ _ _ hl =>
    rw [hl.mutations, hl.handlings]
    exact ⟨_, h.withHandlers _, hround⟩
  | ends _ _ _ hl =>
    rw [hl.mutations, hl.handlings]
    exact ⟨_, (h.withHandlers _).integrating x o, hround⟩

/-- What a context is told in some calls. -/
def told (serial : Nat) (done : List Processed) : List Mutation :=
  done.flatMap fun p => ContextCall.mutations (Event.callsOf serial p.events)

/-- The turnovers that a handler of files was called with in some calls. -/
def turnoversOf (name itemType : String) (done : List Processed) : List (List String × List String) :=
  done.flatMap fun p => turnoversIn name itemType (Event.handlings p.events)

/-- Calls that end keep the handler in step. -/
theorem Fitted.files_run (h : w.Fitted handle) (hf : Filing name made c turns handle)
    (hs : ∀ call ∈ calls, call.2.env.Spares made.list)
    (hp : ∀ p ∈ (runAll (takes setup) w calls).2, p.result.isSome = true) :
    ∃ s, (runAll (takes setup) w calls).1.Fitted { handle with handlers := s } ∧
      Filing name made (c.replay (told handle.serial (runAll (takes setup) w calls).2))
        (turns ++ turnoversOf name made.itemType (runAll (takes setup) w calls).2)
        { handle with handlers := s } := by
  induction calls generalizing w handle c turns with
  | nil =>
    refine ⟨handle.handlers, h, ?_⟩
    rw [turnoversOf, runAll, List.flatMap_nil, List.append_nil]
    exact hf
  | cons call rest ih =>
    rw [runAll_cons] at hp ⊢
    obtain ⟨s, hfitted, hfiling⟩ := h.files (x := call.1) hf (hs call (by simp))
      (hp _ (List.mem_append_left _ (List.mem_singleton_self _)))
    obtain ⟨s', hfitted, hfiling⟩ := ih hfitted hfiling (fun call hc => hs call (by simp [hc]))
      fun p hmem => hp p (List.mem_append_right _ hmem)
    refine ⟨s', hfitted, ?_⟩
    rw [← Content.replay_append, List.append_assoc] at hfiling
    exact hfiling

end Filing

/-! ## Runs without the failed evaluations -/

/-- Two workspaces differ at most in the files that their handlers track. -/
structure Alongside (w w' : Workspace) : Prop where
  slice : w'.slice = w.slice
  baseline : w'.baseline = w.baseline
  evaluation : w'.evaluation = w.evaluation
  handlers : ∃ handle handle', w.Fitted handle ∧ w'.Fitted handle' ∧ handle.handlers.Like handle'.handlers

theorem knows_congr (h : w'.baseline = w.baseline) {e : Evaluation} {activity : Activity} (hk : w.Knows e activity) :
    w'.Knows e activity := by
  refine ⟨?_, ?_, h ▸ hk.activity⟩
  · rw [seenRules, h]
    exact hk.rules
  · rw [seenItems, h]
    exact hk.items

theorem knowsUpdate_congr (hs : w'.slice = w.slice) (hb : w'.baseline = w.baseline) :
    w'.KnowsUpdate x o ↔ w.KnowsUpdate x o := by
  have hactivity : w'.activityOn o = w.activityOn o := by rw [activityOn, hs, activityOn]
  cases x with
  | evaluation e =>
    rw [KnowsUpdate, KnowsUpdate, hactivity]
    exact ⟨knows_congr hb.symm, knows_congr hb⟩
  | build b =>
    rw [KnowsUpdate, KnowsUpdate, hactivity]
    exact ⟨fun h => ⟨hb ▸ h.arguments, hb ▸ h.outcome, hb ▸ h.activity⟩,
      fun h => ⟨hb ▸ h.arguments, hb ▸ h.outcome, hb ▸ h.activity⟩⟩

theorem roundOf_congr (hs : w'.slice = w.slice) (hb : w'.baseline = w.baseline) (s : HandlerSet) :
    w'.roundOf x o s = w.roundOf x o s := by
  have hactivity : w'.activityOn o = w.activityOn o := by rw [activityOn, hs, activityOn]
  cases x with
  | evaluation e => simp only [roundOf, hactivity, seenRules, seenItems, hb]
  | build b => simp only [roundOf, hactivity, hb]

/-- Handlers that track other files fail and are called alike in a round. -/
theorem roundOf_like {s s' : HandlerSet} (h : s.Like s') :
    (w.roundOf x o s).failure = (w.roundOf x o s').failure ∧
      Effect.calls (w.roundOf x o s).effects = Effect.calls (w.roundOf x o s').effects ∧
      (w.roundOf x o s).state.Like (w.roundOf x o s').state := by
  cases x with
  | evaluation e =>
    obtain ⟨hfailure, hcalls⟩ := h.applyBoth
    exact ⟨hfailure, hcalls, s.like_applyBoth.trans (h.trans s'.like_applyBoth.symm)⟩
  | build b => exact h.applyArguments

theorem skipping_frame (w : Workspace) (x : Payload) :
    (w.skipping x).slice = w.slice ∧ (w.skipping x).baseline = w.baseline ∧
      (w.skipping x).evaluation = w.evaluation := by
  cases x <;> exact ⟨rfl, rfl, rfl⟩

theorem integrating_congr (w w' : Workspace) (hs : w'.slice = w.slice) (hb : w'.baseline = w.baseline)
    (he : w'.evaluation = w.evaluation) (x : Payload) (o : Occasion) :
    (w'.integrating x o).slice = (w.integrating x o).slice ∧
      (w'.integrating x o).baseline = (w.integrating x o).baseline ∧
      (w'.integrating x o).evaluation = (w.integrating x o).evaluation := by
  have hactivity : w'.activityOn o = w.activityOn o := by rw [activityOn, hs, activityOn]
  cases x with
  | evaluation e => exact ⟨hs, by simp only [integrating, hb, hactivity], rfl⟩
  | build b => exact ⟨hs, by simp only [integrating, hb, hactivity], he⟩

/-- A call that ends ends alike alongside. -/
theorem Alongside.attempt (h : w.Alongside w') (hp : (w.attempt setup x o).progress.result?.isSome = true) :
    (w.attempt setup x o).workspace.Alongside (w'.attempt setup x o).workspace ∧
      (w'.attempt setup x o).progress.result? = (w.attempt setup x o).progress.result? ∧
      Event.handlings (w'.attempt setup x o).events = Event.handlings (w.attempt setup x o).events := by
  obtain ⟨handle, handle', hfitted, hfitted', hlike⟩ := h.handlers
  have hready := hfitted.ready hp
  have hready' : w'.Ready handle' x :=
    ⟨hfitted'.toFree, hfitted'.status, hfitted'.context, fun b hb => h.evaluation.trans (hready.evaluation b hb)⟩
  have hknows : w'.KnowsUpdate x o ↔ w.KnowsUpdate x o := knowsUpdate_congr h.slice h.baseline
  have hsame : w'.roundOf x o handle'.handlers = w.roundOf x o handle'.handlers := roundOf_congr h.slice h.baseline _
  have hround : (w.roundOf x o handle.handlers).failure = (w'.roundOf x o handle'.handlers).failure ∧
      Effect.calls (w.roundOf x o handle.handlers).effects = Effect.calls (w'.roundOf x o handle'.handlers).effects ∧
      (w.roundOf x o handle.handlers).state.Like (w'.roundOf x o handle'.handlers).state := by
    rw [hsame]
    exact roundOf_like hlike
  obtain ⟨hfailure, hcalls, hstate⟩ := hround
  have ha : w.Attempts handle x o (w.attempt setup x o) := attempts hready
  have ha' : w'.Attempts handle' x o (w'.attempt setup x o) := attempts hready'
  generalize w.attempt setup x o = a at ha hp ⊢
  generalize w'.attempt setup x o = a' at ha' ⊢
  -- both are skipped, both fail, or both end well, by what decides on it
  cases ha with
  | hangs _ _ hgo =>
    rw [hgo] at hp
    cases hp
  | skips hk =>
    cases ha' with
    | skips =>
      obtain ⟨hs, hb, he⟩ := skipping_frame w x
      obtain ⟨hs', hb', he'⟩ := skipping_frame w' x
      refine ⟨⟨?_, ?_, ?_, handle, handle', hfitted.skipping x, hfitted'.skipping x, hlike⟩, rfl, ?_⟩
      · rw [hs, hs', h.slice]
      · rw [hb, hb', h.baseline]
      · rw [he, he', h.evaluation]
      · rw [handlings_tell, handlings_tell]
    | hangs hk' | fails hk' | ends hk' => exact absurd (hknows.2 hk) hk'
  | fails hk hg he hl =>
    cases ha' with
    | skips hk' => exact absurd (hknows.1 hk') hk
    | hangs _ hg' => exact absurd (hg.symm.trans hg') nofun
    | ends _ _ he' =>
      rw [← hfailure, he] at he'
      cases he'
    | fails _ _ he' hl' =>
      rw [← hfailure, he] at he'
      cases he'
      exact ⟨⟨h.slice, h.baseline, h.evaluation, _, _, hfitted.withHandlers _, hfitted'.withHandlers _, hstate⟩, rfl,
        by rw [hl.handlings, hl'.handlings, hcalls]⟩
  | ends hk hg he hl =>
    cases ha' with
    | skips hk' => exact absurd (hknows.1 hk') hk
    | hangs _ hg' => exact absurd (hg.symm.trans hg') nofun
    | fails _ _ he' =>
      rw [← hfailure, he] at he'
      cases he'
    | ends _ _ _ hl' =>
      obtain ⟨hs, hb, he⟩ := integrating_congr (w.withHandlers handle _) (w'.withHandlers handle' _) h.slice h.baseline
        h.evaluation x o
      exact ⟨⟨hs, hb, he, _, _, (hfitted.withHandlers _).integrating x o, (hfitted'.withHandlers _).integrating x o,
        hstate⟩, rfl, by rw [hl.handlings, hl'.handlings, hcalls]⟩

/-- A workspace at which an evaluation has failed goes on as one at which it has not been made. -/
theorem Alongside.fails (h : w.Alongside w') {e : Evaluation} {error : SyncError}
    (hp : (w.attempt setup (.evaluation e) o).progress.result? = some (.error error)) :
    (w.attempt setup (.evaluation e) o).workspace.Alongside w' := by
  obtain ⟨handle, handle', hfitted, hfitted', hlike⟩ := h.handlers
  have ha : w.Attempts handle (.evaluation e) o (w.attempt setup (.evaluation e) o) :=
    attempts (hfitted.ready (by rw [hp]; rfl))
  generalize w.attempt setup (.evaluation e) o = a at ha hp ⊢
  cases ha with
  | skips => cases hp
  | hangs _ _ hgo =>
    rw [hgo] at hp
    cases hp
  | ends => cases hp
  | fails =>
    exact ⟨h.slice, h.baseline, h.evaluation, _, handle', hfitted.withHandlers _, hfitted',
      HandlerSet.like_applyBoth _ |>.trans hlike⟩

/-- The calls without the evaluations that fail. -/
def sparing (setup : Setup) : Workspace → List (Payload × Occasion) → List (Payload × Occasion)
  | _, [] => []
  | w, call :: rest =>
    let next := (w.attempt setup call.1 call.2).workspace
    if (w.outcome setup call).isFailedEvaluation then sparing setup next rest else call :: sparing setup next rest

/-- Without the evaluations that fail all other calls go as they did. -/
theorem Alongside.run (h : w.Alongside w')
    (hp : ∀ p ∈ (runAll (takes setup) w calls).2, p.result.isSome = true) :
    (runAll (takes setup) w calls).1.Alongside (runAll (takes setup) w' (sparing setup w calls)).1 ∧
      (runAll (takes setup) w' (sparing setup w calls)).2.map (·.account) =
        ((runAll (takes setup) w calls).2.filter (!·.isFailedEvaluation)).map (·.account) := by
  induction calls generalizing w w' with
  | nil => exact ⟨h, rfl⟩
  | cons call rest ih =>
    obtain ⟨x, o⟩ := call
    rw [runAll_cons] at hp ⊢
    have hend : (w.attempt setup x o).progress.result?.isSome = true :=
      hp _ (List.mem_append_left _ (List.mem_singleton_self _))
    have hrest := fun p hmem => hp p (List.mem_append_right _ hmem)
    show Alongside (runAll (takes setup) (w.attempt setup x o).workspace rest).1 _ ∧ _ =
      (([w.outcome setup (x, o)] ++ _).filter _).map _
    cases hfails : (w.outcome setup (x, o)).isFailedEvaluation with
    | true =>
      rw [sparing, if_pos hfails, List.filter_append, List.filter_cons_of_neg (by simp [hfails]), List.filter_nil,
        List.nil_append]
      obtain ⟨e, error, rfl, hresult, -⟩ := Processed.isFailedEvaluation_iff.1 hfails
      exact ih (h.fails hresult) hrest
    | false =>
      obtain ⟨hnext, hresult, hhandlings⟩ := h.attempt hend
      obtain ⟨hlast, haccounts⟩ := ih hnext hrest
      rw [sparing, if_neg (by simp [hfails]), runAll_cons, List.filter_append,
        List.filter_cons_of_pos (by simp [hfails]), List.filter_nil, List.map_append, List.map_append]
      refine ⟨hlast, congr (congrArg _ ?_) haccounts⟩
      simp [takes, outcome, Processed.account, hresult, hhandlings]

/-! ## The evaluation that creates the context -/

/-- A workspace whose context has just been created. -/
def opened (setup : Setup) (slice : Slice) (u : Update) (handle : ContextHandle) : Workspace :=
  { (enroll setup { slice } u).1 with
    context := some handle
    contextId := some handle.id
    baseline := { lastBuildSucceeded := some !setup.settings.suppressDiagnosticsUntilBuild } }

variable {slice : Slice} {e : Evaluation} {session' : Session} {events : List Event}

theorem opened_eq (setup : Setup) (slice : Slice) (u : Update) :
    ∃ owner, (enroll setup { slice } u).1 = { slice, status := .initialized, owner } ∧
      ∀ handle, opened setup slice u handle =
      { slice
        status := .initialized
        owner
        context := some handle
        contextId := some handle.id
        baseline := { lastBuildSucceeded := some !setup.settings.suppressDiagnosticsUntilBuild } } := by
  obtain ⟨status, owner, henroll, hstatus⟩ := @enroll_eq setup { slice } u
  obtain rfl := hstatus rfl
  exact ⟨owner, henroll, fun handle => by rw [opened, henroll]⟩

theorem fitted_opened (setup : Setup) (slice : Slice) (u : Update) (handle : ContextHandle) :
    (opened setup slice u handle).Fitted handle := by
  obtain ⟨owner, -, hopened⟩ := opened_eq setup slice u
  rw [hopened]
  exact ⟨⟨rfl, rfl⟩, rfl, rfl, nofun⟩

/-- What the closing of a batch does depends on the session no more than the rest of the call. -/
theorem close_eq (env : Environment) (w : Workspace) (batch : OpenBatch) :
    ∃ w' events result, ∀ session, w.close env session batch = ⟨session, w', events, .finished result⟩ := by
  unfold close
  cases batch.failure.or env.rejected with
  | some error => exact ⟨_, _, _, fun _ => rfl⟩
  | none => exact ⟨_, _, _, fun _ => rfl⟩

/-- The batch of the evaluation that creates the context, and that of one which finds it just created. -/
theorem receive_opened (slice : Slice) (hc : o.session.create o.env setup.registry e = .ok (session', handle, events)) :
    let u : Update := ⟨o.versions, .evaluation e⟩
    ∃ v batch log log', (taken { slice }).receive setup o.env o.session u = ⟨session', v, log, .closing batch⟩ ∧
      (opened setup slice u handle).taken.receive setup o.env o.session u = ⟨o.session, v, log', .closing batch⟩ ∧
      Event.handlings log = Event.handlings log' ∧
      ContextCall.mutations (Event.callsOf handle.serial log) =
        .setLastBuildSucceeded (!setup.settings.suppressDiagnosticsUntilBuild) ::
          ContextCall.mutations (Event.callsOf handle.serial log') := by
  intro u
  obtain ⟨-, -, -, params, rfl⟩ := Session.create_eq hc
  obtain ⟨-, -, hactive⟩ := Session.create_live hc
  obtain ⟨owner, henroll, hopened⟩ := opened_eq setup slice u
  have htaken : ((taken { slice }).enroll setup u).1 = (enroll setup { slice } u).1.taken := by
    simp only [enroll]
    cases setup.tracksProgress <;> rfl
  have hcreates : (taken { slice }).receive setup o.env o.session u = Passage.after ((taken { slice }).enroll setup u).2
      (receiveEvaluation setup o.env o.session ((taken { slice }).enroll setup u).1 o.versions e) :=
    receive_of_admits rfl u
  rw [htaken, henroll, receiveEvaluation_created rfl hc, openEvaluation] at hcreates
  have hfinds : (opened setup slice u handle).taken.receive setup o.env o.session u =
      receiveEvaluation setup o.env o.session (opened setup slice u handle).taken o.versions e :=
    receive_taken (fitted_opened setup slice u handle).status u
  rw [hopened, receiveEvaluation_some rfl, evaluate_of_not_knows (fun _ hk => by cases hk.activity),
    openEvaluation] at hfinds
  rw [hopened]
  rw [hactive] at hcreates
  refine ⟨_, _, _, _, hcreates, hfinds, ?_, ?_⟩
  · simp only [Passage.after, Event.handlings_append, Event.handlings_context_cons, handlings_enroll, Effect.handlings_events,
      if_true, List.nil_append, Bool.false_eq_true, if_false]
    rfl
  · simp only [Passage.after, Event.callsOf_append, callsOf_enroll, List.nil_append, Event.callsOf_context_cons, if_true,
      Effect.callsOf_events, Bool.false_eq_true, if_false]
    rfl

/-- The first evaluation goes on with the context that it has created as another one would. -/
theorem attempt_opened (slice : Slice) (hc : o.session.create o.env setup.registry e = .ok (session', handle, events))
    (hp : (attempt setup { slice } (.evaluation e) o).progress.result?.isSome = true) :
    let u : Update := ⟨o.versions, .evaluation e⟩
    let a := attempt setup (opened setup slice u handle) (.evaluation e) o
    (attempt setup { slice } (.evaluation e) o).workspace = a.workspace ∧
      (attempt setup { slice } (.evaluation e) o).progress.result? = a.progress.result? ∧
      Event.handlings (attempt setup { slice } (.evaluation e) o).events = Event.handlings a.events ∧
      ContextCall.mutations (Event.callsOf handle.serial (attempt setup { slice } (.evaluation e) o).events) =
        .setLastBuildSucceeded (!setup.settings.suppressDiagnosticsUntilBuild) ::
          ContextCall.mutations (Event.callsOf handle.serial a.events) := by
  intro u a
  have hfree : Free { slice } := ⟨rfl, rfl⟩
  have hkind {P : Prop} (h : u.kind = .build) : P := by cases h
  have hfitted := fitted_opened setup slice u handle
  obtain ⟨v, batch, log, log', hq, hq', hhandlings, hmutations⟩ := receive_opened slice hc
  cases hg : o.env.gateOpen with
  | false =>
    obtain ⟨c, hgo⟩ := onUpdate_of_stuck hfree hkind hg hq
    rw [attempt, hgo] at hp
    cases hp
  | true =>
    obtain ⟨v', ended, result, hclose⟩ := close_eq o.env v batch
    have hend := onUpdate_of_closing hfree hkind hg hq (hclose _)
    have hend' := onUpdate_of_closing hfitted.toFree hkind hg hq' (hclose _)
    simp only [a, attempt]
    rw [hend, hend']
    refine ⟨rfl, rfl, ?_, ?_⟩
    · simp only [Event.handlings_append, hhandlings]
    · simp only [Event.callsOf_append, ContextCall.mutations_append, hmutations, List.cons_append]

/-- A context that cannot be created ends the call. -/
theorem attempt_uncreated {error : SyncError} (hc : o.session.create o.env setup.registry e = .error error) :
    (attempt setup { slice } (.evaluation e) o).progress = .done (.error error) := by
  let u : Update := ⟨o.versions, .evaluation e⟩
  have hkind {P : Prop} (h : u.kind = .build) : P := by cases h
  have hq : (taken { slice }).receive setup o.env o.session u = Passage.after ((taken { slice }).enroll setup u).2
      (receiveEvaluation setup o.env o.session ((taken { slice }).enroll setup u).1 o.versions e) :=
    receive_of_admits rfl u
  rw [receiveEvaluation_error ((enroll_context u).trans rfl) hc] at hq
  rw [attempt, onUpdate_of_finished ⟨rfl, rfl⟩ hkind hq]

/-- A call on a new workspace that ends creates the context, or it cannot be created. -/
theorem creates_of_ends (hp : (attempt setup { slice } x o).progress.result?.isSome = true) :
    (∃ e session' handle events, x = .evaluation e ∧
        o.session.create o.env setup.registry e = .ok (session', handle, events)) ∨
      ∃ error, (attempt setup { slice } x o).progress = .done (.error error) ∧
        (o.env.RefusesApart → error.ofBatch = false) := by
  cases x with
  | evaluation e =>
    cases hc : o.session.create o.env setup.registry e with
    | error error =>
      refine .inr ⟨error, attempt_uncreated hc, fun hf => ?_⟩
      by_cases hrefused : o.env.refused = some error
      · exact hf error hrefused
      · exact Session.ofBatch_of_create hc hrefused
    | ok created => exact .inl ⟨e, created.1, created.2.1, created.2.2, rfl, hc⟩
  | build b =>
    obtain ⟨c, hgo⟩ := attempt_of_pending setup (w := { slice }) ⟨rfl, rfl⟩ rfl b o
    rw [hgo] at hp
    cases hp

/-- An evaluation that creates the context, with all that follows, goes as one that finds it just created. -/
theorem run_opened (slice : Slice) (rest : List (Payload × Occasion))
    (hc : o.session.create o.env setup.registry e = .ok (session', handle, events))
    (hp : (attempt setup { slice } (.evaluation e) o).progress.result?.isSome = true) :
    let w := opened setup slice ⟨o.versions, .evaluation e⟩ handle
    let calls := (.evaluation e, o) :: rest
    (runAll (takes setup) { slice } calls).1 = (runAll (takes setup) w calls).1 ∧
      (runAll (takes setup) { slice } calls).2.map (·.account) = (runAll (takes setup) w calls).2.map (·.account) ∧
      told handle.serial (runAll (takes setup) { slice } calls).2 =
        .setLastBuildSucceeded (!setup.settings.suppressDiagnosticsUntilBuild) ::
          told handle.serial (runAll (takes setup) w calls).2 ∧
      sparing setup { slice } calls = sparing setup w calls := by
  intro w calls
  obtain ⟨hworkspace, hresult, hhandlings, hmutations⟩ := attempt_opened slice hc hp
  have haccount : (outcome setup { slice } (.evaluation e, o)).account = (w.outcome setup (.evaluation e, o)).account := by
    simp only [Processed.account, outcome, hresult, hhandlings, w]
  have hfails : (outcome setup { slice } (.evaluation e, o)).isFailedEvaluation =
      (w.outcome setup (.evaluation e, o)).isFailedEvaluation := by
    simp only [Processed.isFailedEvaluation, outcome, hresult, w]
  refine ⟨?_, ?_, ?_, ?_⟩
  · simp only [calls, runAll_cons, takes, hworkspace, w]
  · simp only [calls, runAll_cons, takes, hworkspace, List.map_append, List.map_cons, haccount, w]
  · simp only [calls, runAll_cons, takes, hworkspace, told, List.flatMap_append, List.flatMap_cons, List.flatMap_nil,
      outcome, hmutations, List.cons_append, w]
  · simp only [calls, sparing, hfails, hworkspace, w]

theorem alongside_opened {u u' : Update} (h : handle.handlers = handle'.handlers) :
    (opened setup slice u handle).Alongside (opened setup slice u' handle') := by
  obtain ⟨owner, -, hopened⟩ := opened_eq setup slice u
  obtain ⟨owner', -, hopened'⟩ := opened_eq setup slice u'
  have hlike : handle.handlers.Like handle'.handlers := h ▸ ⟨rfl, rfl, rfl⟩
  refine ⟨?_, rfl, ?_, handle, handle', fitted_opened .., fitted_opened .., hlike⟩
  · rw [hopened, hopened']
  · rw [hopened, hopened']

theorem mem_of_mem_sparing {call : Payload × Occasion} (h : call ∈ sparing setup w calls) : call ∈ calls := by
  induction calls generalizing w with
  | nil => cases h
  | cons other rest ih =>
    rw [sparing] at h
    split at h
    · exact List.mem_cons_of_mem _ (ih h)
    · exact List.mem_cons.2 ((List.mem_cons.1 h).imp_right ih)

/-! ## The files after failed evaluations -/

/-- What the context of a workspace holds after calls. -/
def heldAfter (r : Workspace × List Processed) : Content :=
  match r.1.context with
  | some handle => ({} : Content).replay (told handle.serial r.2)
  | none => {}

/-- The calls in a run with these accounts have ended. -/
theorem ended_of_accounts {done done' : List Processed} (h : done.map (·.account) = done'.map (·.account))
    (hp : ∀ p ∈ done', p.result.isSome = true) : ∀ p ∈ done, p.result.isSome = true := by
  intro p hmem
  obtain ⟨q, hq, hsame⟩ := List.mem_map.1 (h ▸ List.mem_map_of_mem (f := Processed.account) hmem)
  have hresult : q.result = p.result := congrArg (·.2.1) hsame
  exact hresult ▸ hp q hq

theorem turnoversOf_eq (name itemType : String) (done : List Processed) :
    turnoversOf name itemType done = (done.map (·.account)).flatMap fun a => turnoversIn name itemType a.2.2 := by
  rw [List.flatMap_map]
  rfl

variable {name itemType : String} {list : PathList}

/-- After calls of which the first has created the context, a list of files is what remains of the turnovers that
its handler was called with. -/
theorem files_opened (hr : setup.registry.Extended)
    (hm : ⟨.files name itemType list, []⟩ ∈ Registry.standard.items)
    (hc : o.session.create o.env setup.registry e = .ok (session', handle, events)) (rest : List (Payload × Occasion))
    (hp : ∀ p ∈ (runAll (takes setup) { slice } ((.evaluation e, o) :: rest)).2, p.result.isSome = true)
    (hs : ∀ call ∈ (.evaluation e, o) :: rest, call.2.env.Spares list) (path : String) :
    ((heldAfter (runAll (takes setup) { slice } ((.evaluation e, o) :: rest))).paths list).contains path = true ↔
      Remains (Text.Path.resolveIn (Text.Path.directoryOf e.project.path))
        (turnoversOf name itemType (runAll (takes setup) { slice } ((.evaluation e, o) :: rest)).2) path := by
  have hend : (attempt setup { slice } (.evaluation e) o).progress.result?.isSome = true :=
    hp _ (List.mem_append_left _ (List.mem_singleton_self _))
  obtain ⟨hworkspace, haccounts, htold, -⟩ := run_opened slice rest hc hend
  obtain ⟨-, -, hhandlers, -⟩ := Session.create_eq hc
  let made : ItemFiles := { itemType, list, directory := Text.Path.directoryOf e.project.path }
  let blank := Content.apply {} (.setLastBuildSucceeded !setup.settings.suppressDiagnosticsUntilBuild)
  have hblank : blank.paths list = ∅ := by cases list <;> rfl
  have hfiling : Filing name made blank [] handle := by
    constructor
    · rw [hhandlers]
      refine ⟨made, rfl, hr.keeps hm e.project, fun path => ?_, fun path => ?_⟩
      · exact iff_of_false (by simp [made, NameMap.contains]) not_remains_nil
      · show (blank.paths list).contains path = true ↔ _
        rw [hblank]
        exact iff_of_false (by simp [NameMap.contains]) not_remains_nil
    · rw [hhandlers]
      exact fun other r hmem => hr.references_ne hm e.project hmem
  obtain ⟨s, hfitted, hfiling⟩ := (fitted_opened setup slice ⟨o.versions, .evaluation e⟩ handle).files_run hfiling hs
    (ended_of_accounts haccounts.symm hp)
  obtain ⟨f, hmade, -, hfiled⟩ := hfiling.items
  have hlist : f.list = list := by rw [← f.made_list, hmade]
  have hpaths := hfiled.paths path
  rw [hlist] at hpaths
  have hheld : heldAfter (runAll (takes setup) { slice } ((.evaluation e, o) :: rest)) =
      blank.replay (told handle.serial (runAll (takes setup) (opened setup slice ⟨o.versions, .evaluation e⟩ handle)
        ((.evaluation e, o) :: rest)).2) := by
    rw [heldAfter, hworkspace, hfitted.context]
    dsimp only
    rw [htold]
    rfl
  rw [hheld, turnoversOf_eq, haccounts, ← turnoversOf_eq]
  exact hpaths

/-- Every path that came or went with a failed evaluation has come or gone again with a later update that was none. -/
def Resettled (resolve : String → String) (name itemType : String) (done : List Processed) : Prop :=
  ∀ before p after, done = before ++ p :: after → p.isFailedEvaluation = true →
    ∀ path, (∃ t ∈ turnoversOf name itemType [p], Touches resolve path t) →
      ∃ q ∈ after, q.isFailedEvaluation = false ∧ ∃ t ∈ turnoversOf name itemType [q], Touches resolve path t

theorem exists_last {α : Type} {P : α → Prop} {l : List α} (h : ∃ a ∈ l, P a) :
    ∃ before a after, l = before ++ a :: after ∧ P a ∧ ∀ b ∈ after, ¬P b := by
  induction l with
  | nil => exact absurd h (by simp)
  | cons a rest ih =>
    by_cases hrest : ∃ b ∈ rest, P b
    · obtain ⟨before, b, after, rfl, hb, hnone⟩ := ih hrest
      exact ⟨a :: before, b, after, rfl, hb, hnone⟩
    · have ha : P a := by
        obtain ⟨b, hb, hp⟩ := h
        rcases List.mem_cons.1 hb with rfl | hb
        · exact hp
        · exact absurd ⟨b, hb, hp⟩ hrest
      exact ⟨[], a, rest, rfl, ha, fun b hb hp => hrest ⟨b, hb, hp⟩⟩

/-- What remains of a path is for the last call to say with which it came or went. -/
theorem remains_of_last {resolve : String → String} {path : String} {before after : List Processed} {p : Processed}
    (hp : ∃ t ∈ turnoversOf name itemType [p], Touches resolve path t)
    (hlast : ∀ q ∈ after, ¬∃ t ∈ turnoversOf name itemType [q], Touches resolve path t) :
    Remains resolve (turnoversOf name itemType (before ++ p :: after)) path ↔
      Remains resolve (turnoversOf name itemType [p]) path := by
  have hsplit : turnoversOf name itemType (before ++ p :: after) =
      turnoversOf name itemType before ++ turnoversOf name itemType [p] ++ turnoversOf name itemType after := by
    simp [turnoversOf]
  have huntouched : ∀ t ∈ turnoversOf name itemType after, ¬Touches resolve path t := by
    intro t ht htouches
    obtain ⟨q, hq, ht⟩ := List.mem_flatMap.1 ht
    exact hlast q hq ⟨t, by simpa [turnoversOf] using ht, htouches⟩
  rw [hsplit, remains_append_of_untouched huntouched, remains_append_of_touched hp]

theorem remains_of_resettled {resolve : String → String} {done : List Processed}
    (h : Resettled resolve name itemType done) (path : String) :
    Remains resolve (turnoversOf name itemType done) path ↔
      Remains resolve (turnoversOf name itemType (done.filter (!·.isFailedEvaluation))) path := by
  by_cases htouched : ∃ p ∈ done, ∃ t ∈ turnoversOf name itemType [p], Touches resolve path t
  · obtain ⟨before, p, after, rfl, hp, hlast⟩ := exists_last htouched
    -- the last call with which the path came or went did not fail
    have hgood : p.isFailedEvaluation = false := by
      rw [← Bool.not_eq_true]
      intro hfails
      obtain ⟨q, hq, -, htouches⟩ := h before p after rfl hfails path hp
      exact hlast q hq htouches
    rw [List.filter_append, List.filter_cons_of_pos (by simp [hgood]), remains_of_last hp hlast,
      remains_of_last hp fun q hq => hlast q (List.mem_filter.1 hq).1]
  · have hnone (l : List Processed) (hl : ∀ p ∈ l, p ∈ done) : ¬Remains resolve (turnoversOf name itemType l) path := by
      rintro ⟨before, t, after, hsplit, hbrings, -⟩
      have ht : t ∈ turnoversOf name itemType l := by simp [hsplit]
      obtain ⟨p, hmem, ht⟩ := List.mem_flatMap.1 ht
      exact htouched ⟨p, hl p hmem, t, by simpa [turnoversOf] using ht, .inl hbrings⟩
    exact iff_of_false (hnone done fun _ => id) (hnone _ fun p hmem => (List.mem_filter.1 hmem).1)

/-- How a run goes, and how it goes without its failed evaluations. -/
structure Compared (directory : String) (all kept : Workspace × List Processed) : Prop where
  contexts : all.1.context.isSome = true ∧ kept.1.context.isSome = true
  /-- All other calls go as they did, … -/
  accounts : kept.2.map (·.account) = (all.2.filter (!·.isFailedEvaluation)).map (·.account)
  /-- … and what evaluations are seen from is the same. -/
  baseline : kept.1.baseline = all.1.baseline
  /-- The files are what remains of the turnovers, with the failed ones and without. -/
  files : ∀ name itemType list, ⟨.files name itemType list, []⟩ ∈ Registry.standard.items →
    let resolve := Text.Path.resolveIn directory
    let turns := turnoversOf name itemType all.2
    let settled := turnoversOf name itemType (all.2.filter (!·.isFailedEvaluation))
    (∀ path, ((heldAfter all).paths list).contains path = true ↔ Remains resolve turns path) ∧
      (∀ path, ((heldAfter kept).paths list).contains path = true ↔ Remains resolve settled path) ∧
      ((heldAfter all).paths list = (heldAfter kept).paths list ↔
        ∀ path, Remains resolve turns path ↔ Remains resolve settled path) ∧
      (Resettled resolve name itemType all.2 → (heldAfter all).paths list = (heldAfter kept).paths list)

/-- If the first call that is left would end well at once, the first call of all has created the context. -/
theorem exists_create {first : Payload × Occasion} {rest : List (Payload × Occasion)}
    (hf : ∀ call ∈ calls, call.2.env.RefusesApart)
    (hp : ∀ p ∈ (runAll (takes setup) { slice } calls).2, p.result.isSome = true)
    (hfirst : sparing setup { slice } calls = first :: rest)
    (honce : (attempt setup { slice } first.1 first.2).progress = .done (.ok .done)) :
    ∃ e o more session' handle events, calls = (.evaluation e, o) :: more ∧
      o.session.create o.env setup.registry e = .ok (session', handle, events) := by
  cases calls with
  | nil => cases hfirst
  | cons call more =>
    obtain ⟨x, o⟩ := call
    have hend : (attempt setup { slice } x o).progress.result?.isSome = true :=
      hp _ (List.mem_append_left _ (List.mem_singleton_self _))
    rcases creates_of_ends hend with ⟨e, session', handle, events, rfl, hc⟩ | ⟨error, herror, hbatch⟩
    · exact ⟨e, o, more, session', handle, events, rfl, hc⟩
    · -- a context that cannot be created is no failed evaluation, so that call is left
      have hkept : (outcome setup { slice } (x, o)).isFailedEvaluation = false := by
        rw [← Bool.not_eq_true, Processed.isFailedEvaluation_iff]
        rintro ⟨-, error', -, hresult, hbatch'⟩
        rw [outcome, herror] at hresult
        cases hresult
        exact absurd (hbatch'.symm.trans (hbatch (hf _ List.mem_cons_self))) nofun
      rw [sparing, if_neg (by simp [hkept])] at hfirst
      cases hfirst
      exact absurd (herror.symm.trans honce) nofun

/-- A run of calls on a new workspace, of which some evaluations fail, compared with the run without these: all other
calls go as they did, and the context has the same files exactly if what remains of the turnovers is the same
without the failed ones. In particular it has the same files if every path that came or went with a failed
evaluation has come or gone again with a later one that did not fail. -/
theorem files_iff_remain (setup : Setup) (hr : setup.registry.Extended) (slice : Slice)
    (calls : List (Payload × Occasion)) (hf : ∀ call ∈ calls, call.2.env.RefusesApart)
    (hp : ∀ p ∈ (runAll (takes setup) { slice } calls).2, p.result.isSome = true)
    (hs : ∀ call ∈ calls, ∀ l ∈ PathList.files, call.2.env.Spares l.1) (first : Payload × Occasion)
    (rest : List (Payload × Occasion)) (hfirst : sparing setup { slice } calls = first :: rest)
    (honce : (attempt setup { slice } first.1 first.2).progress = .done (.ok .done))
    (hproject : ∀ call ∈ calls.head?, (updateOf call).project = (updateOf first).project) :
    Compared (Text.Path.directoryOf (updateOf first).project.path) (runAll (takes setup) { slice } calls)
      (runAll (takes setup) { slice } (sparing setup { slice } calls)) := by
  obtain ⟨e₁, o₁, more, session₁, handle₁, events₁, rfl, hc₁⟩ := exists_create hf hp hfirst honce
  obtain ⟨x, o⟩ := first
  have hend₁ : (attempt setup { slice } (.evaluation e₁) o₁).progress.result?.isSome = true :=
    hp _ (List.mem_append_left _ (List.mem_singleton_self _))
  have hend : (attempt setup { slice } x o).progress.result?.isSome = true := by
    rw [honce]
    rfl
  obtain ⟨e, session', handle, events, rfl, hc⟩ | ⟨error, herror, -⟩ := creates_of_ends hend
  swap
  · exact absurd (herror.symm.trans honce) nofun
  have hsame : e₁.project = e.project := hproject (.evaluation e₁, o₁) rfl
  -- both runs go as on workspaces whose contexts have just been created, with the same handlers
  obtain ⟨hworkspace₁, haccounts₁, -, hsparing⟩ := run_opened slice more hc₁ hend₁
  obtain ⟨hworkspace, haccounts, -, -⟩ := run_opened slice rest hc hend
  have hside : (opened setup slice ⟨o₁.versions, .evaluation e₁⟩ handle₁).Alongside
      (opened setup slice ⟨o.versions, .evaluation e⟩ handle) := by
    obtain ⟨-, -, hhandlers₁, -⟩ := Session.create_eq hc₁
    obtain ⟨-, -, hhandlers, -⟩ := Session.create_eq hc
    exact alongside_opened (by rw [hhandlers₁, hhandlers, hsame])
  obtain ⟨hrun, hleft⟩ := hside.run (ended_of_accounts haccounts₁.symm hp)
  rw [← hsparing, hfirst] at hrun hleft
  have hkept := haccounts.trans (hleft.trans (Processed.filter_congr haccounts₁).symm)
  have hkept_ends := ended_of_accounts hkept fun p hmem => hp p (List.mem_filter.1 hmem).1
  obtain ⟨handle', handle'', hfitted, hfitted', -⟩ := hrun.handlers
  have hcontexts : (runAll (takes setup) { slice } ((.evaluation e₁, o₁) :: more)).1.context.isSome = true ∧
      (runAll (takes setup) { slice } ((.evaluation e, o) :: rest)).1.context.isSome = true := by
    rw [hworkspace₁, hworkspace, hfitted.context, hfitted'.context]
    exact ⟨rfl, rfl⟩
  rw [hfirst]
  refine ⟨hcontexts, hkept, by rw [hworkspace, hworkspace₁, hrun.baseline], fun name itemType list hm => ?_⟩
  intro resolve turns settled
  have hspares : ∀ call ∈ (.evaluation e₁, o₁) :: more, call.2.env.Spares list := by
    intro call hcall
    rcases List.mem_cons.1 hm with hm | hm
    · cases hm
      exact hs call hcall (.sourceFiles, WellKnown.compileItems) (by simp [PathList.files])
    · cases List.mem_singleton.1 hm
      exact hs call hcall (.additionalFiles, WellKnown.additionalFileItems) (by simp [PathList.files])
  have hall := files_opened hr hm hc₁ more hp hspares
  have hleft := files_opened hr hm hc rest hkept_ends fun call hcall =>
    hspares call (mem_of_mem_sparing (hfirst ▸ hcall))
  rw [hsame] at hall
  have hsettled : turnoversOf name itemType (runAll (takes setup) { slice } ((.evaluation e, o) :: rest)).2 =
      settled := by
    rw [turnoversOf_eq, hkept, ← turnoversOf_eq]
  rw [hsettled] at hleft
  have hiff : (heldAfter (runAll (takes setup) { slice } ((.evaluation e₁, o₁) :: more))).paths list =
        (heldAfter (runAll (takes setup) { slice } ((.evaluation e, o) :: rest))).paths list ↔
      ∀ path, Remains resolve turns path ↔ Remains resolve settled path := by
    refine ⟨fun heq path => ?_, fun h => NameSet.ext_contains fun path => ?_⟩
    · exact (hall path).symm.trans (heq ▸ hleft path)
    · exact (hall path).trans ((h path).trans (hleft path).symm)
  exact ⟨hall, hleft, hiff, fun h => hiff.2 fun path => remains_of_resettled h path⟩

set_option maxRecDepth 100000 in
/-- A file that came with an evaluation whose batch was rejected, and is not in the next one. -/
theorem files_iff_remain_rejected :
    let well : Occasion := { env := {}, session := (World.initial {}).session }
    let rejected : Occasion := { well with env := { rejection := some "sink rejected the batch" } }
    let calls := [((Sample.evaluation ["a.cs"]).payload, well), ((Sample.evaluation ["a.cs", "b.cs"]).payload, rejected),
      ((Sample.evaluation ["a.cs"]).payload, well)]
    Compared "/src" (runAll (takes {}) { slice := .empty } calls)
      (runAll (takes {}) { slice := .empty } (sparing {} { slice := .empty } calls)) := by
  intro well rejected calls
  have hends : ∀ p ∈ (runAll (takes {}) { slice := .empty } calls).2, p.result.isSome = true := by decide +kernel
  have hspares : ∀ call ∈ calls, ∀ l ∈ PathList.files, call.2.env.Spares l.1 := by
    intro call hcall l _ handlerCall m hm
    have hreply : call.2.env.reply handlerCall = {} := by
      simp only [calls, List.mem_cons, List.not_mem_nil, or_false] at hcall
      rcases hcall with rfl | rfl | rfl <;> rfl
    rw [hreply] at hm
    cases hm
  have hfirst : sparing {} { slice := .empty } calls =
      [((Sample.evaluation ["a.cs"]).payload, well), ((Sample.evaluation ["a.cs"]).payload, well)] := by
    simp only [calls]
    rw [sparing, if_neg (by decide +kernel), sparing, if_pos (by decide +kernel), sparing, if_neg (by decide +kernel),
      sparing]
  have honce : ((attempt {} { slice := .empty } (Sample.evaluation ["a.cs"]).payload well).progress.answer?) =
      some .done := by decide +kernel
  have hproject : ∀ call ∈ calls.head?,
      (updateOf call).project = (updateOf ((Sample.evaluation ["a.cs"]).payload, well)).project := by
    intro call hcall
    cases hcall
    rfl
  have hdirectory : Text.Path.directoryOf (updateOf ((Sample.evaluation ["a.cs"]).payload, well)).project.path = "/src" := by
    decide +kernel
  have hapart : ∀ call ∈ calls, call.2.env.RefusesApart := by
    intro call hcall error herror
    have hnone : call.2.env.refused = none := by
      simp only [calls, List.mem_cons, List.not_mem_nil, or_false] at hcall
      rcases hcall with rfl | rfl | rfl <;> rfl
    cases hnone.symm.trans herror
  have hcompared := files_iff_remain {} ⟨rfl, rfl⟩ .empty calls hapart hends hspares _ _ hfirst
    (Progress.answer?_eq_some_iff.1 honce) hproject
  rwa [hdirectory] at hcompared

set_option maxRecDepth 100000 in
/-- The context still has a file that came with an evaluation whose batch was rejected, when the next evaluation,
which is without the file, has ended well. -/
theorem not_same_files_after_rejection :
    let well : Occasion := { env := {}, session := (World.initial {}).session }
    let rejected : Occasion := { well with env := { rejection := some "sink rejected the batch" } }
    let calls := [((Sample.evaluation ["a.cs"]).payload, well), ((Sample.evaluation ["a.cs", "b.cs"]).payload, rejected),
      ((Sample.evaluation ["a.cs"]).payload, well)]
    let all := runAll (takes {}) { slice := .empty } calls
    let kept := runAll (takes {}) { slice := .empty } (sparing {} { slice := .empty } calls)
    all.2.map (·.isFailedEvaluation) = [false, true, false] ∧
      (∀ p ∈ all.2.getLast?, p.result.bind (·.toOption) = some .done) ∧
      (heldAfter all).sourceFiles.contains "/src/b.cs" = true ∧
      (heldAfter kept).sourceFiles.contains "/src/b.cs" = false := by
  intro well rejected calls all kept
  refine ⟨?_, ?_, ?_, ?_⟩ <;> decide +kernel

end Workspace

end SliceSync
