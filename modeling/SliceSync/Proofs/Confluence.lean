import SliceSync.Proofs.Streams
/-!
# Two streams in any order

Evaluations and builds work on different sides of a workspace: an evaluation neither reads nor changes
what builds change, and the other way round. So, once the first evaluation has gone ahead, each stream
does what it would do alone, and it does not matter how the two are mixed.

Main statement: `feed_confluent`.
-/

namespace SliceSync

/-! ## The sides of a workspace -/

namespace HandlerSet

/-- Without the handlers of one kind of updates. -/
def side : UpdateKind → HandlerSet → HandlerSet
  | .evaluation, s => { s with arguments := [] }
  | .build, s => { s with evaluation := [], items := [] }

variable (s : HandlerSet) (env : Environment) (rules : NameMap Change) (items : Listing String Change)
  (d : ArgumentDifference) (activity : Activity)

theorem applyBoth_side :
    (side .evaluation s).applyBoth env rules items activity =
      { s.applyBoth env rules items activity with
        state := side .evaluation (s.applyBoth env rules items activity).state } := by
  unfold applyBoth applyEvaluation applyItems side
  dsimp only
  cases (callUntilFailure (callEvaluation env rules activity) 0 s.evaluation).failure <;> rfl

theorem applyBoth_aside :
    side .build (s.applyBoth env rules items activity).state = side .build s := by
  unfold applyBoth applyEvaluation applyItems side
  dsimp only
  cases (callUntilFailure (callEvaluation env rules activity) 0 s.evaluation).failure <;> rfl

end HandlerSet

/-- The context with the handlers of one side. -/
def ContextHandle.side (k : UpdateKind) (handle : ContextHandle) : ContextHandle :=
  { handle with handlers := handle.handlers.side k }

namespace Workspace

/-- The workspace without what only the updates of the other kind read or change. -/
def side : UpdateKind → Workspace → Workspace
  | .evaluation, w =>
    { w with
      context := w.context.map (·.side .evaluation)
      baseline := { w.baseline with arguments := [], lastBuildSucceeded := none }
      buildIntegrated := false }
  | .build, w =>
    { w with
      context := w.context.map (·.side .build)
      baseline := { w.baseline with rules := ∅, items := ∅ } }

/-- The two sides make up the whole. -/
theorem eq_of_sides {w v : Workspace} (h : ∀ k, w.side k = v.side k) : w = v := by
  have he := h .evaluation
  have hb := h .build
  obtain ⟨slice, status, owner, context, ⟨rules, items, arguments, succeeded, activity⟩, lock, unload,
    evaluation, integrated, contextId⟩ := w
  obtain ⟨slice', status', owner', context', ⟨rules', items', arguments', succeeded', activity'⟩, lock',
    unload', evaluation', integrated', contextId'⟩ := v
  simp only [side, mk.injEq, Baseline.mk.injEq] at he hb
  -- the context is on both sides, each time without the handlers of the other
  have hcontext : context = context' := by
    obtain ⟨-, -, -, he, -⟩ := he
    obtain ⟨-, -, -, hb, -⟩ := hb
    cases context with
    | none =>
      cases context' with
      | none => rfl
      | some handle => cases he
    | some handle =>
      cases context' with
      | none => cases he
      | some handle' =>
        obtain ⟨serial, id, ⟨_, _, _, _⟩⟩ := handle
        obtain ⟨serial', id', ⟨_, _, _, _⟩⟩ := handle'
        simp [ContextHandle.side, HandlerSet.side] at he hb
        simp [he, hb]
  simp [he, hb, hcontext]

variable {env : Environment} {w : Workspace} {handle : ContextHandle} {e : Evaluation} {b : Build}
  {activity : Activity} {versions : Versions}

theorem Open.side (h : w.Open) (k : UpdateKind) : (w.side k).Open := by
  cases k <;> exact ⟨⟨h.lock, h.unload⟩, h.status, h.evaluation⟩

theorem context_side (h : w.context = some handle) (k : UpdateKind) :
    (w.side k).context = some (handle.side k) := by
  cases k <;> simp [Workspace.side, h]

theorem knows_side : (w.side .evaluation).Knows e activity ↔ w.Knows e activity :=
  ⟨fun h => ⟨h.rules, h.items, h.activity⟩, fun h => ⟨h.rules, h.items, h.activity⟩⟩

theorem knowsBuild_side : (w.side .build).KnowsBuild b activity ↔ w.KnowsBuild b activity :=
  ⟨fun h => ⟨h.arguments, h.outcome, h.activity⟩, fun h => ⟨h.arguments, h.outcome, h.activity⟩⟩

theorem evaluated_side :
    (w.side .evaluation).evaluated env (handle.side .evaluation) e activity =
      (w.evaluated env handle e activity).side .evaluation := by
  have h := congrArg Round.state
    (handle.handlers.applyBoth_side env (w.seenRules e) (w.seenItems e) activity)
  exact congrArg
    (fun s => { (w.evaluated env handle e activity).side .evaluation with
      context := some { handle with handlers := s } }) h

theorem evaluationEvents_side :
    (w.side .evaluation).evaluationEvents env (handle.side .evaluation) versions e activity =
      w.evaluationEvents env handle versions e activity := by
  have h := congrArg Round.effects
    (handle.handlers.applyBoth_side env (w.seenRules e) (w.seenItems e) activity)
  exact congrArg
    (fun effects => Event.context handle.serial .startBatch :: effects.map (Effect.event handle.serial) ++
      .context handle.serial .endBatch :: w.tell versions) h

theorem evaluated_aside (ho : w.context = some handle) (ha : w.baseline.activity = some activity) :
    (w.evaluated env handle e activity).side .build = w.side .build := by
  have h := handle.handlers.applyBoth_aside env (w.seenRules e) (w.seenItems e) activity
  have hcontext : w.context.map (·.side .build) = some (handle.side .build) := by rw [ho]; rfl
  unfold Workspace.side
  simp only [evaluated, hcontext, ha, Option.map_some]
  exact congrArg
    (fun s => { w with
      context := some { handle with handlers := s }
      baseline := { w.baseline with rules := ∅, items := ∅, activity := some activity } }) h

theorem built_side :
    (w.side .build).built env (handle.side .build) b activity = (w.built env handle b activity).side .build :=
  rfl

theorem buildEvents_side :
    (w.side .build).buildEvents env (handle.side .build) versions b activity =
      w.buildEvents env handle versions b activity := rfl

theorem built_aside (ho : w.context = some handle) (ha : w.baseline.activity = some activity) :
    (w.built env handle b activity).side .evaluation = w.side .evaluation := by
  have hcontext : w.context.map (·.side .evaluation) = some (handle.side .evaluation) := by rw [ho]; rfl
  unfold Workspace.side
  simp only [built, hcontext, ha, Option.map_some]
  rfl

end Workspace

/-! ## What contexts are told -/

/-- The kind of updates that change a part of a context. -/
def Part.kind : Part → UpdateKind
  | .paths .sourceFiles | .paths .additionalFiles | .displayName | .outputPath => .evaluation
  | .paths .metadataReferences | .paths .analyzerReferences | .options | .outcome => .build

/-- What comes of an update after the first evaluation: the call ends, no context is created, and what
contexts are told is for updates of its kind to change. -/
structure Processed.Proper (p : Processed) : Prop where
  ended : p.result.isSome
  creates : ∀ serial params, .created serial params ∉ p.events
  part : ∀ n, ∀ m ∈ ContextCall.mutations (Event.callsOf n p.events), m.part.kind = p.update.kind

namespace Workspace

variable {env : Environment} {w : Workspace} {handle : ContextHandle} {e : Evaluation} {b : Build}
  {activity : Activity} {versions : Versions} {k : Kept}

theorem created_not_mem_tell (serial : Nat) (params : CreationParams) :
    .created serial params ∉ w.tell versions := by
  unfold tell
  cases w.owner <;> simp

theorem created_not_mem_effects (serial n : Nat) (params : CreationParams) (effects : List Effect) :
    .created serial params ∉ effects.map (Effect.event n) := by
  intro h
  obtain ⟨effect, -, heq⟩ := List.mem_map.1 h
  cases effect <;> cases heq

theorem callsOf_evaluationEvents (n : Nat) :
    Event.callsOf n (w.evaluationEvents env handle versions e activity) =
      if n = handle.serial then
        .startBatch :: (Effect.mutations (handle.handlers.applyBoth env (w.seenRules e) (w.seenItems e)
          activity).effects).map .mutate ++ [.endBatch]
      else [] := by
  unfold evaluationEvents
  by_cases hn : n = handle.serial
  · subst hn
    simp [Event.callsOf_append, Effect.callsOf_events, callsOf_tell]
  · have hne : handle.serial ≠ n := fun h => hn h.symm
    simp [hn, Event.callsOf_context_cons_of_ne hne, Event.callsOf_append, Effect.callsOf_events_of_ne hne,
      callsOf_tell]

theorem callsOf_buildEvents (n : Nat) :
    Event.callsOf n (w.buildEvents env handle versions b activity) =
      if n = handle.serial then
        .startBatch :: (Mutation.setOptions b.arguments :: (Effect.mutations (handle.handlers.applyArguments env
          (.between w.baseline.arguments b.arguments) activity).effects ++
          [.setLastBuildSucceeded b.producedItems])).map .mutate ++ [.endBatch]
      else [] := by
  unfold buildEvents
  by_cases hn : n = handle.serial
  · subst hn
    simp [Event.callsOf_append, Effect.callsOf_events, callsOf_tell]
  · have hne : handle.serial ≠ n := fun h => hn h.symm
    simp [hn, Event.callsOf_context_cons_of_ne hne, Event.callsOf_append, Effect.callsOf_events_of_ne hne,
      callsOf_tell]

/-- An update that is skipped tells contexts nothing. -/
theorem proper_tell (w : Workspace) (u : Update) {answer : Answer} :
    Processed.Proper ⟨u, w.tell u.versions, some (.ok answer)⟩ := by
  refine ⟨rfl, fun serial params => w.created_not_mem_tell serial params, fun n m hm => ?_⟩
  rw [callsOf_tell] at hm
  cases hm

theorem proper_evaluationEvents {u : Update} (hu : u.payload = .evaluation e)
    (hk : handle.handlers = .standard k) (hl : k.Listed) {answer : Answer} :
    Processed.Proper ⟨u, w.evaluationEvents env handle versions e activity, some (.ok answer)⟩ := by
  refine ⟨rfl, fun serial params h => ?_, fun n m hm => ?_⟩
  · simp only [evaluationEvents, List.mem_append, List.mem_cons] at h
    obtain (h | h) | h | h := h
    · cases h
    · exact created_not_mem_effects _ _ _ _ h
    · cases h
    · exact created_not_mem_tell _ _ h
  · obtain ⟨-, -, heffects⟩ := HandlerSet.standard_applyBoth k env activity (w.seenRules e) (w.seenItems e)
    have hkind : u.kind = .evaluation := by rw [Update.kind, hu]
    rw [callsOf_evaluationEvents, hk, heffects] at hm
    split at hm
    · simp only [ContextCall.mutations_append, List.cons_append, ContextCall.mutations_start_cons,
        ContextCall.mutations_map_mutate, ContextCall.mutations_end_cons, ContextCall.mutations_nil,
        List.append_nil] at hm
      have hpart := Kept.evaluationMutations_part hm
      rw [hl.sources.1, hl.additional.1] at hpart
      rw [hkind]
      rcases hpart with hpart | hpart | hpart | hpart <;> rw [hpart] <;> rfl
    · cases hm

theorem proper_buildEvents {u : Update} (hu : u.payload = .build b) (hk : handle.handlers = .standard k)
    (hl : k.Listed) {answer : Answer} :
    Processed.Proper ⟨u, w.buildEvents env handle versions b activity, some (.ok answer)⟩ := by
  refine ⟨rfl, fun serial params h => ?_, fun n m hm => ?_⟩
  · simp only [buildEvents, List.mem_append, List.mem_cons, List.not_mem_nil, or_false] at h
    obtain (h | h | h | h) | h | h := h
    · cases h
    · cases h
    · exact created_not_mem_effects _ _ _ _ h
    · cases h
    · cases h
    · exact created_not_mem_tell _ _ h
  · obtain ⟨-, -, heffects⟩ := HandlerSet.standard_applyArguments k env activity
      (.between w.baseline.arguments b.arguments)
    have hkind : u.kind = .build := by rw [Update.kind, hu]
    rw [callsOf_buildEvents, hk, heffects] at hm
    split at hm
    · simp only [ContextCall.mutations_append, List.cons_append, ContextCall.mutations_start_cons,
        ContextCall.mutations_map_mutate, ContextCall.mutations_end_cons, ContextCall.mutations_nil,
        List.append_nil, List.mem_cons, List.mem_append, List.not_mem_nil, or_false] at hm
      rw [hkind]
      obtain rfl | hm | rfl := hm
      · rfl
      · have hpart := Kept.referenceMutations_part hm
        rw [hl.metadata, hl.analyzers] at hpart
        rcases hpart with hpart | hpart <;> rw [hpart] <;> rfl
      · rfl
    · cases hm

end Workspace

/-! ## Updates on either side -/

/-- An update comes to the same on its side of the workspace as on the whole, and leaves the other side as
it was. -/
structure Sided (setup : Setup) (env : Environment) (P : Session × Workspace → Prop)
    (side : UpdateKind → Session × Workspace → Session × Workspace) (s : Session × Workspace) (u : Update) :
    Prop where
  keeps : P (process setup env s u).1
  own : process setup env (side u.kind s) u =
    (side u.kind (process setup env s u).1, (process setup env s u).2)
  aside : ∀ k, k ≠ u.kind → side k (process setup env s u).1 = side k s
  proper : ∀ p ∈ (process setup env s u).2, p.Proper

variable {setup : Setup} {env : Environment}

theorem Sided.of_process {P : Session × Workspace → Prop}
    {side : UpdateKind → Session × Workspace → Session × Workspace} {s s' : Session × Workspace} {u : Update}
    {p : Processed} (hwhole : process setup env s u = (s', [p]))
    (hside : process setup env (side u.kind s) u = (side u.kind s', [p])) (hkeeps : P s')
    (haside : ∀ k, k ≠ u.kind → side k s' = side k s) (hp : p.Proper) : Sided setup env P side s u := by
  constructor
  · rw [hwhole]
    exact hkeeps
  · rw [hwhole]
    exact hside
  · rw [hwhole]
    exact haside
  · rw [hwhole]
    intro q hq
    rw [List.mem_singleton.1 hq]
    exact hp

/-- The sides of a workspace, with its session. -/
def sideOf (k : UpdateKind) (s : Session × Workspace) : Session × Workspace := (s.1, s.2.side k)

theorem Running.sided {s : Session × Workspace} (h : Running s) (hg : env.gateOpen = true)
    (hj : env.rejected = none) (u : Update) : Sided setup env Running sideOf s u := by
  obtain ⟨session, w⟩ := s
  obtain ⟨hopened, hactivity, handle, k, hhandle, hk, hlisted⟩ := h
  dsimp only at hopened hactivity hhandle
  have haside {v : Workspace} (hv : ∀ k, k ≠ u.kind → v.side k = w.side k) :
      ∀ k, k ≠ u.kind → sideOf k (session, v) = sideOf k (session, w) :=
    fun k hne => congrArg (session, ·) (hv k hne)
  cases hu : u.payload with
  | evaluation e =>
    have hkind : u.kind = .evaluation := by rw [Update.kind, hu]
    have hcontext := Workspace.context_side hhandle .evaluation
    -- whether the evaluation is skipped hangs on its own side
    by_cases hknows : w.Knows e (session.active.activityOf w.slice)
    · refine .of_process (process_known hopened hu hhandle hknows) ?_
        ⟨hopened, hactivity, handle, k, hhandle, hk, hlisted⟩ (haside fun _ _ => rfl) (w.proper_tell u)
      rw [hkind]
      exact process_known (hopened.side .evaluation) hu hcontext (Workspace.knows_side.2 hknows)
    · obtain ⟨hstate, hfailure, -⟩ := HandlerSet.standard_applyBoth k env (session.active.activityOf w.slice)
        (w.seenRules e) (w.seenItems e)
      rw [← hk] at hstate hfailure
      refine .of_process (process_evaluation hopened hu hhandle hknows hfailure hg hj) ?_
        ⟨⟨⟨hopened.lock, hopened.unload⟩, hopened.status, hopened.evaluation⟩, rfl, _, _, rfl, hstate,
          hlisted.withItems _⟩ (haside fun k hne => ?_) (Workspace.proper_evaluationEvents hu hk hlisted)
      · rw [hkind]
        have hfailure' := congrArg Round.failure (handle.handlers.applyBoth_side env (w.seenRules e)
          (w.seenItems e) (session.active.activityOf w.slice))
        have hside : process setup env (session, w.side .evaluation) u = _ :=
          process_evaluation (hopened.side .evaluation) hu hcontext
            (fun h => hknows (Workspace.knows_side.1 h)) (hfailure'.trans hfailure) hg hj
        rw [Workspace.evaluated_side, Workspace.evaluationEvents_side] at hside
        exact hside
      · cases k with
        | evaluation => exact absurd hkind.symm hne
        | build => exact Workspace.evaluated_aside hhandle hactivity
  | build b =>
    have hkind : u.kind = .build := by rw [Update.kind, hu]
    have hcontext := Workspace.context_side hhandle .build
    by_cases hknows : w.KnowsBuild b (session.active.activityOf w.slice)
    · refine .of_process (process_knownBuild hopened hu hknows) ?_
        ⟨⟨⟨hopened.lock, hopened.unload⟩, hopened.status, hopened.evaluation⟩, hactivity, handle, k, hhandle, hk,
          hlisted⟩ (haside fun k hne => ?_) (w.proper_tell u)
      · rw [hkind]
        exact process_knownBuild (hopened.side .build) hu (Workspace.knowsBuild_side.2 hknows)
      · cases k with
        | evaluation => rfl
        | build => exact absurd hkind.symm hne
    · obtain ⟨hstate, hfailure, -⟩ := HandlerSet.standard_applyArguments k env
        (session.active.activityOf w.slice) (.between w.baseline.arguments b.arguments)
      rw [← hk] at hstate hfailure
      refine .of_process (process_build hopened hu hhandle hknows hfailure hg hj) ?_
        ⟨⟨⟨hopened.lock, hopened.unload⟩, hopened.status, hopened.evaluation⟩, rfl, _, _, rfl, hstate,
          hlisted.withArguments _⟩ (haside fun k hne => ?_) (Workspace.proper_buildEvents hu hk hlisted)
      · rw [hkind]
        have hside : process setup env (session, w.side .build) u = _ :=
          process_build (hopened.side .build) hu hcontext (fun h => hknows (Workspace.knowsBuild_side.1 h))
            hfailure hg hj
        rw [Workspace.built_side, Workspace.buildEvents_side] at hside
        exact hside
      · cases k with
        | evaluation => exact Workspace.built_aside hhandle hactivity
        | build => exact absurd hkind.symm hne

theorem Workspace.Broken.sided {s : Session × Workspace} (h : s.2.Broken) (u : Update) :
    Sided setup env (fun s => s.2.Broken) (fun _ s => s) s u :=
  .of_process (process_broken h u) (process_broken h u) h (fun _ _ => rfl)
    ⟨rfl, fun _ _ h => (by cases h), fun _ _ h => (by cases h)⟩

section Orders

variable {P : Session × Workspace → Prop} {side : UpdateKind → Session × Workspace → Session × Workspace}
  {s : Session × Workspace}

theorem runAll_proper (hP : ∀ {s}, P s → ∀ u, Sided setup env P side s u) (hs : P s) (l : List Update) :
    ∀ p ∈ (runAll (process setup env) s l).2, p.Proper := by
  induction l generalizing s with
  | nil => exact fun p hp => absurd hp List.not_mem_nil
  | cons u rest ih =>
    intro p hp
    rcases List.mem_append.1 hp with hp | hp
    · exact (hP hs u).proper p hp
    · exact ih (hP hs u).keeps p hp

/-- What all updates come to on one side is what those of its kind come to there. -/
theorem runAll_side (hP : ∀ {s}, P s → ∀ u, Sided setup env P side s u) (hs : P s) (k : UpdateKind)
    (l : List Update) :
    side k (runAll (process setup env) s l).1 =
        (runAll (process setup env) (side k s) (l.filter (·.kind = k))).1 ∧
      (runAll (process setup env) s l).2.filter (·.update.kind = k) =
        (runAll (process setup env) (side k s) (l.filter (·.kind = k))).2 := by
  induction l generalizing s with
  | nil => exact ⟨rfl, rfl⟩
  | cons u rest ih =>
    have hstep := hP hs u
    obtain ⟨hstate, hdone⟩ := ih hstep.keeps
    have hnames : (process setup env s u).2 = [⟨u, _, _⟩] := rfl
    rw [runAll_cons, List.filter_append]
    by_cases hk : u.kind = k
    · -- the update is one of the side, where it does the same
      subst hk
      rw [List.filter_cons_of_pos (by simp), runAll_cons, hstep.own]
      refine ⟨hstate, ?_⟩
      rw [hdone, hnames]
      simp
    · -- the update leaves the side alone
      rw [List.filter_cons_of_neg (by simpa using hk), ← hstep.aside k fun h => hk h.symm]
      refine ⟨hstate, ?_⟩
      rw [hdone, hnames]
      simp [hk]

/-- Updates that come in another order, but in the same order on each side, come to the same. -/
theorem runAll_confluent (hP : ∀ {s}, P s → ∀ u, Sided setup env P side s u)
    (hwhole : ∀ {s s'}, (∀ k, side k s = side k s') → s = s') (hs : P s) {l m : List Update}
    (h : ∀ k : UpdateKind, l.filter (·.kind = k) = m.filter (·.kind = k)) :
    (runAll (process setup env) s l).1 = (runAll (process setup env) s m).1 ∧
      ∀ k : UpdateKind, (runAll (process setup env) s l).2.filter (·.update.kind = k) =
        (runAll (process setup env) s m).2.filter (·.update.kind = k) := by
  constructor
  · refine hwhole fun k => ?_
    rw [(runAll_side hP hs k l).1, (runAll_side hP hs k m).1, h k]
  · intro k
    rw [(runAll_side hP hs k l).2, (runAll_side hP hs k m).2, h k]

end Orders

/-! ## What a context holds, part by part -/

namespace Content

/-- The content with one part only. -/
def only (part : Part) (c : Content) : Content :=
  match part with
  | .paths list => ({} : Content).setPaths list (c.paths list)
  | .options => { options := c.options }
  | .displayName => { displayName := c.displayName }
  | .outputPath => { outputPath := c.outputPath }
  | .outcome => { lastBuildSucceeded := c.lastBuildSucceeded }

theorem only_apply (c : Content) (m : Mutation) : (c.apply m).only m.part = (c.only m.part).apply m := by
  cases m with
  | add list path | remove list path => cases list <;> rfl
  | _ => rfl

theorem only_apply_of_ne {part : Part} (c : Content) {m : Mutation} (h : m.part ≠ part) :
    (c.apply m).only part = c.only part := by
  cases part with
  | paths list =>
    have hpaths : (c.apply m).paths list = c.paths list := paths_replay (l := [m]) (by simpa using h) c
    unfold only
    dsimp only
    rw [hpaths]
  | outcome =>
    have houtcome : (c.apply m).lastBuildSucceeded = c.lastBuildSucceeded :=
      lastBuildSucceeded_replay (l := [m]) (by simpa using h) c
    unfold only
    dsimp only
    rw [houtcome]
  | _ =>
    cases m with
    | add list path | remove list path => cases list <;> rfl
    | _ => first | rfl | exact absurd rfl h

/-- A part of the content hangs on the mutations of that part. -/
theorem only_replay (part : Part) (c : Content) (l : List Mutation) :
    (c.replay l).only part = (c.only part).replay (l.filter (·.part = part)) := by
  induction l generalizing c with
  | nil => rfl
  | cons m rest ih =>
    rw [replay_cons, ih]
    by_cases h : m.part = part
    · rw [List.filter_cons_of_pos (by simpa using h), replay_cons, ← h, only_apply]
    · rw [List.filter_cons_of_neg (by simpa using h), only_apply_of_ne c h]

theorem eq_of_only {c c' : Content} (h : ∀ part, c.only part = c'.only part) : c = c' := by
  have hsources := h (.paths .sourceFiles)
  have hmetadata := h (.paths .metadataReferences)
  have hanalyzers := h (.paths .analyzerReferences)
  have hadditional := h (.paths .additionalFiles)
  have hoptions := h .options
  have hname := h .displayName
  have hpath := h .outputPath
  have houtcome := h .outcome
  simp only [only, setPaths, paths, mk.injEq, true_and, and_true] at *
  cases c
  cases c'
  simp_all

/-- Mutations that are the same part by part come to the same. -/
theorem replay_congr {l m : List Mutation} (h : ∀ part : Part, l.filter (·.part = part) = m.filter (·.part = part))
    (c : Content) : c.replay l = c.replay m := by
  apply eq_of_only
  intro part
  rw [only_replay, only_replay, h]

end Content

/-! ## What came of all updates -/

/-- All that happened. -/
def eventsOf (done : List Processed) : List Event := done.flatMap (·.events)

/-- What a context heard of the updates of one kind, update by update: the batches that they opened. -/
def batchesOf (k : UpdateKind) (n : Nat) (done : List Processed) : List (List ContextCall) :=
  ((done.filter (·.update.kind = k)).map fun p => Event.callsOf n p.events).filter (· ≠ [])

/-- The updates told to be processed. -/
def notifications (done : List Processed) : List (String × Versions) :=
  (eventsOf done).filterMap fun e =>
    match e with
    | .processed owner versions => some (owner, versions)
    | _ => none

theorem ContextSummary.ofCalls_congr (params : CreationParams) {l m : List ContextCall} (hp : l.Perm m)
    (hparts : ∀ part : Part, (ContextCall.mutations l).filter (·.part = part) =
      (ContextCall.mutations m).filter (·.part = part)) : ofCalls params l = ofCalls params m := by
  unfold ofCalls
  rw [Content.replay_congr hparts, hp.count_eq, hp.contains_eq]

/-- Which contexts there are hangs on the events that create some. -/
theorem ContextSummary.ofEvents?_congr {events rest rest' : List Event} {id : ContextId}
    (hr : ∀ serial params, .created serial params ∉ rest)
    (hr' : ∀ serial params, .created serial params ∉ rest')
    (h : ∀ n params, ofCalls params (Event.callsOf n (events ++ rest)) =
      ofCalls params (Event.callsOf n (events ++ rest'))) :
    ofEvents? (events ++ rest) id = ofEvents? (events ++ rest') id := by
  have hnone {l : List Event} (hl : ∀ serial params, .created serial params ∉ l)
      (f : Event → Option (Nat × CreationParams))
      (hf : ∀ e, f e ≠ none → ∃ serial params, e = .created serial params) : l.filterMap f = [] := by
    refine List.filterMap_eq_nil_iff.2 fun e he => ?_
    by_contra hne
    obtain ⟨serial, params, rfl⟩ := hf e hne
    exact hl serial params he
  unfold ofEvents?
  rw [List.filterMap_append, List.filterMap_append, hnone hr _ ?_, hnone hr' _ ?_]
  · exact Option.map_congr fun c _ => h c.1 c.2
  all_goals
    intro e he
    cases e with
    | created serial params => exact ⟨serial, params, rfl⟩
    | _ => exact absurd rfl he

section Mixed

variable {done done' : List Processed}

theorem created_not_mem_eventsOf (hp : ∀ p ∈ done, p.Proper) (serial : Nat) (params : CreationParams) :
    .created serial params ∉ eventsOf done := by
  intro h
  obtain ⟨p, hmem, h⟩ := List.mem_flatMap.1 h
  exact (hp p hmem).creates serial params h

/-- What contexts were told of a part was told by the updates of its kind. -/
theorem mutations_of_kind (hp : ∀ p ∈ done, p.Proper) (n : Nat) (part : Part) :
    (ContextCall.mutations (Event.callsOf n (eventsOf done))).filter (·.part = part) =
      (ContextCall.mutations (Event.callsOf n (eventsOf (done.filter (·.update.kind = part.kind))))).filter
        (·.part = part) := by
  induction done with
  | nil => rfl
  | cons p rest ih =>
    have hrest := ih fun q hq => hp q (List.mem_cons_of_mem _ hq)
    have hcons (q : Processed) (l : List Processed) : eventsOf (q :: l) = q.events ++ eventsOf l :=
      List.flatMap_cons
    by_cases hk : p.update.kind = part.kind
    · rw [List.filter_cons_of_pos (by simpa using hk), hcons, hcons, Event.callsOf_append,
        Event.callsOf_append, ContextCall.mutations_append, ContextCall.mutations_append, List.filter_append,
        List.filter_append, hrest]
    · have hnone : (ContextCall.mutations (Event.callsOf n p.events)).filter (·.part = part) = [] := by
        refine List.filter_eq_nil_iff.2 fun m hm heq => hk ?_
        rw [← (hp p List.mem_cons_self).part n m hm, of_decide_eq_true heq]
      rw [List.filter_cons_of_neg (by simpa using hk), hcons, Event.callsOf_append,
        ContextCall.mutations_append, List.filter_append, hnone, List.nil_append, hrest]

/-- In whichever order the updates of the two kinds come, contexts come to the same. -/
theorem summaries_congr (first : List Processed) (hp : ∀ p ∈ done, p.Proper) (hp' : ∀ p ∈ done', p.Proper)
    (h : ∀ k : UpdateKind, done.filter (·.update.kind = k) = done'.filter (·.update.kind = k))
    (id : ContextId) :
    ContextSummary.ofEvents? (eventsOf (first ++ done)) id =
      ContextSummary.ofEvents? (eventsOf (first ++ done')) id := by
  have happend (l : List Processed) : eventsOf (first ++ l) = eventsOf first ++ eventsOf l :=
    List.flatMap_append
  have hevents : (eventsOf done).Perm (eventsOf done') := (perm_of_kinds h).flatMap_right _
  rw [happend, happend]
  refine ContextSummary.ofEvents?_congr (created_not_mem_eventsOf hp) (created_not_mem_eventsOf hp')
    fun n params => ContextSummary.ofCalls_congr params ?_ fun part => ?_
  · exact (hevents.append_left _).filterMap _
  · have hleft := mutations_of_kind hp n part
    have hright := mutations_of_kind hp' n part
    rw [h part.kind] at hleft
    rw [Event.callsOf_append, ContextCall.mutations_append, List.filter_append, hleft, ← hright,
      ← List.filter_append, ← ContextCall.mutations_append, ← Event.callsOf_append]

end Mixed

/-! ## Confluence -/

theorem Update.exists_evaluation {u : Update} (h : u.kind = .evaluation) : ∃ e, u.payload = .evaluation e := by
  unfold kind at h
  cases hu : u.payload with
  | evaluation e => exact ⟨e, rfl⟩
  | build b =>
    rw [hu] at h
    cases h

/-- After the first evaluation the two streams do not meet any more. -/
theorem runAll_after_first (hr : setup.registry = .standard) (hg : env.gateOpen = true)
    (hj : env.rejected = none) (session : Session) (slice : Slice) {first : Update}
    (hfirst : first.kind = .evaluation) {l m : List Update}
    (h : ∀ k : UpdateKind, l.filter (·.kind = k) = m.filter (·.kind = k)) :
    let s := (process setup env (session, { slice }) first).1
    let done := (runAll (process setup env) s l).2
    let done' := (runAll (process setup env) s m).2
    (runAll (process setup env) s l).1 = (runAll (process setup env) s m).1 ∧
      (∀ k : UpdateKind, done.filter (·.update.kind = k) = done'.filter (·.update.kind = k)) ∧
      (∀ p ∈ done, p.Proper) ∧ ∀ p ∈ done', p.Proper := by
  intro s done done'
  obtain ⟨e, hu⟩ := Update.exists_evaluation hfirst
  obtain ⟨hbroken | hrunning, -⟩ := process_first hr hg hj session slice hu
  · -- nothing moves a workspace that has failed, so it has but one side
    have hsided {s : Session × Workspace} (hs : s.2.Broken) (u : Update) :
        Sided setup env (fun s => s.2.Broken) (fun _ s => s) s u := hs.sided u
    obtain ⟨hstate, hdone⟩ := runAll_confluent hsided (fun h => h .evaluation) hbroken h
    exact ⟨hstate, hdone, runAll_proper hsided hbroken l, runAll_proper hsided hbroken m⟩
  · have hsided {s : Session × Workspace} (hs : Running s) (u : Update) :
        Sided setup env Running sideOf s u := hs.sided hg hj u
    have hwhole {s s' : Session × Workspace} (h : ∀ k, sideOf k s = sideOf k s') : s = s' :=
      Prod.ext (congrArg (fun s => s.1) (h .evaluation))
        (Workspace.eq_of_sides fun k => congrArg (fun s => s.2) (h k))
    obtain ⟨hstate, hdone⟩ := runAll_confluent hsided hwhole hrunning h
    exact ⟨hstate, hdone, runAll_proper hsided hrunning l, runAll_proper hsided hrunning m⟩

/-- Evaluations and builds of a slice may be mixed in any way: with each stream in its own order, what comes
of all updates is the same. Each stream opens the same batches, the same updates are told to be processed,
the workspace and its baseline end the same, and so does every context with all it holds. Every call ends. -/
theorem feed_confluent (hr : setup.registry = .standard) (hg : env.gateOpen = true)
    (hj : env.rejected = none) (session : Session) (slice : Slice) {l m : List Update}
    (h : ∀ k : UpdateKind, l.filter (·.kind = k) = m.filter (·.kind = k)) :
    let f := feed setup env session slice l
    let g := feed setup env session slice m
    (∀ k n, batchesOf k n f.2 = batchesOf k n g.2) ∧
      (notifications f.2).Perm (notifications g.2) ∧
      f.1.2 = g.1.2 ∧
      (∀ id, ContextSummary.ofEvents? (eventsOf f.2) id = ContextSummary.ofEvents? (eventsOf g.2) id) ∧
      ∀ p ∈ f.2, p.result.isSome := by
  intro f g
  rcases feed_cases setup env session slice l with ⟨hnone, hf, hfdone⟩ | ⟨first, rest, hfirst, he, hb, hf, hfdone⟩
  · rcases feed_cases setup env session slice m with ⟨-, hf', hgdone⟩ | ⟨first, rest, hfirst, he, -⟩
    · -- Without an evaluation all builds are held back for good.
      have hsame : f.2 = g.2 := hfdone.trans hgdone.symm
      refine ⟨fun k n => by rw [hsame], .of_eq (by rw [hsame]), hf.trans hf'.symm, fun id => by rw [hsame],
        fun p hp => ?_⟩
      rw [hfdone] at hp
      cases hp
    · rw [← h, hnone] at he
      cases he
  · rcases feed_cases setup env session slice m with
      ⟨hnone, -⟩ | ⟨first', rest', -, he', hb', hf', hgdone⟩
    · rw [h, hnone] at he
      cases he
    · obtain ⟨rfl, hevaluations⟩ := List.cons.inj (he.symm.trans ((h .evaluation).trans he'))
      have hrest (k : UpdateKind) : rest.filter (·.kind = k) = rest'.filter (·.kind = k) := by
        cases k with
        | evaluation => exact hevaluations
        | build => exact hb.symm.trans ((h .build).trans hb')
      obtain ⟨hstate, hkinds, hproper, hproper'⟩ := runAll_after_first hr hg hj session slice hfirst hrest
      have hdone (k : UpdateKind) : f.2.filter (·.update.kind = k) = g.2.filter (·.update.kind = k) := by
        rw [hfdone, hgdone, List.filter_append, List.filter_append, hkinds]
      refine ⟨fun k n => ?_, ?_, hf.trans (hstate.trans hf'.symm), fun id => ?_, fun p hp => ?_⟩
      · rw [batchesOf, hdone, batchesOf]
      · exact ((perm_of_kinds hdone).flatMap_right _).filterMap _
      · rw [hfdone, hgdone]
        exact summaries_congr _ hproper hproper' hkinds id
      · rw [hfdone] at hp
        obtain ⟨e, hu⟩ := Update.exists_evaluation hfirst
        rcases List.mem_append.1 hp with hp | hp
        · exact (process_first hr hg hj session slice hu).2 p hp
        · exact (hproper p hp).ended

set_option maxRecDepth 100000 in
/-- A build that is held back, with another one between two evaluations. -/
theorem feed_confluent_held :
    let first := Sample.evaluation ["a.cs"]
    let second := Sample.evaluation ["b.cs"]
    let early := Sample.build ["/r:a.dll"]
    let late := Sample.build ["/r:b.dll"]
    let f := feed {} {} {} .empty [early, first, late, second]
    let g := feed {} {} {} .empty [first, second, early, late]
    (∀ k n, batchesOf k n f.2 = batchesOf k n g.2) ∧ (notifications f.2).Perm (notifications g.2) ∧
      f.1.2 = g.1.2 ∧ (∀ k, (batchesOf k 0 g.2).length = 2) ∧ (notifications g.2).length = 4 := by
  intro first second early late f g
  have hkinds (k : UpdateKind) : [early, first, late, second].filter (·.kind = k) =
      [first, second, early, late].filter (·.kind = k) := by
    cases k <;> rfl
  obtain ⟨hbatches, hnotifications, hstate, -⟩ := @feed_confluent {} {} rfl rfl rfl {} .empty _ _ hkinds
  refine ⟨hbatches, hnotifications, hstate, fun k => ?_, by decide +kernel⟩
  cases k <;> decide +kernel

end SliceSync
