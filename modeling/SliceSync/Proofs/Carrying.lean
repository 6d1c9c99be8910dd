import SliceSync.Proofs.Watches
/-!
# What handlers are told of the slice

Every call of a handler carries what the slice drives at that time. The handlers of source items are called with every
evaluation that is applied, those of argument lists with every build. In a run in which nothing fails their last calls
carry the activity of the last update of their kind that was committed (`World.activity_carried`). What is held of the
activity, though, is that of the last update of either kind, so that an update may be passed over after the slice has
changed: if one of the other kind was committed in between (`World.not_activity_carried`).
-/

namespace SliceSync

/-! ## The calls of a kind -/

/-- The kind of updates with which every handler that takes such an input is called. Handlers of rules are called for
single rules. -/
def HandlerInput.kind? : HandlerInput → Option UpdateKind
  | .items _ => some .evaluation
  | .arguments _ => some .build
  | .evaluation .. => none

/-- The activity that a call carries, if it is one of the handler in a place among those of a kind. -/
def HandlerCall.activity? (kind : UpdateKind) (k : Nat) (call : HandlerCall) : Option Activity :=
  if call.input.kind? = some kind ∧ call.position = k then some call.activity else none

/-- The activity of which the handler in a place among those of a kind is told in an event. -/
def Event.activity? (kind : UpdateKind) (k : Nat) : Event → Option Activity
  | .handled _ call => call.activity? kind k
  | _ => none

theorem Event.filterMap_activity (kind : UpdateKind) (k : Nat) (l : List Event) :
    l.filterMap (activity? kind k) = (handlings l).filterMap (HandlerCall.activity? kind k) := by
  rw [handlings, List.filterMap_filterMap]
  congr 1
  funext e
  cases e <;> rfl

/-- The handlers that are called with every update of a kind. -/
def HandlerSet.count (s : HandlerSet) : UpdateKind → Nat
  | .evaluation => s.items.length
  | .build => s.arguments.length

/-- In a round in which nothing fails each handler is called once, in its place. -/
theorem activities_of_round {η : Type} {call : Nat → η → Round η} {kind : UpdateKind} {activity : Activity}
    (hcall : ∀ n h, ∃ c : HandlerCall, Effect.calls (call n h).effects = [c] ∧ c.input.kind? = some kind ∧
      c.position = n ∧ c.activity = activity)
    {l : List η} {position : Nat} (hf : (callUntilFailure call position l).failure = none) (kind' : UpdateKind)
    (k : Nat) :
    (Effect.calls (callUntilFailure call position l).effects).filterMap (HandlerCall.activity? kind' k) =
      if kind = kind' ∧ position ≤ k ∧ k < position + l.length then [activity] else [] := by
  induction l generalizing position with
  | nil => exact (if_neg fun h => absurd h.2 (by simp)).symm
  | cons h rest ih =>
    obtain ⟨c, hcalls, hkind, hposition, hactivity⟩ := hcall position h
    cases hc : (call position h).failure with
    | some error =>
      rw [callUntilFailure_cons_of_failure hc] at hf
      cases hf
    | none =>
      rw [callUntilFailure_cons_of_none hc] at hf ⊢
      rw [Effect.calls_append, List.filterMap_append, hcalls, ih hf, List.length_cons]
      have hfirst : [c].filterMap (HandlerCall.activity? kind' k) =
          if kind = kind' ∧ position = k then [activity] else [] := by
        simp only [List.filterMap_cons, HandlerCall.activity?, hkind, Option.some.injEq, hposition, hactivity]
        split <;> simp_all
      rw [hfirst]
      by_cases hsame : kind = kind'
      · simp only [hsame, true_and]
        rcases Nat.lt_trichotomy k position with hlt | heq | hgt
        · rw [if_neg (by omega), if_neg (by omega), if_neg (by omega), List.append_nil]
        · rw [if_pos heq.symm, if_neg (by omega), if_pos (by omega), List.append_nil]
        · rw [if_neg (by omega), List.nil_append]
          exact if_congr (by omega) rfl rfl
      · simp [hsame]

namespace HandlerSet

variable {s : HandlerSet} {env : Environment} {rules : NameMap Change} {items : Listing String Change}
  {activity : Activity} {d : ArgumentDifference}

/-- Handlers of rules are called for single rules. -/
theorem input_of_callEvaluation {n : Nat} {h : String × EvaluationHandler} {call : HandlerCall}
    (hc : .called call ∈ (callEvaluation env rules activity n h).effects) : call.input.kind? = none := by
  unfold callEvaluation at hc
  dsimp only at hc
  split at hc
  · cases hc
  · split at hc
    · cases hc
    · split at hc <;> simp [callExternal] at hc <;> rw [hc] <;> rfl

theorem activities_of_rules (kind : UpdateKind) (k : Nat) :
    (Effect.calls (s.applyEvaluation env rules activity).effects).filterMap (HandlerCall.activity? kind k) = [] := by
  refine List.filterMap_eq_nil_iff.2 fun call hc => ?_
  obtain ⟨e, he, heq⟩ := List.mem_filterMap.1 hc
  cases e with
  | mutate m => cases heq
  | called other =>
    cases heq
    obtain ⟨n, h, -, -, he⟩ := mem_effects he
    rw [HandlerCall.activity?, input_of_callEvaluation he]
    exact if_neg fun h => absurd h.1 nofun

/-- The round of an evaluation in which nothing fails, as the handlers of a kind are told of it. -/
theorem activities_of_both (hf : (s.applyBoth env rules items activity).failure = none) (kind : UpdateKind) (k : Nat) :
    (Effect.calls (s.applyBoth env rules items activity).effects).filterMap (HandlerCall.activity? kind k) =
      if .evaluation = kind ∧ k < s.count kind then [activity] else [] := by
  cases hfirst : (s.applyEvaluation env rules activity).failure with
  | some error =>
    rw [applyBoth_of_failure hfirst] at hf
    cases hf
  | none =>
    rw [applyBoth_of_none hfirst] at hf ⊢
    have hcall (n : Nat) (h : ItemHandler) : ∃ c : HandlerCall,
        Effect.calls (callItems env items activity n h).effects = [c] ∧
          c.input.kind? = some .evaluation ∧ c.position = n ∧ c.activity = activity :=
      ⟨_, calls_callItems n h, rfl, rfl, rfl⟩
    rw [Effect.calls_append, List.filterMap_append, activities_of_rules, List.nil_append]
    refine (activities_of_round hcall hf kind k).trans (if_congr ?_ rfl rfl)
    cases kind <;> simp [count]

theorem activities_of_arguments (hf : (s.applyArguments env d activity).failure = none) (kind : UpdateKind) (k : Nat) :
    (Effect.calls (s.applyArguments env d activity).effects).filterMap (HandlerCall.activity? kind k) =
      if .build = kind ∧ k < s.count kind then [activity] else [] := by
  have hcall (n : Nat) (h : ArgumentHandler) : ∃ c : HandlerCall,
      Effect.calls (callArguments env d activity n h).effects = [c] ∧
        c.input.kind? = some .build ∧ c.position = n ∧ c.activity = activity :=
    ⟨_, calls_callArguments n h, rfl, rfl, rfl⟩
  refine (activities_of_round hcall hf kind k).trans (if_congr ?_ rfl rfl)
  cases kind <;> simp [count]

/-- A round of calls keeps the handlers. -/
theorem count_applyBoth (kind : UpdateKind) :
    (s.applyBoth env rules items activity).state.count kind = s.count kind := by
  have hlength : (s.applyItems env items activity).state.items.length = s.items.length := by
    have hnames : (s.applyItems env items activity).state.items.map (·.name) = s.items.map (·.name) :=
      map_state fun n h => (callItems_name n h).1
    simpa using congrArg List.length hnames
  cases hf : (s.applyEvaluation env rules activity).failure with
  | some error => rw [applyBoth_of_failure hf]
  | none =>
    rw [applyBoth_of_none hf]
    cases kind with
    | evaluation => exact hlength
    | build => rfl

theorem count_applyArguments (kind : UpdateKind) : (s.applyArguments env d activity).state.count kind = s.count kind := by
  cases kind with
  | evaluation => rfl
  | build =>
    have hnames : (s.applyArguments env d activity).state.arguments.map (·.name) = s.arguments.map (·.name) :=
      map_state fun n h => (callArguments_name n h).1
    show (s.applyArguments env d activity).state.arguments.length = s.arguments.length
    simpa using congrArg List.length hnames

end HandlerSet

namespace Workspace

variable {w : Workspace} {u : Update} {o : Occasion} {handlers : HandlerSet}

theorem count_roundOf (x : Payload) (kind : UpdateKind) :
    (w.roundOf x o handlers).state.count kind = handlers.count kind := by
  cases x with
  | evaluation e => exact HandlerSet.count_applyBoth kind
  | build b => exact HandlerSet.count_applyArguments kind

/-- Where nothing fails, the handlers of the kind of an update are called once each, with the activity of the time. -/
theorem activities_of_roundOf (hf : (w.roundOf u.payload o handlers).failure = none) (kind : UpdateKind) (k : Nat) :
    (Effect.calls (w.roundOf u.payload o handlers).effects).filterMap (HandlerCall.activity? kind k) =
      if u.kind = kind ∧ k < handlers.count kind then [w.activityOn o] else [] := by
  cases hu : u.payload with
  | evaluation e =>
    rw [hu] at hf
    rw [show u.kind = .evaluation by simp [Update.kind, hu]]
    exact HandlerSet.activities_of_both hf kind k
  | build b =>
    rw [hu] at hf
    rw [show u.kind = .build by simp [Update.kind, hu]]
    exact HandlerSet.activities_of_arguments hf kind k

end Workspace

/-! ## What is told and what is committed -/

/-- The activity under which an update of a kind was taken up that is committed. -/
def Commit.activityOf? (kind : UpdateKind) (commit : Commit) : Option Activity :=
  if commit.kind? = some kind then commit.activity? else none

theorem Update.commit_kind (u : Update) (activity : Activity) : (u.commit activity).kind? = some u.kind := by
  cases hu : u.payload <;> simp [commit, kind, hu, Commit.ofEvaluation, Commit.kind?]

theorem Update.commit_activity (u : Update) (activity : Activity) : (u.commit activity).activity? = some activity := by
  cases hu : u.payload <;> simp [commit, hu, Commit.ofEvaluation, Commit.activity?]

/-- The activity of the handler in a place among those of a kind, as it is told and as it is committed. -/
def Watch.activities (setup : Setup) (kind : UpdateKind) (k : Nat) : Watch (World.freely setup) Activity where
  sees := Event.activity? kind k
  shows := Commit.activityOf? kind
  ready handle := k < handle.handlers.count kind
  unseen {e} hh _ := by
    cases e with
    | handled n call => exact absurd rfl (hh n call)
    | _ => rfl
  back h := by rwa [Workspace.count_roundOf] at h
  opens {env session w u p batch handle} _ ho hf hk := by
    rw [Event.filterMap_activity, ho.handlings, Workspace.activities_of_roundOf (ho.failure ▸ hf), ho.commit,
      Commit.activityOf?, u.commit_kind, u.commit_activity]
    by_cases hkind : u.kind = kind
    · subst hkind
      rw [if_pos ⟨rfl, hk⟩, if_pos rfl]
      rfl
    · rw [if_neg fun h => hkind h.1, if_neg fun h => hkind (Option.some.inj h)]
      rfl
  writes _ := ⟨fun _ _ => rfl, fun _ => rfl⟩

/-! ## When an evaluation has been committed -/

/-- Before a batch is closed the first evaluation does not come. -/
theorem Workspace.Receives.evaluation {setup : Setup} {env : Environment} {session : Session} {w : Workspace} {u : Update}
    {p : Passage} (h : w.Receives setup env session u p) (hi : p.workspace.evaluation = .integrated) :
    w.evaluation = .integrated := by
  have enrolled : (w.enroll setup u).1.evaluation = w.evaluation := enroll_evaluation u
  cases h with
  | uncreated => cases hi
  | refused => exact hi
  | creates | skips | applies | skipsBuild | misses | appliesBuild => exact enrolled.symm.trans hi

theorem Request.passage_evaluation {setup : Setup} {env : Environment} {session : Session} {w : Workspace}
    {request : Request} (hi : (request.passage setup env session w).workspace.evaluation = .integrated) :
    w.evaluation = .integrated := by
  have h := request.enters setup env session w
  generalize request.passage setup env session w = p at h hi
  cases h with
  | receives h => exact h.evaluation hi
  | _ => exact hi

/-- The first evaluation has come when one has been committed. -/
theorem Scene.Shift.evaluated {t : Terms} {s s' : Scene} {failed : List SyncError} {commits more : List Commit}
    (hs : Shift t s s' failed more)
    (h : s.workspace.evaluation = .integrated → (lastOf (Commit.activityOf? .evaluation) commits).isSome)
    (hi : s'.workspace.evaluation = .integrated) :
    (lastOf (Commit.activityOf? .evaluation) (commits ++ more)).isSome := by
  have concluded (c : Call) (p : Passage) (me : JobId) :
      (s.after me (c.conclude t.setup p)).workspace.evaluation = p.workspace.evaluation := by
    obtain ⟨lock, hlock⟩ := s.workspace_after_conclude t.setup me c p
    rw [hlock]
  cases hs with
  | waits hw =>
    obtain ⟨lock, unload, hw⟩ := hw
    rw [hw] at hi
    rw [List.append_nil]
    exact h hi
  | enters =>
    rw [concluded] at hi
    rw [List.append_nil]
    have hbefore := Request.passage_evaluation hi
    exact h hbefore
  | @closes env me c session batch =>
    rw [concluded, Workspace.close] at hi
    unfold OpenBatch.commits
    cases hfailed : batch.failure.or env.rejected with
    | some error =>
      rw [hfailed] at hi
      rw [List.append_nil]
      exact h hi
    | none =>
      rw [hfailed] at hi
      rw [lastOf_append, lastOf_singleton]
      cases hcommit : batch.commit with
      | evaluation => rfl
      | build =>
        rw [hcommit] at hi
        exact h hi
      | write =>
        rw [hcommit] at hi
        exact h hi
  | parts =>
    rw [concluded] at hi
    rw [List.append_nil]
    exact h hi

namespace World

variable {setup : Setup} {acts : List Act} {i : Nat} {w : Workspace}

theorem evaluated_run (hw : (run setup acts).workspace? i = some w) (hi : w.evaluation = .integrated) :
    (lastOf (Commit.activityOf? .evaluation) (commits setup acts i)).isSome := by
  obtain ⟨s, hs, rfl, -⟩ := orderly_run setup acts (i := i) (by rwa [view_workspaces])
  refine shifts_run (t := freely setup) (P := fun s _ commits => s.workspace.evaluation = .integrated →
    (lastOf (Commit.activityOf? .evaluation) commits).isSome) (fun hf hi => ?_) (fun _ _ h hst => hst.evaluated h)
    (fun a _ => within_freely setup a) hs hi
  obtain ⟨slice, hslice⟩ := hf.workspace
  rw [hslice] at hi
  cases hi

/-! ## Updates and activity -/

/-- The activity that the last call of the handler in a place among those of a kind has carried, in the calls for the
workspace in a place. -/
def lastActivity (w : World) (i : Nat) (kind : UpdateKind) (k : Nat) : Option Activity :=
  ((w.eventsAt i).filterMap (Event.activity? kind k)).getLast?

/-- What the handlers of the kind of an update have been told of the activity, when the update has ended well after some
acts, taken up under an activity. -/
structure Carried (setup : Setup) (acts : List Act) (i : Nat) (kind : UpdateKind) (activity : Activity) (w : Workspace)
    (handle : ContextHandle) : Prop where
  /-- This is the activity that is held, of whichever kind the last update was that was committed. -/
  noted : w.baseline.activity = some activity ∧ lastOf Commit.activity? (commits setup acts i) = some activity
  /-- The last calls carry the activity of the last update of the kind that was committed. -/
  carried : ∀ k < handle.handlers.count kind,
    (run setup acts).lastActivity i kind k = lastOf (Commit.activityOf? kind) (commits setup acts i)
  called : kind = .evaluation → (lastOf (Commit.activityOf? kind) (commits setup acts i)).isSome
  /-- That is the activity of the update, unless one of the other kind was the last to be committed. -/
  carries : lastOf Commit.kind? (commits setup acts i) = some kind → ∀ k < handle.handlers.count kind,
    (run setup acts).lastActivity i kind k = some activity

/-- What was committed last, if it was an update of a kind, says under which activity the last update of this kind was
taken up. -/
theorem lastOf_activityOf {kind : UpdateKind} {commits : List Commit} (hk : lastOf Commit.kind? commits = some kind) :
    lastOf (Commit.activityOf? kind) commits = lastOf Commit.activity? commits := by
  induction commits using List.reverseRecOn with
  | nil => cases hk
  | append_singleton commits commit ih =>
    rw [lastOf_append, lastOf_singleton] at hk ⊢
    rw [lastOf_append, lastOf_singleton]
    cases commit with
    | write id => exact ih hk
    | evaluation | build =>
      obtain rfl := Option.some.inj hk
      rfl

/-- In a run in which nothing fails at a workspace, whenever an update has ended well the last calls of the handlers of
its kind carry the activity under which the last update of this kind was taken up that was committed. -/
theorem activity_carried (setup : Setup) (acts : List Act) (env : Environment) (me : JobId) (i : Nat) (u : Update)
    (answer : Answer)
    (hunfailing : failures setup (acts ++ [.advance env me]) i = [])
    (hended : ⟨i, .update u, .ok answer⟩ ∈ (run setup acts).endings (.advance env me)) :
    ∃ earlier activity w handle, Taken setup acts me i u earlier activity ∧
      (run setup (acts ++ [.advance env me])).workspace? i = some w ∧ w.context = some handle ∧
      Carried setup (acts ++ [.advance env me]) i u.kind activity w handle := by
  obtain ⟨earlier, activity, w, handle, h⟩ := ended_well hended
  have hheld : w.baseline.activity = some activity := h.recalls.known.noted
  have hnoted : lastOf Commit.activity? (commits setup (acts ++ [.advance env me]) i) = some activity :=
    h.follows.activity.symm.trans hheld
  have hcarried (k : Nat) (hk : k < handle.handlers.count u.kind) :
      (run setup (acts ++ [.advance env me])).lastActivity i u.kind k =
        lastOf (Commit.activityOf? u.kind) (commits setup (acts ++ [.advance env me]) i) :=
    EndedWell.told (t := freely setup) h (.activities setup u.kind k) (fun a _ => within_freely setup a) hunfailing hk
  refine ⟨earlier, activity, w, handle, h.taken, h.workspace, h.context, ⟨hheld, hnoted⟩, hcarried, fun hkind => ?_,
    fun hkind k hk => ?_⟩
  · obtain ⟨s, -, rfl, ho⟩ := orderly_run setup (acts ++ [.advance env me]) (i := i)
      (by rw [view_workspaces]; exact h.workspace)
    rw [hkind]
    exact evaluated_run h.workspace (ho.regular.held (by rw [hheld]; rfl))
  · rw [hcarried k hk, lastOf_activityOf hkind, hnoted]

end World

/-- An evaluation, then a build once the slice has become the active configuration, then the evaluation again. -/
def Sample.swallowed : List Act :=
  [.addWorkspace .empty, .call 0 (.update (Sample.evaluation ["a.cs"])), .advance {} 0, .advance {} 0,
    .setActiveConfiguration .empty, .call 0 (.update (Sample.build ["/r:a.dll"])), .advance {} 1, .advance {} 1,
    .advance {} 1, .call 0 (.update (Sample.evaluation ["a.cs"])), .advance {} 2]

namespace World

set_option maxRecDepth 100000 in
/-- The evaluation that comes again is passed over, since the build has brought the activity that is held. -/
theorem activity_carried_swallowed :
    let acts := Sample.swallowed.dropLast
    ∃ earlier activity w handle, Taken {} acts 2 0 (Sample.evaluation ["a.cs"]) earlier activity ∧
      (run {} (acts ++ [.advance {} 2])).workspace? 0 = some w ∧ w.context = some handle ∧
      Carried {} (acts ++ [.advance {} 2]) 0 .evaluation activity w handle := by
  intro acts
  have hended : ((run {} acts).endings (.advance {} 2)).map (fun e => (e.place, e.request, e.result)) =
      [(0, .update (Sample.evaluation ["a.cs"]), .ok .done)] := by decide +kernel
  exact activity_carried {} acts {} 2 0 _ .done (by decide +kernel) (Ending.mem_of_map_eq hended)

set_option maxRecDepth 100000 in
/-- The slice drives build and editor when the evaluation comes again and ends well, and the handlers of source items
have been told that it drives neither. -/
theorem not_activity_carried :
    (history {} Sample.swallowed).map (fun e => (e.place, e.request, e.result)) =
        [(0, .update (Sample.evaluation ["a.cs"]), .ok .done), (0, .update (Sample.build ["/r:a.dll"]), .ok .done),
          (0, .update (Sample.evaluation ["a.cs"]), .ok .done)] ∧
      (run {} Sample.swallowed.dropLast).activityAt 0 = some ⟨true, true⟩ ∧
      (run {} Sample.swallowed).activityAt 0 = some ⟨true, true⟩ ∧
      ((run {} Sample.swallowed).contextAt 0).map (·.handlers.count .evaluation) = some 2 ∧
      ∀ k < 2, (run {} Sample.swallowed).lastActivity 0 .evaluation k = some ⟨false, false⟩ :=
  ⟨by decide +kernel, by decide +kernel, by decide +kernel, by decide +kernel, by decide +kernel⟩

end World

end SliceSync
