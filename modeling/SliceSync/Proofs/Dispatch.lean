import Mathlib.Data.List.Induction
import Mathlib.Data.List.Perm.Basic
import SliceSync.Proofs.Rounds
/-!
# Who is made for a project, and who is called

A registry is what its registrations make of it (`Registry.enrolAll`), and its handlers for a project are those of the
registrations that apply, in a fixed order. A round calls the handlers that have something to be told, in their places,
up to and including the first that fails. Whatever rounds came before, the handlers are the same ones; and however
often they are let go, each is asked once to drop what it remembers.

Main statement: `Registry.dispatched`.
-/

namespace SliceSync

/-! ## Registrations -/

/-- A call that registers a handler. -/
inductive Enrolment
  | evaluation (rule : String) (registration : Registration EvaluationMaker)
  | arguments (registration : Registration ArgumentMaker)
  | items (registration : Registration ItemMaker)

namespace Enrolment

/-- What is registered for a rule. -/
def evaluation? : Enrolment → Option (String × Registration EvaluationMaker)
  | .evaluation rule registration => some (rule, registration)
  | _ => none

def arguments? : Enrolment → Option (Registration ArgumentMaker)
  | .arguments registration => some registration
  | _ => none

def items? : Enrolment → Option (Registration ItemMaker)
  | .items registration => some registration
  | _ => none

/-- The rules that handlers are registered for, in the order of their first registration. -/
def rules (enrolments : List Enrolment) : List String := ((enrolments.filterMap evaluation?).map (·.1)).eraseDups

end Enrolment

/-- A project has all that a registration requires. -/
def Registration.Applies {μ : Type} (project : Project) (r : Registration μ) : Prop :=
  ∀ capability ∈ r.requires, capability ∈ project.capabilities.names

instance {μ : Type} (project : Project) : DecidablePred (Registration.Applies (μ := μ) project) :=
  fun r => inferInstanceAs (Decidable (∀ capability ∈ r.requires, capability ∈ project.capabilities.names))

theorem Registration.appliesTo_eq {μ : Type} (project : Project) (r : Registration μ) :
    r.appliesTo project = decide (r.Applies project) := by
  rw [Bool.eq_iff_iff, decide_eq_true_iff, appliesTo, List.all_eq_true]
  simp only [Applies, NameMap.mem_names_iff]
  rfl

/-! ## Elements by key and by place -/

/-- A map read key by key. -/
theorem Listing.flatMap_toList {κ β γ : Type} [DecidableEq κ] (m : Listing κ (List β)) (f : κ → List β → List γ) :
    m.toList.flatMap (fun e => f e.1 e.2) = m.keys.flatMap fun key => f key ((m.get? key).getD []) := by
  unfold Listing.keys
  rw [List.flatMap_map]
  refine List.flatMap_congr fun e he => ?_
  rw [Listing.mem_toList_iff.1 he]
  rfl

/-- Elements that are gathered key by key are the same elements, each as often as before. -/
theorem flatMap_filter_perm {κ β : Type} [DecidableEq κ] {keys : List κ} (hn : keys.Nodup) {l : List (κ × β)}
    (h : ∀ e ∈ l, e.1 ∈ keys) : (keys.flatMap fun key => l.filter (·.1 = key)).Perm l := by
  induction keys generalizing l with
  | nil =>
    cases l with
    | nil => exact .nil
    | cons e rest => cases h e List.mem_cons_self
  | cons key rest ih =>
    obtain ⟨hkey, hrest⟩ := List.nodup_cons.1 hn
    -- the other keys find nothing less when those of this key have gone
    have hothers : (rest.flatMap fun other => l.filter (·.1 = other)) =
        rest.flatMap fun other => (l.filter fun e => !decide (e.1 = key)).filter (·.1 = other) := by
      refine List.flatMap_congr fun other hother => ?_
      rw [List.filter_filter]
      refine List.filter_congr fun e _ => ?_
      by_cases he : e.1 = other
      · have hne : ¬e.1 = key := fun heq => hkey (heq ▸ he ▸ hother)
        simp only [he, decide_true, Bool.true_and] at hne ⊢
        simp [hne]
      · simp [he]
    rw [List.flatMap_cons, hothers]
    refine ((ih hrest fun e he => ?_).append_left _).trans (List.filter_append_perm _ l)
    obtain ⟨hmem, hne⟩ := List.mem_filter.1 he
    exact (List.mem_cons.1 (h e hmem)).resolve_left (by simpa using hne)

/-- What is read of elements and their places depends on what it sees of the elements. -/
theorem filterMap_zipIdx_congr {η α γ : Type} {f : η → α} {l m : List η} (h : l.map f = m.map f)
    (g : Nat → α → Option γ) :
    l.zipIdx.filterMap (fun e => g e.2 (f e.1)) = m.zipIdx.filterMap fun e => g e.2 (f e.1) := by
  have hmap (l : List η) : l.zipIdx.filterMap (fun e => g e.2 (f e.1)) =
      (l.map f).zipIdx.filterMap fun e => g e.2 e.1 := by
    rw [List.zipIdx_map, List.filterMap_map]
    rfl
  rw [hmap, hmap, h]

namespace Registry

open Enrolment

def enrol (r : Registry) : Enrolment → Registry
  | .evaluation rule registration => r.registerEvaluation rule registration.maker registration.requires
  | .arguments registration => r.registerArguments registration.maker registration.requires
  | .items registration => r.registerItems registration.maker registration.requires

/-- The registry that some registrations make. -/
def enrolAll (enrolments : List Enrolment) : Registry := enrolments.foldl enrol {}

example : standard = enrolAll
    [.evaluation WellKnown.generalRule ⟨.projectProperties, []⟩,
      .items ⟨.files "source_files" WellKnown.compileItems .sourceFiles, []⟩,
      .items ⟨.files "additional_files" WellKnown.additionalFileItems .additionalFiles, []⟩,
      .arguments ⟨.references "metadata_references" .metadataReferences, []⟩,
      .arguments ⟨.references "analyzer_references" .analyzerReferences, []⟩] := rfl

theorem enrolAll_concat (enrolments : List Enrolment) (e : Enrolment) :
    enrolAll (enrolments ++ [e]) = (enrolAll enrolments).enrol e := List.foldl_append

theorem arguments_enrolAll (enrolments : List Enrolment) :
    (enrolAll enrolments).arguments = enrolments.filterMap arguments? := by
  induction enrolments using List.reverseRecOn with
  | nil => rfl
  | append_singleton enrolments e ih =>
    rw [enrolAll_concat, List.filterMap_append, ← ih]
    cases e <;> simp [enrol, registerEvaluation, registerArguments, registerItems, arguments?]

theorem items_enrolAll (enrolments : List Enrolment) :
    (enrolAll enrolments).items = enrolments.filterMap items? := by
  induction enrolments using List.reverseRecOn with
  | nil => rfl
  | append_singleton enrolments e ih =>
    rw [enrolAll_concat, List.filterMap_append, ← ih]
    cases e <;> simp [enrol, registerEvaluation, registerArguments, registerItems, items?]

/-- Rules stand in the order of their first registration, each with its registrations in order. -/
theorem evaluation_enrolAll (enrolments : List Enrolment) :
    (enrolAll enrolments).evaluation.keys = rules enrolments ∧
      ∀ rule, ((enrolAll enrolments).evaluation.get? rule).getD [] =
        ((enrolments.filterMap evaluation?).filter (·.1 = rule)).map (·.2) := by
  induction enrolments using List.reverseRecOn with
  | nil => exact ⟨rfl, fun _ => rfl⟩
  | append_singleton enrolments e ih =>
    obtain ⟨hkeys, hgets⟩ := ih
    unfold rules at hkeys ⊢
    rw [enrolAll_concat, List.filterMap_append]
    cases e with
    | arguments | items =>
      rw [List.filterMap_cons_none rfl, List.filterMap_nil, List.append_nil]
      exact ⟨hkeys, hgets⟩
    | evaluation rule registration =>
      constructor
      · simp only [enrol, registerEvaluation, Listing.keys_insert, hkeys, List.mem_eraseDups]
        rw [List.map_append, List.eraseDups_append]
        by_cases hrule : rule ∈ (enrolments.filterMap evaluation?).map (·.1)
        · simp [evaluation?, List.removeAll, hrule]
        · simp [evaluation?, List.removeAll, hrule, List.eraseDups_cons]
      · intro other
        simp only [enrol, registerEvaluation, Listing.get?_insert]
        by_cases hother : rule = other
        · subst hother
          simp [evaluation?, hgets]
        · simp [evaluation?, hother, hgets]

/-! ## Handlers for a project -/

/-- The handlers of a set are those a project gets from some registrations, fresh: of each kind one for each of its
registrations that applies. -/
structure Resolves (enrolments : List Enrolment) (project : Project) (s : HandlerSet) : Prop where
  /-- Handlers of evaluations stand by rule, rules in the order of their first registration. -/
  evaluation : s.evaluation = (rules enrolments).flatMap fun rule =>
    ((enrolments.filterMap evaluation?).filter fun e => e.1 = rule ∧ e.2.Applies project).map fun e =>
      (e.1, e.2.maker.make project)
  once : s.evaluation.Perm (((enrolments.filterMap evaluation?).filter (·.2.Applies project)).map fun e =>
    (e.1, e.2.maker.make project))
  arguments : s.arguments = ((enrolments.filterMap arguments?).filter (·.Applies project)).map (·.maker.make)
  items : s.items = ((enrolments.filterMap items?).filter (·.Applies project)).map (·.maker.make project)
  released : s.released = false

theorem nodup_rules (enrolments : List Enrolment) : (rules enrolments).Nodup := by
  rw [← (evaluation_enrolAll enrolments).1]
  exact (enrolAll enrolments).evaluation.nodup

theorem evaluation_resolve (enrolments : List Enrolment) (project : Project) :
    ((enrolAll enrolments).resolve project).evaluation = (rules enrolments).flatMap fun rule =>
      ((enrolments.filterMap evaluation?).filter fun e => e.1 = rule ∧ e.2.Applies project).map fun e =>
        (e.1, e.2.maker.make project) := by
  obtain ⟨hkeys, hgets⟩ := evaluation_enrolAll enrolments
  unfold resolve
  dsimp only
  rw [Listing.flatMap_toList (enrolAll enrolments).evaluation fun rule l =>
    (l.filter (·.appliesTo project)).map fun r => (rule, r.maker.make project), hkeys]
  refine List.flatMap_congr fun rule _ => ?_
  rw [hgets, List.filter_map, List.map_map, List.filter_filter]
  have hfilter : ((enrolments.filterMap evaluation?).filter fun e => e.2.appliesTo project && decide (e.1 = rule)) =
      (enrolments.filterMap evaluation?).filter fun e => e.1 = rule ∧ e.2.Applies project :=
    List.filter_congr fun e _ => by rw [Registration.appliesTo_eq, Bool.and_comm, Bool.decide_and]
  change ((enrolments.filterMap evaluation?).filter fun e =>
    e.2.appliesTo project && decide (e.1 = rule)).map _ = _
  rw [hfilter]
  refine List.map_congr_left fun e he => ?_
  obtain ⟨rfl, -⟩ := of_decide_eq_true (List.mem_filter.1 he).2
  rfl

theorem resolves (enrolments : List Enrolment) (project : Project) :
    Resolves enrolments project ((enrolAll enrolments).resolve project) := by
  have hcount : ((rules enrolments).flatMap fun rule =>
      ((enrolments.filterMap evaluation?).filter (·.2.Applies project)).filter (·.1 = rule)).Perm
        ((enrolments.filterMap evaluation?).filter (·.2.Applies project)) := by
    refine flatMap_filter_perm (nodup_rules enrolments) fun e he => ?_
    exact List.mem_eraseDups.2 (List.mem_map_of_mem (List.mem_of_mem_filter he))
  refine ⟨evaluation_resolve enrolments project, ?_, ?_, ?_, rfl⟩
  · rw [evaluation_resolve, ← List.map_flatMap]
    refine .map _ ?_
    simpa only [List.filter_filter, Bool.decide_and] using hcount
  · simp only [resolve, arguments_enrolAll, Registration.appliesTo_eq]
  · simp only [resolve, items_enrolAll, Registration.appliesTo_eq]

end Registry

/-! ## What a round calls -/

/-- A round calls the handlers that are due, up to the first that fails. -/
structure Serves (env : Environment) (activity : Activity) (due : List HandlerCall) (effects : List Effect)
    (failure : Option SyncError) : Prop where
  calls : Effect.calls effects <+: due
  stops : Stops env (Effect.calls effects) failure
  all : failure = none → Effect.calls effects = due
  /-- Nobody is called twice, and nobody before someone in front. -/
  order : ((Effect.calls effects).map (·.position)).Pairwise (· < ·)
  alike : ∀ call ∈ Effect.calls effects, call.activity = activity

section Round

variable {η : Type} {call : Nat → η → Round η} {position : Nat} {l : List η}

/-- A round makes the calls of its handlers in their order, all of them if none fails. -/
theorem callUntilFailure_calls :
    Effect.calls (callUntilFailure call position l).effects <+:
        ((l.zipIdx position).flatMap fun e => Effect.calls (call e.2 e.1).effects) ∧
      ((callUntilFailure call position l).failure = none →
        Effect.calls (callUntilFailure call position l).effects =
          (l.zipIdx position).flatMap fun e => Effect.calls (call e.2 e.1).effects) := by
  induction l generalizing position with
  | nil => exact ⟨List.prefix_rfl, fun _ => rfl⟩
  | cons h rest ih =>
    obtain ⟨hcalls, hall⟩ := @ih (position + 1)
    rw [List.zipIdx_cons, List.flatMap_cons]
    cases hf : (call position h).failure with
    | some error =>
      rw [callUntilFailure_cons_of_failure hf]
      exact ⟨List.prefix_append _ _, nofun⟩
    | none =>
      rw [callUntilFailure_cons_of_none hf, Effect.calls_append]
      exact ⟨(List.prefix_append_right_inj _).2 hcalls, fun hn => congrArg _ (hall hn)⟩

/-- A round that tells each of its handlers one thing or nothing. -/
theorem callUntilFailure_serves {env : Environment} {activity : Activity} {due : Nat → η → Option HandlerCall}
    (hdue : ∀ n h, Effect.calls (call n h).effects = (due n h).toList)
    (hplace : ∀ n h, ∀ c ∈ due n h, c.position = n ∧ c.activity = activity)
    (hstops : ∀ n h, Stops env (Effect.calls (call n h).effects) (call n h).failure) :
    Serves env activity (l.zipIdx.filterMap fun e => due e.2 e.1) (callUntilFailure call 0 l).effects
      (callUntilFailure call 0 l).failure := by
  have hall : (l.zipIdx.flatMap fun e => Effect.calls (call e.2 e.1).effects) =
      l.zipIdx.filterMap fun e => due e.2 e.1 := by
    rw [List.filterMap_eq_flatMap_toList]
    exact List.flatMap_congr fun e _ => hdue e.2 e.1
  have hcalls := @callUntilFailure_calls η call 0 l
  rw [hall] at hcalls
  have hplaces : ((l.zipIdx.filterMap fun e => due e.2 e.1).map (·.position)).Pairwise (· < ·) := by
    have hplaces : (l.zipIdx.map (·.2)).Pairwise (· < ·) := by
      rw [List.zipIdx_map_snd]
      exact List.pairwise_lt_range' _
    rw [List.pairwise_map, List.pairwise_filterMap]
    refine (List.pairwise_map.1 hplaces).imp fun hlt c hc c' hc' => ?_
    rwa [(hplace _ _ c hc).1, (hplace _ _ c' hc').1]
  refine ⟨hcalls.1, .round 0 hstops, hcalls.2, hplaces.sublist (hcalls.1.sublist.map _), fun c hc => ?_⟩
  obtain ⟨e, -, he⟩ := List.mem_filterMap.1 (hcalls.1.subset hc)
  exact (hplace e.2 e.1 c he).2

end Round

namespace HandlerSet

variable {s : HandlerSet} {env : Environment} {rules : NameMap Change} {items : Listing String Change}
  {activity : Activity} {d : ArgumentDifference}

/-- The call of a handler of evaluations in its place: it is due if something changed for its rule. -/
def evaluationCall (rules : NameMap Change) (activity : Activity) (position : Nat) (h : String × EvaluationHandler) :
    Option HandlerCall :=
  ((rules.get? h.1).filter Change.hasChanges).map fun change =>
    ⟨h.2.name, h.2.isExternal, position, .evaluation h.1 change, activity⟩

def itemCall (items : Listing String Change) (activity : Activity) (position : Nat) (h : ItemHandler) :
    Option HandlerCall :=
  some ⟨h.name, h.isExternal, position, .items items, activity⟩

def argumentCall (d : ArgumentDifference) (activity : Activity) (position : Nat) (h : ArgumentHandler) :
    Option HandlerCall :=
  some ⟨h.name, h.isExternal, position, .arguments d, activity⟩

theorem calls_callEvaluation (n : Nat) (h : String × EvaluationHandler) :
    Effect.calls (callEvaluation env rules activity n h).effects = (evaluationCall rules activity n h).toList := by
  obtain ⟨rule, handler⟩ := h
  unfold callEvaluation evaluationCall
  cases rules.get? rule with
  | none => rfl
  | some change =>
    cases hchange : change.hasChanges with
    | false => simp [hchange, Option.filter_some]
    | true => cases handler <;> simp [hchange, Option.filter_some, callExternal]

/-- The calls that are due when something changed: in their order, each in its place. -/
def evaluationCalls (s : HandlerSet) (rules : NameMap Change) (activity : Activity) : List HandlerCall :=
  s.evaluation.zipIdx.filterMap fun e => evaluationCall rules activity e.2 e.1

def itemCalls (s : HandlerSet) (items : Listing String Change) (activity : Activity) : List HandlerCall :=
  s.items.zipIdx.filterMap fun e => itemCall items activity e.2 e.1

def argumentCalls (s : HandlerSet) (d : ArgumentDifference) (activity : Activity) : List HandlerCall :=
  s.arguments.zipIdx.filterMap fun e => argumentCall d activity e.2 e.1

theorem applyEvaluation_serves :
    Serves env activity (s.evaluationCalls rules activity)
      (s.applyEvaluation env rules activity).effects (s.applyEvaluation env rules activity).failure := by
  refine callUntilFailure_serves calls_callEvaluation (fun n h c hc => ?_) callEvaluation_stops
  obtain ⟨change, -, rfl⟩ := Option.map_eq_some_iff.1 hc
  exact ⟨rfl, rfl⟩

theorem applyItems_serves :
    Serves env activity (s.itemCalls items activity)
      (s.applyItems env items activity).effects (s.applyItems env items activity).failure := by
  refine callUntilFailure_serves calls_callItems (fun n h c hc => ?_) callItems_stops
  obtain rfl := Option.some.inj hc
  exact ⟨rfl, rfl⟩

theorem applyArguments_serves :
    Serves env activity (s.argumentCalls d activity)
      (s.applyArguments env d activity).effects (s.applyArguments env d activity).failure := by
  refine callUntilFailure_serves calls_callArguments (fun n h c hc => ?_) callArguments_stops
  obtain rfl := Option.some.inj hc
  exact ⟨rfl, rfl⟩

end HandlerSet

/-! ## Rounds and releases one after the other -/

/-- What is done with the handlers of a context. -/
inductive HandlerStep
  | evaluation (env : Environment) (rules : NameMap Change) (activity : Activity)
  | items (env : Environment) (changes : Listing String Change) (activity : Activity)
  | arguments (env : Environment) (difference : ArgumentDifference) (activity : Activity)
  | release

def HandlerStep.isRelease : HandlerStep → Bool
  | .release => true
  | _ => false

namespace HandlerSet

variable {s t : HandlerSet}

/-- A step, with the handlers that are asked in it to drop what they remember. -/
def undergo (s : HandlerSet) : HandlerStep → HandlerSet × List (String × Bool)
  | .evaluation env rules activity => ((s.applyEvaluation env rules activity).state, [])
  | .items env changes activity => ((s.applyItems env changes activity).state, [])
  | .arguments env difference activity => ((s.applyArguments env difference activity).state, [])
  | .release => s.release

/-- The handlers are those of the other set, each in its place, whatever they remember. -/
structure Alike (s t : HandlerSet) : Prop where
  evaluation : s.evaluation = t.evaluation
  arguments : s.arguments.map (fun h => (h.name, h.isExternal)) = t.arguments.map fun h => (h.name, h.isExternal)
  items : s.items.map (fun h => (h.name, h.isExternal)) = t.items.map fun h => (h.name, h.isExternal)

namespace Alike

theorem refl (s : HandlerSet) : s.Alike s := ⟨rfl, rfl, rfl⟩

theorem trans {u : HandlerSet} (h : s.Alike t) (h' : t.Alike u) : s.Alike u :=
  ⟨h.evaluation.trans h'.evaluation, h.arguments.trans h'.arguments, h.items.trans h'.items⟩

theorem members_eq (h : s.Alike t) : s.members = t.members := by
  unfold members
  rw [h.evaluation, h.arguments, h.items]

theorem evaluationCalls_eq (h : s.Alike t) (rules : NameMap Change) (activity : Activity) :
    s.evaluationCalls rules activity = t.evaluationCalls rules activity := by
  rw [evaluationCalls, h.evaluation, evaluationCalls]

theorem itemCalls_eq (h : s.Alike t) (items : Listing String Change) (activity : Activity) :
    s.itemCalls items activity = t.itemCalls items activity :=
  filterMap_zipIdx_congr h.items fun n member => some (⟨member.1, member.2, n, .items items, activity⟩ : HandlerCall)

theorem argumentCalls_eq (h : s.Alike t) (d : ArgumentDifference) (activity : Activity) :
    s.argumentCalls d activity = t.argumentCalls d activity :=
  filterMap_zipIdx_congr h.arguments fun n member => some (⟨member.1, member.2, n, .arguments d, activity⟩ : HandlerCall)

end Alike

theorem undergo_alike (s : HandlerSet) (step : HandlerStep) : (s.undergo step).1.Alike s := by
  cases step with
  | evaluation env rules activity =>
    rw [undergo, applyEvaluation_state]
    exact .refl s
  | items env changes activity =>
    exact ⟨rfl, rfl, map_state fun n h => by rw [(callItems_name n h).1, (callItems_name n h).2]⟩
  | arguments env d activity =>
    exact ⟨rfl, map_state fun n h => by rw [(callArguments_name n h).1, (callArguments_name n h).2], rfl⟩
  | release =>
    rw [undergo, release]
    split
    · exact .refl s
    · refine ⟨rfl, ?_, ?_⟩
      · rw [List.map_map]
        exact List.map_congr_left fun h _ => by cases h <;> rfl
      · rw [List.map_map]
        exact List.map_congr_left fun h _ => by cases h <;> rfl

/-- Only the first release asks anyone. -/
theorem undergo_released (s : HandlerSet) (step : HandlerStep) :
    (s.undergo step).1.released = (s.released || step.isRelease) ∧
      (s.undergo step).2 = if s.released = false ∧ step.isRelease then s.members else [] := by
  cases step with
  | evaluation env rules activity =>
    rw [undergo, applyEvaluation_state]
    simp [HandlerStep.isRelease]
  | items | arguments => simp [undergo, applyItems, applyArguments, HandlerStep.isRelease]
  | release => cases hr : s.released <;> simp [undergo, release, hr, HandlerStep.isRelease]

/-- In any steps the handlers stay who they are, and those asked to drop what they remember are asked once. -/
theorem undergo_all (s : HandlerSet) (steps : List HandlerStep) :
    (runAll undergo s steps).1.Alike s ∧
      (runAll undergo s steps).2 =
        if s.released = false ∧ steps.any (·.isRelease) then s.members else [] := by
  induction steps generalizing s with
  | nil => exact ⟨.refl s, by simp [runAll]⟩
  | cons step rest ih =>
    obtain ⟨halike, hasked⟩ := ih (s.undergo step).1
    obtain ⟨hreleased, hfirst⟩ := s.undergo_released step
    refine ⟨halike.trans (s.undergo_alike step), ?_⟩
    rw [runAll, hfirst, hasked, hreleased, (s.undergo_alike step).members_eq]
    cases s.released <;> cases hstep : step.isRelease <;> simp [hstep]

end HandlerSet

/-- What the handlers that some registrations give a project do, whatever has been done with them. -/
structure Registry.Dispatches (enrolments : List Enrolment) (project : Project) (steps : List HandlerStep)
    (s : HandlerSet) : Prop where
  resolves : Resolves enrolments project s
  evaluation : ∀ env rules activity,
    Serves env activity (s.evaluationCalls rules activity)
      ((runAll HandlerSet.undergo s steps).1.applyEvaluation env rules activity).effects
      ((runAll HandlerSet.undergo s steps).1.applyEvaluation env rules activity).failure
  items : ∀ env changes activity,
    Serves env activity (s.itemCalls changes activity)
      ((runAll HandlerSet.undergo s steps).1.applyItems env changes activity).effects
      ((runAll HandlerSet.undergo s steps).1.applyItems env changes activity).failure
  arguments : ∀ env difference activity,
    Serves env activity (s.argumentCalls difference activity)
      ((runAll HandlerSet.undergo s steps).1.applyArguments env difference activity).effects
      ((runAll HandlerSet.undergo s steps).1.applyArguments env difference activity).failure
  /-- Each is asked once to drop what it remembers, if anyone asks. -/
  asked : (runAll HandlerSet.undergo s steps).2 = if steps.any (·.isRelease) then s.members else []

/-- A registry gives a project the handlers that apply to it, each once and in order. A round calls those of them that
have something to be told, up to the first that fails, and all are let go of once. -/
theorem Registry.dispatched (enrolments : List Enrolment) (project : Project) (steps : List HandlerStep) :
    Dispatches enrolments project steps ((enrolAll enrolments).resolve project) := by
  have hresolves := resolves enrolments project
  obtain ⟨halike, hasked⟩ := ((enrolAll enrolments).resolve project).undergo_all steps
  refine ⟨hresolves, fun env rules activity => ?_, fun env changes activity => ?_, fun env difference activity => ?_, ?_⟩
  · rw [← halike.evaluationCalls_eq]
    exact HandlerSet.applyEvaluation_serves
  · rw [← halike.itemCalls_eq]
    exact HandlerSet.applyItems_serves
  · rw [← halike.argumentCalls_eq]
    exact HandlerSet.applyArguments_serves
  · rw [hasked, hresolves.released]
    simp

end SliceSync
