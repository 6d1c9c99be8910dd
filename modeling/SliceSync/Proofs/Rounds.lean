import SliceSync.Proofs.Standard
/-!
# Rounds of calls

A round calls its handlers in order until one fails. What it leaves of a handler depends on that handler and
on whether the round got to it (`Reaches`); a handler that is not reached stays as it was. Handlers from
outside remember nothing here, and of ours none fails, so whether a place is reached is for those from
outside to say.
-/

namespace SliceSync

/-- The calls among some effects. -/
def Effect.calls (effects : List Effect) : List HandlerCall :=
  effects.filterMap fun e =>
    match e with
    | .called call => some call
    | .mutate _ => none

namespace Effect

@[simp] theorem calls_nil : calls [] = [] := rfl

@[simp] theorem calls_append (l m : List Effect) : calls (l ++ m) = calls l ++ calls m := List.filterMap_append

@[simp] theorem calls_called_cons (call : HandlerCall) (l : List Effect) : calls (.called call :: l) = call :: calls l :=
  rfl

@[simp] theorem calls_map_mutate (l : List Mutation) : calls (l.map .mutate) = [] := by
  induction l with
  | nil => rfl
  | cons m rest ih => exact ih

end Effect

section Round

variable {η : Type} {call : Nat → η → Round η} {position n : Nat} {l : List η} {h : η}

/-- No handler before a place fails, so the round gets there. -/
def Reaches (call : Nat → η → Round η) (position : Nat) (l : List η) (n : Nat) : Prop :=
  ∀ k h, k < n → l[k]? = some h → (call (position + k) h).failure = none

theorem reaches_zero : Reaches call position l 0 := fun _ _ hk => absurd hk (Nat.not_lt_zero _)

theorem reaches_cons :
    Reaches call position (h :: l) (n + 1) ↔
      (call position h).failure = none ∧ Reaches call (position + 1) l n := by
  constructor
  · intro hr
    refine ⟨hr 0 h (by omega) rfl, fun k g hk hg => ?_⟩
    have := hr (k + 1) g (by omega) hg
    rwa [← Nat.add_assoc, Nat.add_right_comm] at this
  · rintro ⟨hfirst, hr⟩ k g hk hg
    cases k with
    | zero =>
      cases hg
      exact hfirst
    | succ k =>
      have := hr k g (by omega) hg
      rwa [Nat.add_right_comm] at this

theorem callUntilFailure_cons_of_failure {error : SyncError} (hf : (call position h).failure = some error) :
    callUntilFailure call position (h :: l) =
      ⟨(call position h).state :: l, (call position h).effects, some error⟩ := by
  rw [callUntilFailure, hf]

theorem callUntilFailure_cons_of_none (hf : (call position h).failure = none) :
    callUntilFailure call position (h :: l) =
      ⟨(call position h).state :: (callUntilFailure call (position + 1) l).state,
        (call position h).effects ++ (callUntilFailure call (position + 1) l).effects,
        (callUntilFailure call (position + 1) l).failure⟩ := by
  rw [callUntilFailure, hf]

/-- A handler that is reached takes its call. -/
theorem getElem?_state_of_reaches (hl : l[n]? = some h) (hr : Reaches call position l n) :
    (callUntilFailure call position l).state[n]? = some (call (position + n) h).state := by
  induction l generalizing position n with
  | nil => cases hl
  | cons g rest ih =>
    cases n with
    | zero =>
      obtain rfl : h = g := (Option.some.inj hl).symm
      cases hf : (call position h).failure with
      | some error => rw [callUntilFailure_cons_of_failure hf, List.getElem?_cons_zero, Nat.add_zero]
      | none => rw [callUntilFailure_cons_of_none hf, List.getElem?_cons_zero, Nat.add_zero]
    | succ n =>
      obtain ⟨hf, hr⟩ := reaches_cons.1 hr
      rw [callUntilFailure_cons_of_none hf, List.getElem?_cons_succ, ih hl hr, Nat.add_right_comm]
      rfl

/-- A handler that is not reached stays as it was. -/
theorem getElem?_state_of_not_reaches (hr : ¬Reaches call position l n) :
    (callUntilFailure call position l).state[n]? = l[n]? := by
  induction l generalizing position n with
  | nil => rfl
  | cons g rest ih =>
    cases n with
    | zero => exact absurd reaches_zero hr
    | succ n =>
      rw [reaches_cons] at hr
      cases hf : (call position g).failure with
      | some error => rw [callUntilFailure_cons_of_failure hf, List.getElem?_cons_succ, List.getElem?_cons_succ]
      | none =>
        rw [callUntilFailure_cons_of_none hf, List.getElem?_cons_succ, List.getElem?_cons_succ]
        exact ih fun hn => hr ⟨hf, hn⟩

/-- What happens in a round happens in the call of some handler. -/
theorem mem_effects {e : Effect} (he : e ∈ (callUntilFailure call position l).effects) :
    ∃ k h, l[k]? = some h ∧ Reaches call position l k ∧ e ∈ (call (position + k) h).effects := by
  induction l generalizing position with
  | nil => cases he
  | cons g rest ih =>
    cases hf : (call position g).failure with
    | some error =>
      rw [callUntilFailure_cons_of_failure hf] at he
      exact ⟨0, g, rfl, reaches_zero, he⟩
    | none =>
      rw [callUntilFailure_cons_of_none hf] at he
      rcases List.mem_append.1 he with he | he
      · exact ⟨0, g, rfl, reaches_zero, he⟩
      · obtain ⟨k, h, hk, hr, he⟩ := ih he
        refine ⟨k + 1, h, hk, reaches_cons.2 ⟨hf, hr⟩, ?_⟩
        rwa [Nat.add_right_comm] at he

/-- A round keeps what each call keeps. -/
theorem map_state {α : Type} {f : η → α} (hf : ∀ n h, f (call n h).state = f h) :
    (callUntilFailure call position l).state.map f = l.map f := by
  induction l generalizing position with
  | nil => rfl
  | cons g rest ih =>
    cases hc : (call position g).failure with
    | some error => rw [callUntilFailure_cons_of_failure hc, List.map_cons, hf, List.map_cons]
    | none => rw [callUntilFailure_cons_of_none hc, List.map_cons, hf, ih, List.map_cons]

/-- Rounds whose calls fail alike fail alike, and get to the same places. -/
theorem failure_congr {α : Type} {f : η → α}
    (hf : ∀ n g g', f g = f g' → (call n g).failure = (call n g').failure) {l' : List η}
    (hl : l.map f = l'.map f) :
    (callUntilFailure call position l).failure = (callUntilFailure call position l').failure ∧
      ∀ n, Reaches call position l n ↔ Reaches call position l' n := by
  induction l generalizing position l' with
  | nil =>
    obtain rfl : l' = [] := List.map_eq_nil_iff.1 hl.symm
    exact ⟨rfl, fun _ => .rfl⟩
  | cons g rest ih =>
    obtain ⟨g', rest', rfl, hg, hrest⟩ := List.map_eq_cons_iff.1 hl.symm
    have hsame := hf position g g' hg.symm
    obtain ⟨hfailure, hreaches⟩ := @ih (position + 1) rest' hrest.symm
    constructor
    · cases hc : (call position g).failure with
      | some error =>
        rw [callUntilFailure_cons_of_failure hc, callUntilFailure_cons_of_failure (hsame.symm.trans hc)]
      | none =>
        rw [callUntilFailure_cons_of_none hc, callUntilFailure_cons_of_none (hsame.symm.trans hc)]
        exact hfailure
    · intro n
      cases n with
      | zero => exact iff_of_true reaches_zero reaches_zero
      | succ n => rw [reaches_cons, reaches_cons, hsame, hreaches]

/-- A round in which nothing fails gets everywhere. -/
theorem reaches_of_success (hf : (callUntilFailure call position l).failure = none) (n : Nat) :
    Reaches call position l n := by
  induction l generalizing position n with
  | nil => exact fun _ _ _ hg => by cases hg
  | cons g rest ih =>
    cases n with
    | zero => exact reaches_zero
    | succ n =>
      cases hc : (call position g).failure with
      | some error =>
        rw [callUntilFailure_cons_of_failure hc] at hf
        cases hf
      | none =>
        rw [callUntilFailure_cons_of_none hc] at hf
        exact reaches_cons.2 ⟨hc, ih hf n⟩

/-- A round fails with the failure of some handler. -/
theorem exists_of_failure {error : SyncError} (hf : (callUntilFailure call position l).failure = some error) :
    ∃ k h, l[k]? = some h ∧ (call (position + k) h).failure = some error := by
  induction l generalizing position with
  | nil => cases hf
  | cons g rest ih =>
    cases hc : (call position g).failure with
    | some other =>
      rw [callUntilFailure_cons_of_failure hc] at hf
      exact ⟨0, g, rfl, hc.trans hf⟩
    | none =>
      rw [callUntilFailure_cons_of_none hc] at hf
      obtain ⟨k, h, hk, herror⟩ := ih hf
      refine ⟨k + 1, h, hk, ?_⟩
      rwa [Nat.add_right_comm] at herror

end Round

/-! ## What a round leaves of the handlers -/

namespace HandlerSet

variable {s : HandlerSet} {env : Environment} {rules : NameMap Change} {items : Listing String Change}
  {activity : Activity} {d : ArgumentDifference}

theorem callEvaluation_state (n : Nat) (h : String × EvaluationHandler) :
    (callEvaluation env rules activity n h).state = h := by
  unfold callEvaluation
  dsimp only
  split
  · rfl
  · split
    · rfl
    · split <;> rfl

/-- Handlers of evaluations remember nothing. -/
theorem applyEvaluation_state : (s.applyEvaluation env rules activity).state = s := by
  have h : (callUntilFailure (callEvaluation env rules activity) 0 s.evaluation).state.map id =
      s.evaluation.map id := map_state callEvaluation_state
  rw [List.map_id, List.map_id] at h
  rw [applyEvaluation, h]

theorem callItems_name (n : Nat) (h : ItemHandler) :
    (callItems env items activity n h).state.name = h.name ∧
      (callItems env items activity n h).state.isExternal = h.isExternal := by
  cases h <;> exact ⟨rfl, rfl⟩

theorem callArguments_name (n : Nat) (h : ArgumentHandler) :
    (callArguments env d activity n h).state.name = h.name ∧
      (callArguments env d activity n h).state.isExternal = h.isExternal := by
  cases h <;> exact ⟨rfl, rfl⟩

/-- The round of an evaluation's items is reached unless a handler of rules fails. -/
theorem applyBoth_of_failure {error : SyncError}
    (hf : (s.applyEvaluation env rules activity).failure = some error) :
    s.applyBoth env rules items activity =
      ⟨s, (s.applyEvaluation env rules activity).effects, some error⟩ := by
  unfold applyBoth
  simp only [hf, applyEvaluation_state]

theorem applyBoth_of_none (hf : (s.applyEvaluation env rules activity).failure = none) :
    s.applyBoth env rules items activity =
      ⟨(s.applyItems env items activity).state,
        (s.applyEvaluation env rules activity).effects ++ (s.applyItems env items activity).effects,
        (s.applyItems env items activity).failure⟩ := by
  unfold applyBoth
  simp only [hf, applyEvaluation_state]

theorem calls_callItems (n : Nat) (h : ItemHandler) :
    Effect.calls (callItems env items activity n h).effects = [⟨h.name, h.isExternal, n, .items items, activity⟩] := by
  cases h <;> simp [callItems, callExternal]

theorem calls_callArguments (n : Nat) (h : ArgumentHandler) :
    Effect.calls (callArguments env d activity n h).effects =
      [⟨h.name, h.isExternal, n, .arguments d, activity⟩] := by
  cases h <;> simp [callArguments, callExternal]

theorem applyItems_members : (s.applyItems env items activity).state.members = s.members := by
  have h : (callUntilFailure (callItems env items activity) 0 s.items).state.map
      (fun h => (h.name, h.isExternal)) = s.items.map fun h => (h.name, h.isExternal) :=
    map_state fun n h => by rw [(callItems_name n h).1, (callItems_name n h).2]
  simp only [members, applyItems, h]

/-- A round keeps who the handlers are; they are let go of when the context goes. -/
theorem applyBoth_members :
    (s.applyBoth env rules items activity).state.members = s.members ∧
      (s.applyBoth env rules items activity).state.released = s.released := by
  cases hf : (s.applyEvaluation env rules activity).failure with
  | some error =>
    rw [applyBoth_of_failure hf]
    exact ⟨rfl, rfl⟩
  | none =>
    rw [applyBoth_of_none hf]
    exact ⟨applyItems_members, rfl⟩

theorem applyArguments_members :
    (s.applyArguments env d activity).state.members = s.members ∧
      (s.applyArguments env d activity).state.released = s.released := by
  have h : (callUntilFailure (callArguments env d activity) 0 s.arguments).state.map
      (fun h => (h.name, h.isExternal)) = s.arguments.map fun h => (h.name, h.isExternal) :=
    map_state fun n h => by rw [(callArguments_name n h).1, (callArguments_name n h).2]
  exact ⟨by simp only [members, applyArguments, h], rfl⟩

/-- The round of an evaluation leaves the handlers of argument lists alone. -/
theorem applyBoth_arguments : (s.applyBoth env rules items activity).state.arguments = s.arguments := by
  cases hf : (s.applyEvaluation env rules activity).failure with
  | some error => rw [applyBoth_of_failure hf]
  | none => rw [applyBoth_of_none hf]; rfl

/-! ## What a context is told in a round -/

theorem mem_callExternal {η : Type} {h : η} {call : HandlerCall} {m : Mutation}
    (hm : .mutate m ∈ (callExternal env h call).effects) : m ∈ (env.reply call).mutations := by
  simpa [callExternal] using hm

/-- A handler of evaluations changes names, or comes from outside. -/
theorem mem_callEvaluation {n : Nat} {h : String × EvaluationHandler} {m : Mutation}
    (hm : .mutate m ∈ (callEvaluation env rules activity n h).effects) :
    (m.part = .displayName ∨ m.part = .outputPath) ∨ ∃ call, m ∈ (env.reply call).mutations := by
  unfold callEvaluation at hm
  dsimp only at hm
  split at hm
  · cases hm
  · split at hm
    · cases hm
    · split at hm
      · have hm := List.mem_cons.1 hm
        simp only [reduceCtorEq, List.mem_map, Effect.mutate.injEq, exists_eq_right, false_or] at hm
        exact .inl (propertyMutations_part hm)
      · exact .inr ⟨_, mem_callExternal hm⟩

/-- A handler of items changes its own list, or comes from outside. -/
theorem mem_callItems {n : Nat} {h : ItemHandler} {m : Mutation}
    (hm : .mutate m ∈ (callItems env items activity n h).effects) :
    (∃ name files, h = .files name files ∧ m.part = .paths files.list) ∨
      ∃ call, m ∈ (env.reply call).mutations := by
  cases h with
  | files name files =>
    have hm : m ∈ (files.follow items).2 := by simpa [callItems] using hm
    exact .inl ⟨name, files, rfl, ItemFiles.follow_part hm⟩
  | external name => exact .inr ⟨_, mem_callExternal hm⟩

end HandlerSet

/-! ## How a round of calls stops -/

/-- The error of a handler's call, if it fails. Only handlers from outside fail. -/
def HandlerCall.error? (env : Environment) (call : HandlerCall) : Option SyncError :=
  if call.external then (env.reply call).error? call.name else none

/-- A collaborator answers with that error if it is asked: the factory, a context, or a handler for some call. -/
def Environment.Answers (env : Environment) (error : SyncError) : Prop :=
  env.refused = some error ∨ env.rejected = some error ∨ ∃ call : HandlerCall, call.error? env = some error

/-- What comes of calls that are made one after the other until one fails. -/
inductive Stops (env : Environment) : List HandlerCall → Option SyncError → Prop
  | well {calls : List HandlerCall} (h : ∀ call ∈ calls, call.error? env = none) : Stops env calls none
  | badly {calls : List HandlerCall} {call : HandlerCall} {error : SyncError}
      (h : ∀ call ∈ calls, call.error? env = none) (hf : call.error? env = some error) :
      Stops env (calls ++ [call]) (some error)

namespace Stops

variable {env : Environment} {l m : List HandlerCall} {failure : Option SyncError}

theorem none_called : Stops env [] none := .well nofun

/-- Calls of which none fails can be gone on from. -/
theorem append (h : Stops env l none) (h' : Stops env m failure) : Stops env (l ++ m) failure := by
  cases h with
  | well hl =>
    cases h' with
    | well hm => exact .well fun call hc => (List.mem_append.1 hc).elim (hl call) (hm call)
    | @badly calls call error hm hf =>
      rw [← List.append_assoc]
      exact .badly (fun call hc => (List.mem_append.1 hc).elim (hl call) (hm call)) hf

/-- The call of a handler of our own. -/
theorem own {call : HandlerCall} {l : List Mutation} (h : call.external = false) :
    Stops env (Effect.calls (.called call :: l.map .mutate)) none := by
  rw [Effect.calls_called_cons, Effect.calls_map_mutate]
  refine .well fun other ho => ?_
  rw [List.mem_singleton.1 ho, HandlerCall.error?, h]
  rfl

theorem external {η : Type} (h : η) {call : HandlerCall} (he : call.external = true) :
    Stops env (Effect.calls (callExternal env h call).effects) (callExternal env h call).failure := by
  have hcall : call.error? env = (callExternal env h call).failure := by
    rw [HandlerCall.error?, he]
    rfl
  have hcalls : Effect.calls (callExternal env h call).effects = [call] := by simp [callExternal]
  rw [hcalls, ← hcall]
  cases hf : call.error? env with
  | none => exact .well fun other ho => by rw [List.mem_singleton.1 ho, hf]
  | some error =>
    have hnone : ∀ other ∈ ([] : List HandlerCall), other.error? env = none := by simp
    exact .badly hnone hf

/-- A round stops as its calls do. -/
theorem round {η : Type} {call : Nat → η → Round η} {l : List η} (position : Nat)
    (h : ∀ n g, Stops env (Effect.calls (call n g).effects) (call n g).failure) :
    Stops env (Effect.calls (callUntilFailure call position l).effects) (callUntilFailure call position l).failure := by
  induction l generalizing position with
  | nil => exact none_called
  | cons g rest ih =>
    have hfirst := h position g
    cases hf : (call position g).failure with
    | some error =>
      rw [callUntilFailure_cons_of_failure hf]
      rwa [hf] at hfirst
    | none =>
      rw [callUntilFailure_cons_of_none hf, Effect.calls_append]
      rw [hf] at hfirst
      exact hfirst.append (ih (position + 1))

end Stops

namespace HandlerSet

variable {s : HandlerSet} {env : Environment} {rules : NameMap Change} {items : Listing String Change}
  {activity : Activity} {d : ArgumentDifference}

theorem callEvaluation_stops (n : Nat) (h : String × EvaluationHandler) :
    Stops env (Effect.calls (callEvaluation env rules activity n h).effects)
      (callEvaluation env rules activity n h).failure := by
  obtain ⟨rule, handler⟩ := h
  unfold callEvaluation
  dsimp only
  split
  · exact .none_called
  · split
    · exact .none_called
    · cases handler with
      | projectProperties slice => exact .own rfl
      | external name => exact .external _ rfl

theorem callItems_stops (n : Nat) (h : ItemHandler) :
    Stops env (Effect.calls (callItems env items activity n h).effects) (callItems env items activity n h).failure := by
  cases h with
  | files name files => exact .own rfl
  | external name => exact .external _ rfl

theorem callArguments_stops (n : Nat) (h : ArgumentHandler) :
    Stops env (Effect.calls (callArguments env d activity n h).effects)
      (callArguments env d activity n h).failure := by
  cases h with
  | references name references => exact .own rfl
  | external name => exact .external _ rfl

/-- The handlers of items are called only if no handler of rules fails. -/
theorem applyBoth_stops :
    Stops env (Effect.calls (s.applyBoth env rules items activity).effects)
      (s.applyBoth env rules items activity).failure := by
  have hfirst : Stops env (Effect.calls (s.applyEvaluation env rules activity).effects)
      (s.applyEvaluation env rules activity).failure := .round 0 callEvaluation_stops
  cases hf : (s.applyEvaluation env rules activity).failure with
  | some error =>
    rw [applyBoth_of_failure hf]
    rwa [hf] at hfirst
  | none =>
    rw [applyBoth_of_none hf, Effect.calls_append]
    rw [hf] at hfirst
    exact hfirst.append (.round 0 callItems_stops)

end HandlerSet

end SliceSync
