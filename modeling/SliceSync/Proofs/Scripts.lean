import SliceSync.Proofs.Lanes
/-!
# What scripts tell

The updates of a script are what was scripted, one for one, each of its kind and made for the script's project. Their
first evaluation says of the general rule what the first one scripted says, whatever stands before it
(`Script.firstEvaluation_carries`).
-/

namespace SliceSync

/-- The rules that a scripted update tells, if it is an evaluation. -/
def ScriptedUpdate.rules? (u : ScriptedUpdate) : Option (NameMap Snapshot) :=
  match u.payload with
  | .evaluation rules _ => some rules
  | .build _ => none

/-- What rules say of a property of the general rule; a blank value says nothing. -/
def generalProperty? (rules : NameMap Snapshot) (name : String) : Option String :=
  (rules.get? WellKnown.generalRule).bind (·.property? name)

/-- The properties of the general rule without which no context is created. -/
def requiredProperties : List String := [WellKnown.language, WellKnown.targetPath, WellKnown.projectFullPath]

/-- The rules of a script's first evaluation. -/
def Script.firstRules? (s : Script) : Option (NameMap Snapshot) := s.scripted.findSome? ScriptedUpdate.rules?

def Script.hasBuild (s : Script) : Bool := s.scripted.any (·.rules?.isNone)

/-- An evaluation carries what rules say of the general rule. -/
def Evaluation.Carries (e : Evaluation) (rules : NameMap Snapshot) : Prop :=
  ∀ name, e.property? WellKnown.generalRule name = generalProperty? rules name

/-- Creating a context fails for a required property that is missing, and for nothing else. -/
theorem Evaluation.creationParams_cases (e : Evaluation) :
    (∃ name ∈ requiredProperties, e.property? WellKnown.generalRule name = none ∧
      e.creationParams = .error (.missingProperty WellKnown.generalRule name)) ∨
      (∃ params, e.creationParams = .ok params) ∧
        ∀ name ∈ requiredProperties, (e.property? WellKnown.generalRule name).isSome := by
  unfold creationParams
  simp only [bind, Except.bind]
  cases hlanguage : e.property? WellKnown.generalRule WellKnown.language with
  | none => exact .inl ⟨_, by simp [requiredProperties], hlanguage, rfl⟩
  | some language =>
    cases houtput : e.property? WellKnown.generalRule WellKnown.targetPath with
    | none => exact .inl ⟨_, by simp [requiredProperties], houtput, rfl⟩
    | some output =>
      cases hpath : e.property? WellKnown.generalRule WellKnown.projectFullPath with
      | none => exact .inl ⟨_, by simp [requiredProperties], hpath, rfl⟩
      | some path => exact .inr ⟨⟨_, rfl⟩, by simp [requiredProperties, hlanguage, houtput, hpath]⟩

namespace Publisher

variable (t : Publisher) (project : Project) {u : ScriptedUpdate}

theorem tell_project (u : ScriptedUpdate) : (t.tell project u).2.project = project := by
  unfold tell
  cases u.payload <;> rfl

theorem tell_build (h : u.rules? = none) : (t.tell project u).2.kind = .build ∧ (t.tell project u).2.evaluation? = none := by
  unfold ScriptedUpdate.rules? at h
  unfold tell
  cases hu : u.payload with
  | evaluation rules items => simp [hu] at h
  | build arguments => exact ⟨rfl, rfl⟩

/-- What was told before shows in what has changed, not in what there is now. -/
theorem tell_evaluation {rules : NameMap Snapshot} (h : u.rules? = some rules) :
    (t.tell project u).2.kind = .evaluation ∧ ∃ e, (t.tell project u).2.evaluation? = some e ∧ e.Carries rules := by
  unfold ScriptedUpdate.rules? at h
  unfold tell
  cases hu : u.payload with
  | build arguments => simp [hu] at h
  | evaluation rules' items =>
    obtain rfl : rules' = rules := by simpa [hu] using h
    refine ⟨rfl, _, rfl, fun name => ?_⟩
    unfold Evaluation.property? generalProperty?
    rw [NameMap.get?_mapValues]
    cases rules'.get? WellKnown.generalRule <;> rfl

variable (l : List ScriptedUpdate)

theorem tellAll_project : ∀ u ∈ t.tellAll project l, u.project = project := by
  induction l generalizing t with
  | nil => nofun
  | cons u l ih =>
    intro v hv
    rcases List.mem_cons.1 hv with rfl | hv
    · exact t.tell_project project u
    · exact ih _ v hv

theorem tellAll_length : (t.tellAll project l).length = l.length := by
  induction l generalizing t with
  | nil => rfl
  | cons u l ih => exact congrArg (· + 1) (ih _)

theorem tellAll_hasBuild : (t.tellAll project l).any (·.kind = .build) = l.any (·.rules?.isNone) := by
  induction l generalizing t with
  | nil => rfl
  | cons u l ih =>
    unfold tellAll
    rw [List.any_cons, List.any_cons, ih]
    cases hu : u.rules? with
    | none => rw [(t.tell_build project hu).1]; rfl
    | some rules => rw [(t.tell_evaluation project hu).1]; rfl

theorem tellAll_carries :
    Option.Rel Evaluation.Carries (firstEvaluation? (t.tellAll project l)) (l.findSome? ScriptedUpdate.rules?) := by
  induction l generalizing t with
  | nil => exact .none
  | cons u l ih =>
    unfold tellAll firstEvaluation?
    rw [List.findSome?_cons, List.findSome?_cons]
    cases hu : u.rules? with
    | none =>
      rw [(t.tell_build project hu).2]
      exact ih _
    | some rules =>
      obtain ⟨-, e, he, hcarries⟩ := t.tell_evaluation project hu
      rw [he]
      exact .some hcarries

end Publisher

namespace Script

variable (s : Script) (project : Project)

theorem updates_project : ∀ u ∈ s.updates project, u.project = project := Publisher.tellAll_project {} project s.scripted

theorem updates_length : (s.updates project).length = s.scripted.length := Publisher.tellAll_length {} project s.scripted

theorem updates_hasBuild : (s.updates project).any (·.kind = .build) = s.hasBuild :=
  Publisher.tellAll_hasBuild {} project s.scripted

theorem firstEvaluation_carries : Option.Rel Evaluation.Carries (firstEvaluation? (s.updates project)) s.firstRules? :=
  Publisher.tellAll_carries {} project s.scripted

variable {s project}

theorem firstRules?_eq_none (h : firstEvaluation? (s.updates project) = none) : s.firstRules? = none := by
  have hcarries := s.firstEvaluation_carries project
  rw [h] at hcarries
  cases hr : s.firstRules? with
  | none => rfl
  | some rules =>
    rw [hr] at hcarries
    cases hcarries

theorem firstRules?_eq_some {e : Evaluation} (h : firstEvaluation? (s.updates project) = some e) :
    ∃ rules, s.firstRules? = some rules ∧ e.Carries rules := by
  have hcarries := s.firstEvaluation_carries project
  rw [h] at hcarries
  cases hr : s.firstRules? with
  | none =>
    rw [hr] at hcarries
    cases hcarries
  | some rules =>
    rw [hr] at hcarries
    cases hcarries with
    | some hcarries => exact ⟨rules, rfl, hcarries⟩

end Script

end SliceSync
