import SliceSync.Handler.Registry
import SliceSync.Settings
/-!
# The session

What all workspaces of a host share: the ids of the live contexts and the active slices. A context is
created from the first evaluation of a slice; its id stays taken until its release has finished.
Main statements: creating takes the id and nothing else (`create_live`), and a refusal takes nothing.
-/

namespace SliceSync

/-- A live context with the handlers made for it. -/
structure ContextHandle where
  /-- Its place among all contexts of the session, by time of creation. -/
  serial : Nat
  id : ContextId
  handlers : HandlerSet
  deriving DecidableEq

/-- What is fixed for a session. -/
structure Setup where
  registry : Registry := .standard
  settings : Settings := {}
  /-- Whether progress is followed. -/
  tracksProgress : Bool := true
  deriving DecidableEq, Inhabited

/-- What the workspaces of a session share. -/
structure Session where
  /-- The ids taken. -/
  live : List ContextId := []
  /-- How many contexts the factory has created. -/
  created : Nat := 0
  active : ActiveSlices := {}
  deriving DecidableEq, Inhabited

/-- One thing that happened outside on our account. -/
inductive Event
  /-- Progress is followed from here on for an owner. -/
  | registered (owner : String)
  /-- Everything up to these versions has been processed. -/
  | processed (owner : String) (versions : Versions)
  /-- Progress is no longer followed. -/
  | unregistered (owner : String)
  | created (serial : Nat) (params : CreationParams)
  /-- A context received a call. -/
  | context (serial : Nat) (call : ContextCall)
  /-- A handler was called for a context. -/
  | handled (serial : Nat) (call : HandlerCall)
  /-- A handler dropped what it remembered for a context. -/
  | released (serial : Nat) (handler : String) (external : Bool) (id : ContextId)
  /-- The action of a write was run. -/
  | acted (id : ContextId)
  /-- A fault was reported. -/
  | fault (error : SyncError) (severity : Severity)
  deriving DecidableEq

/-- The event that an effect amounts to for a context. -/
def Effect.event (serial : Nat) : Effect → Event
  | .called call => .handled serial call
  | .mutate mutation => .context serial (.mutate mutation)

/-- What creating a context needs, read from the general rule. Language, output path and project file
are required, in this order; assembly and project names default to the stems of those paths, the
identity to the project's name. -/
def Evaluation.creationParams (e : Evaluation) : Except SyncError CreationParams := do
  let required (name : String) : Except SyncError String :=
    match e.property? WellKnown.generalRule name with
    | some value => .ok value
    | none => .error (.missingProperty WellKnown.generalRule name)
  let language ← required WellKnown.language
  let outputPath ← required WellKnown.targetPath
  let projectFilePath ← required WellKnown.projectFullPath
  let optional (name : String) : Option String := e.property? WellKnown.generalRule name
  let assemblyName := (optional WellKnown.assemblyName).getD (Text.Path.stemOf outputPath)
  let projectName := (optional WellKnown.projectName).getD (Text.Path.stemOf projectFilePath)
  let identity := (optional WellKnown.projectGuid).getD projectName
  let slice := e.project.slice
  return {
    id := .ofSlice projectFilePath identity slice
    language
    displayName := displayName projectName slice
    projectFilePath
    outputPath
    assemblyName
    slice }

/-- What the parameters of a context say of the evaluation that gives them. -/
structure CreationParams.Describes (params : CreationParams) (e : Evaluation) : Prop where
  language : e.property? WellKnown.generalRule WellKnown.language = some params.language
  outputPath : e.property? WellKnown.generalRule WellKnown.targetPath = some params.outputPath
  projectFilePath :
    e.property? WellKnown.generalRule WellKnown.projectFullPath = some params.projectFilePath
  displayName : params.displayName = SliceSync.displayName
    ((e.property? WellKnown.generalRule WellKnown.projectName).getD
      (Text.Path.stemOf params.projectFilePath)) e.project.slice
  id : params.id = .ofSlice params.projectFilePath
    ((e.property? WellKnown.generalRule WellKnown.projectGuid).getD
      ((e.property? WellKnown.generalRule WellKnown.projectName).getD
        (Text.Path.stemOf params.projectFilePath))) e.project.slice

theorem Evaluation.describes_of_creationParams {e : Evaluation} {params : CreationParams}
    (h : e.creationParams = .ok params) : params.Describes e := by
  unfold creationParams at h
  simp only [bind, Except.bind] at h
  cases hlanguage : e.property? WellKnown.generalRule WellKnown.language with
  | none => rw [hlanguage] at h; cases h
  | some language =>
    cases houtput : e.property? WellKnown.generalRule WellKnown.targetPath with
    | none => rw [hlanguage, houtput] at h; cases h
    | some output =>
      cases hpath : e.property? WellKnown.generalRule WellKnown.projectFullPath with
      | none => rw [hlanguage, houtput, hpath] at h; cases h
      | some path =>
        rw [hlanguage, houtput, hpath] at h
        cases h
        exact ⟨hlanguage, houtput, hpath, rfl, rfl⟩

namespace Session

def isLive (s : Session) (id : ContextId) : Bool := s.live.contains id

/-- Creates the context an evaluation describes. Nothing is asked of the factory while the id is
taken, and nothing is taken when the factory refuses. -/
def create (s : Session) (env : Environment) (registry : Registry) (e : Evaluation) :
    Except SyncError (Session × ContextHandle × List Event) :=
  match e.creationParams with
  | .error error => .error error
  | .ok params =>
    if s.isLive params.id then .error (.duplicateContext params.id)
    else
      match env.refused with
      | some error => .error error
      | none =>
        .ok ({ s with live := s.live ++ [params.id], created := s.created + 1 },
          ⟨s.created, params.id, registry.resolve e.project⟩, [.created s.created params])

/-- The first part of a release: the context is told to go. -/
def beginRelease (h : ContextHandle) : List Event := [.context h.serial .dispose]

/-- The rest of a release, once the context is gone: the handlers drop what they remember and the id
is free again. -/
def finishRelease (s : Session) (h : ContextHandle) : Session × List Event :=
  ({ s with live := s.live.filter (· ≠ h.id) },
    h.handlers.release.2.map fun m => .released h.serial m.1 m.2 h.id)

variable {s s' : Session} {env : Environment} {registry : Registry} {e : Evaluation} {h : ContextHandle}
  {events : List Event} {error : SyncError}

/-- A context is created where an evaluation describes one, its id is free and the factory does not refuse. -/
theorem of_create_ok (hc : s.create env registry e = .ok (s', h, events)) :
    ∃ params, e.creationParams = .ok params ∧ params.id ∉ s.live ∧ env.refused = none ∧
      s' = { s with live := s.live ++ [params.id], created := s.created + 1 } ∧
      h = ⟨s.created, params.id, registry.resolve e.project⟩ ∧ events = [.created s.created params] := by
  unfold create at hc
  split at hc
  · cases hc
  · rename_i params hparams
    split at hc
    · cases hc
    · rename_i hlive
      split at hc
      · cases hc
      · rename_i hrefused
        cases hc
        exact ⟨params, hparams, by simpa [isLive] using hlive, hrefused, rfl, rfl, rfl⟩

/-- Else one of these is the error. -/
theorem of_create_error (hc : s.create env registry e = .error error) :
    e.creationParams = .error error ∨
      (∃ params, e.creationParams = .ok params ∧ params.id ∈ s.live ∧ error = .duplicateContext params.id) ∨
        env.refused = some error := by
  unfold create at hc
  split at hc
  · rename_i other hparams
    cases hc
    exact .inl hparams
  · rename_i params hparams
    split at hc
    · rename_i hlive
      cases hc
      exact .inr (.inl ⟨params, hparams, by simpa [isLive] using hlive, rfl⟩)
    · split at hc
      · rename_i other hrefused
        cases hc
        exact .inr (.inr hrefused)
      · cases hc

/-- A context is created with what its evaluation describes. -/
theorem create_params (hc : s.create env registry e = .ok (s', h, events)) :
    ∃ params, e.creationParams = .ok params ∧ h.id = params.id ∧ events = [.created h.serial params] := by
  obtain ⟨params, hparams, -, -, -, rfl, rfl⟩ := of_create_ok hc
  exact ⟨params, hparams, rfl, rfl⟩

theorem create_live (hc : s.create env registry e = .ok (s', h, events)) :
    s'.live = s.live ++ [h.id] ∧ h.id ∉ s.live ∧ s'.active = s.active := by
  obtain ⟨params, -, hfree, -, rfl, rfl, -⟩ := of_create_ok hc
  exact ⟨rfl, hfree, rfl⟩

end Session

end SliceSync
