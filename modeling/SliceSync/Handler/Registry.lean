import SliceSync.Handler.Set
/-!
# The registry of handlers

Handlers are registered by kind, with the capabilities a project must have for them; handlers of
evaluations also with their rule. `resolve` makes, for one project, the handlers that apply to it:
those of one rule together, rules in the order of their first registration.
-/

namespace SliceSync

/-- What is made when a handler of evaluations applies. -/
inductive EvaluationMaker
  | projectProperties
  | external (name : String)
  deriving DecidableEq, Repr

/-- What is made when a handler of source items applies. -/
inductive ItemMaker
  | files (name itemType : String) (list : PathList)
  | external (name : String)
  deriving DecidableEq, Repr

/-- What is made when a handler of argument lists applies. -/
inductive ArgumentMaker
  | references (name : String) (list : PathList)
  | external (name : String)
  deriving DecidableEq, Repr

/-- A maker with the capabilities a project must have. -/
structure Registration (μ : Type) where
  maker : μ
  requires : List String := []
  deriving DecidableEq, Repr

def Registration.appliesTo {μ : Type} (r : Registration μ) (project : Project) : Bool :=
  r.requires.all project.hasCapability

namespace EvaluationMaker

def make (m : EvaluationMaker) (project : Project) : EvaluationHandler :=
  match m with
  | projectProperties => .projectProperties project.slice
  | external name => .external name

end EvaluationMaker

namespace ItemMaker

def make (m : ItemMaker) (project : Project) : ItemHandler :=
  match m with
  | files name itemType list =>
    .files name { itemType, list, directory := Text.Path.directoryOf project.path }
  | external name => .external name

end ItemMaker

namespace ArgumentMaker

def make : ArgumentMaker → ArgumentHandler
  | references name list => .references name { list }
  | external name => .external name

end ArgumentMaker

structure Registry where
  /-- By rule, rules in the order of their first registration. -/
  evaluation : Listing String (List (Registration EvaluationMaker)) := ∅
  arguments : List (Registration ArgumentMaker) := []
  items : List (Registration ItemMaker) := []
  deriving DecidableEq, Inhabited

namespace Registry

def registerEvaluation (r : Registry) (rule : String) (m : EvaluationMaker)
    (requires : List String := []) : Registry :=
  { r with evaluation := r.evaluation.insert rule ((r.evaluation.get? rule).getD [] ++ [⟨m, requires⟩]) }

def registerArguments (r : Registry) (m : ArgumentMaker) (requires : List String := []) : Registry :=
  { r with arguments := r.arguments ++ [⟨m, requires⟩] }

def registerItems (r : Registry) (m : ItemMaker) (requires : List String := []) : Registry :=
  { r with items := r.items ++ [⟨m, requires⟩] }

/-- The registry of the handlers that are always wanted. -/
def standard : Registry :=
  ((((Registry.registerEvaluation {} WellKnown.generalRule .projectProperties).registerItems
        (.files "source_files" WellKnown.compileItems .sourceFiles)).registerItems
      (.files "additional_files" WellKnown.additionalFileItems .additionalFiles)).registerArguments
    (.references "metadata_references" .metadataReferences)).registerArguments
    (.references "analyzer_references" .analyzerReferences)

/-- The rules some handler follows, in the order of their first registration. -/
def evaluationRules (r : Registry) : List String := r.evaluation.keys

/-- The handlers that apply to a project. -/
def resolve (r : Registry) (project : Project) : HandlerSet where
  evaluation := r.evaluation.toList.flatMap fun e =>
    (e.2.filter (·.appliesTo project)).map fun reg => (e.1, reg.maker.make project)
  arguments := (r.arguments.filter (·.appliesTo project)).map fun reg => reg.maker.make
  items := (r.items.filter (·.appliesTo project)).map fun reg => reg.maker.make project

end Registry

end SliceSync
