import SliceSync.Slice
/-!
# Contexts

A context is the model of one slice that language tools work on. It is told its files, references,
options and names by `Mutation`s, always between the start and the end of a batch. Its id is made of
the project path, the project's identity and the slice.
-/

namespace SliceSync

/-- The identity of a context among all that are live. -/
structure ContextId where
  text : String
  deriving DecidableEq, Repr, Inhabited

def ContextId.ofSlice (projectPath identity : String) (slice : Slice) : ContextId :=
  if slice.isDefault then ⟨projectPath ++ " (" ++ identity ++ ")"⟩
  else ⟨projectPath ++ " (" ++ identity ++ ") " ++ slice.display⟩

/-- The name shown for a slice of a project: `Project (net8.0, Debug)`. -/
def displayName (projectName : String) (slice : Slice) : String :=
  if slice.isDefault then projectName
  else projectName ++ " (" ++ String.intercalate ", " slice.values ++ ")"

/-- What is needed to create a context. -/
structure CreationParams where
  id : ContextId
  language : String
  displayName : String
  projectFilePath : String
  outputPath : String
  assemblyName : String
  slice : Slice
  deriving DecidableEq, Inhabited

/-- The four lists of paths a context keeps. -/
inductive PathList
  | sourceFiles
  | metadataReferences
  | analyzerReferences
  | additionalFiles
  deriving DecidableEq, Repr

/-- One thing a context is told inside a batch. -/
inductive Mutation
  | add (list : PathList) (path : String)
  | remove (list : PathList) (path : String)
  | setOptions (arguments : List String)
  | setDisplayName (name : String)
  | setOutputPath (path : String)
  | setLastBuildSucceeded (succeeded : Bool)
  deriving DecidableEq, Repr

/-- One call a context receives. -/
inductive ContextCall
  | startBatch
  | mutate (mutation : Mutation)
  | endBatch
  | dispose
  deriving DecidableEq, Repr

end SliceSync
