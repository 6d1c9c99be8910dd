import SliceSync.Context
/-!
# The content of a context

What a context holds after its mutations: four sets of paths, the options, the names and the outcome
of the last build. `Content.replay` computes it from the mutations, so that what a context holds can be
compared with what it should hold.
-/

namespace SliceSync

/-- What a context holds. -/
structure Content where
  sourceFiles : NameSet := ∅
  metadataReferences : NameSet := ∅
  analyzerReferences : NameSet := ∅
  additionalFiles : NameSet := ∅
  options : List String := []
  displayName : String := ""
  outputPath : String := ""
  lastBuildSucceeded : Option Bool := none
  deriving DecidableEq, Inhabited

namespace Content

/-- The content of a context just created. -/
def ofParams (p : CreationParams) : Content where
  displayName := p.displayName
  outputPath := p.outputPath

def paths (c : Content) : PathList → NameSet
  | .sourceFiles => c.sourceFiles
  | .metadataReferences => c.metadataReferences
  | .analyzerReferences => c.analyzerReferences
  | .additionalFiles => c.additionalFiles

def setPaths (c : Content) (list : PathList) (paths : NameSet) : Content :=
  match list with
  | .sourceFiles => { c with sourceFiles := paths }
  | .metadataReferences => { c with metadataReferences := paths }
  | .analyzerReferences => { c with analyzerReferences := paths }
  | .additionalFiles => { c with additionalFiles := paths }

def apply (c : Content) : Mutation → Content
  | .add list path => c.setPaths list ((c.paths list).add path)
  | .remove list path => c.setPaths list (NameMap.erase (c.paths list) path)
  | .setOptions arguments => { c with options := arguments }
  | .setDisplayName name => { c with displayName := name }
  | .setOutputPath path => { c with outputPath := path }
  | .setLastBuildSucceeded succeeded => { c with lastBuildSucceeded := some succeeded }

/-- The content after all mutations, in order. -/
def replay (c : Content) (mutations : List Mutation) : Content := mutations.foldl apply c

@[simp] theorem paths_setPaths (c : Content) (list other : PathList) (paths : NameSet) :
    (c.setPaths list paths).paths other = if list = other then paths else c.paths other := by
  cases list <;> cases other <;> rfl

end Content

end SliceSync
