import SliceSync.Environment
import SliceSync.Text.Path
import SliceSync.WellKnown
/-!
# Handlers

A handler turns one kind of change into mutations of the context. Handlers of evaluations keep the
names in line with the project properties; handlers of source items keep a list of files; handlers of
argument lists keep a list of references. What a handler has put into the context it remembers, so
that each path is added once and removed once: `ItemFiles.tracked` and `References.counts`.

A handler from outside is known by its name only; what it does is for the environment to say.
-/

namespace SliceSync

/-- Runs a step for each element in order, gathering what each yields. -/
def runAll {σ α μ : Type} (step : σ → α → σ × List μ) (s : σ) : List α → σ × List μ
  | [] => (s, [])
  | a :: rest =>
    let first := step s a
    let others := runAll step first.1 rest
    (others.1, first.2 ++ others.2)

section

variable {σ α μ : Type} {step : σ → α → σ × List μ} {P : σ → Prop} {s : σ}

/-- What every step keeps is kept. -/
theorem runAll_keeps (hstep : ∀ s a, P s → P (step s a).1) (hs : P s) (l : List α) : P (runAll step s l).1 := by
  induction l generalizing s with
  | nil => exact hs
  | cons a rest ih => exact ih (hstep s a hs)

/-- What is yielded is yielded by a step, and where that is taken what every step keeps still holds. -/
theorem mem_runAll (hstep : ∀ s a, P s → P (step s a).1) (hs : P s) {l : List α} {m : μ} (h : m ∈ (runAll step s l).2) :
    ∃ s' a, P s' ∧ m ∈ (step s' a).2 := by
  induction l generalizing s with
  | nil => cases h
  | cons a rest ih =>
    rcases List.mem_append.1 h with h | h
    · exact ⟨s, a, hs, h⟩
    · exact ih (hstep s a hs) h

end

/-! ## Source items -/

/-- The files of one item type, kept in one list of the context. -/
structure ItemFiles where
  itemType : String
  list : PathList
  /-- The directory from which item names are read. -/
  directory : String
  /-- The paths that are in the context. -/
  tracked : NameSet := ∅
  deriving DecidableEq

namespace ItemFiles

/-- Takes an item's file out of the context, if it is there. -/
def drop (f : ItemFiles) (item : String) : ItemFiles × List Mutation :=
  let path := Text.Path.resolveIn f.directory item
  if f.tracked.contains path then
    ({ f with tracked := NameMap.erase f.tracked path }, [.remove f.list path])
  else (f, [])

/-- Puts an item's file into the context, unless it is there. -/
def take (f : ItemFiles) (item : String) : ItemFiles × List Mutation :=
  let path := Text.Path.resolveIn f.directory item
  if f.tracked.contains path then (f, [])
  else ({ f with tracked := f.tracked.add path }, [.add f.list path])

/-- Follows the change of the item type: first what goes, then what comes. -/
def follow (f : ItemFiles) (changes : Listing String Change) : ItemFiles × List Mutation :=
  match changes.get? f.itemType with
  | none => (f, [])
  | some change =>
    let gone := runAll drop f change.difference.removedItems
    let come := runAll take gone.1 change.difference.addedItems
    (come.1, gone.2 ++ come.2)

end ItemFiles

/-! ## References -/

/-- The references that arguments name, kept in one list of the context. -/
structure References where
  list : PathList
  /-- How many arguments of the list applied last name each path. -/
  counts : NameMap Nat := ∅
  deriving DecidableEq

namespace References

/-- The paths that inputs name for a list of references. -/
def pathsOf (list : PathList) (inputs : Inputs) : List String :=
  match list with
  | .metadataReferences => inputs.metadataReferences
  | .analyzerReferences => inputs.analyzerReferences
  | .sourceFiles => inputs.sources
  | .additionalFiles => inputs.additionalFiles

/-- One more argument names the path: it enters the context if none did. -/
def acquire (r : References) (path : String) : References × List Mutation :=
  match r.counts.get? path with
  | none => ({ r with counts := r.counts.insert path 1 }, [.add r.list path])
  | some n => ({ r with counts := r.counts.insert path (n + 1) }, [])

/-- One argument less names the path: it leaves the context if none is left. -/
def release (r : References) (path : String) : References × List Mutation :=
  match r.counts.get? path with
  | none => (r, [])
  | some n =>
    if 1 < n then ({ r with counts := r.counts.insert path (n - 1) }, [])
    else ({ r with counts := r.counts.erase path }, [.remove r.list path])

/-- Follows a change of the argument list. Added arguments count first, so that a path which moves
to another argument stays in the context. -/
def follow (r : References) (difference : ArgumentDifference) : References × List Mutation :=
  let come := runAll acquire r (pathsOf r.list difference.addedInputs)
  let gone := runAll release come.1 (pathsOf r.list difference.removedInputs)
  (gone.1, come.2 ++ gone.2)

end References

/-! ## The handlers of each kind -/

/-- A handler of evaluations. -/
inductive EvaluationHandler
  /-- Keeps display name and output path; the slice is that of the project it was made for. -/
  | projectProperties (slice : Slice)
  | external (name : String)
  deriving DecidableEq

/-- A handler of source items. -/
inductive ItemHandler
  | files (name : String) (files : ItemFiles)
  | external (name : String)
  deriving DecidableEq

/-- A handler of argument lists. -/
inductive ArgumentHandler
  | references (name : String) (references : References)
  | external (name : String)
  deriving DecidableEq

/-- The mutations that bring display name and output path in line with a change of the general
rule. A property that turned blank leaves them as they are. -/
def propertyMutations (slice : Slice) (change : Change) : List Mutation :=
  let follow (name : String) (mutation : String → Mutation) : List Mutation :=
    if change.difference.changesProperty name then
      ((change.after.property? name).map mutation).toList
    else []
  follow WellKnown.projectName (fun name => .setDisplayName (displayName name slice)) ++
    follow WellKnown.targetPath .setOutputPath

namespace EvaluationHandler

def name : EvaluationHandler → String
  | projectProperties _ => "project_properties"
  | external name => name

def isExternal : EvaluationHandler → Bool
  | projectProperties _ => false
  | external _ => true

end EvaluationHandler

namespace ItemHandler

def name : ItemHandler → String
  | files name _ => name
  | external name => name

def isExternal : ItemHandler → Bool
  | files .. => false
  | external _ => true

end ItemHandler

namespace ArgumentHandler

def name : ArgumentHandler → String
  | references name _ => name
  | external name => name

def isExternal : ArgumentHandler → Bool
  | references .. => false
  | external _ => true

end ArgumentHandler

end SliceSync
