import SliceSync.Proofs.Counts
import SliceSync.Proofs.Passages
/-!
# The standard handlers

What the handlers of the standard registry remember for a context is a `Kept`; a round of calls takes one
`Kept` to the next, tells the context what its handlers do one after the other, and never fails
(`standard_applyBoth`, `standard_applyArguments`).
-/

namespace SliceSync

/-! ## Files of one item type -/

namespace ItemFiles

theorem drop_frame (f : ItemFiles) (item : String) :
    (f.drop item).1.list = f.list ∧ (f.drop item).1.directory = f.directory ∧
      (f.drop item).1.itemType = f.itemType := by
  unfold drop
  dsimp only
  split <;> exact ⟨rfl, rfl, rfl⟩

theorem take_frame (f : ItemFiles) (item : String) :
    (f.take item).1.list = f.list ∧ (f.take item).1.directory = f.directory ∧
      (f.take item).1.itemType = f.itemType := by
  unfold take
  dsimp only
  split <;> exact ⟨rfl, rfl, rfl⟩

/-- A round of steps keeps what every step keeps. -/
theorem runAll_frame {step : ItemFiles → String → ItemFiles × List Mutation}
    (h : ∀ f item, (step f item).1.list = f.list ∧ (step f item).1.directory = f.directory ∧
      (step f item).1.itemType = f.itemType) (f : ItemFiles) (items : List String) :
    (runAll step f items).1.list = f.list ∧ (runAll step f items).1.directory = f.directory ∧
      (runAll step f items).1.itemType = f.itemType := by
  refine runAll_keeps (P := fun g : ItemFiles => g.list = f.list ∧ g.directory = f.directory ∧ g.itemType = f.itemType)
    (fun g item hg => ?_) ⟨rfl, rfl, rfl⟩ items
  obtain ⟨hl, hd, ht⟩ := h g item
  exact ⟨hl.trans hg.1, hd.trans hg.2.1, ht.trans hg.2.2⟩

theorem follow_frame (f : ItemFiles) (changes : Listing String Change) :
    (f.follow changes).1.list = f.list ∧ (f.follow changes).1.directory = f.directory ∧
      (f.follow changes).1.itemType = f.itemType := by
  unfold follow
  cases changes.get? f.itemType with
  | none => exact ⟨rfl, rfl, rfl⟩
  | some change =>
    obtain ⟨hl, hd, ht⟩ := runAll_frame drop_frame f change.difference.removedItems
    obtain ⟨hl', hd', ht'⟩ := runAll_frame take_frame (runAll drop f change.difference.removedItems).1
      change.difference.addedItems
    exact ⟨hl'.trans hl, hd'.trans hd, ht'.trans ht⟩

theorem drop_part {f : ItemFiles} {item : String} {m : Mutation} (h : m ∈ (f.drop item).2) :
    m.part = .paths f.list := by
  unfold drop at h
  dsimp only at h
  split at h
  · rw [List.mem_singleton.1 h]
    rfl
  · cases h

theorem take_part {f : ItemFiles} {item : String} {m : Mutation} (h : m ∈ (f.take item).2) :
    m.part = .paths f.list := by
  unfold take at h
  dsimp only at h
  split at h
  · cases h
  · rw [List.mem_singleton.1 h]
    rfl

theorem runAll_part {step : ItemFiles → String → ItemFiles × List Mutation}
    (hf : ∀ f item, (step f item).1.list = f.list)
    (hp : ∀ {f item m}, m ∈ (step f item).2 → m.part = .paths f.list) {f : ItemFiles} {items : List String}
    {m : Mutation} (h : m ∈ (runAll step f items).2) : m.part = .paths f.list := by
  obtain ⟨g, item, hg, hm⟩ :=
    mem_runAll (P := fun g : ItemFiles => g.list = f.list) (fun g item hg => (hf g item).trans hg) rfl h
  rw [hp hm, hg]

/-- A handler changes its own list only. -/
theorem follow_part {f : ItemFiles} {changes : Listing String Change} {m : Mutation}
    (h : m ∈ (f.follow changes).2) : m.part = .paths f.list := by
  unfold follow at h
  cases hc : changes.get? f.itemType with
  | none =>
    rw [hc] at h
    cases h
  | some change =>
    rw [hc] at h
    rcases List.mem_append.1 h with h | h
    · exact runAll_part (fun f item => (drop_frame f item).1) drop_part h
    · have := runAll_part (fun f item => (take_frame f item).1) take_part h
      rwa [(runAll_frame drop_frame f change.difference.removedItems).1] at this

end ItemFiles

/-! ## All of them -/

/-- What the standard handlers of a context remember. -/
structure Kept where
  slice : Slice
  sources : ItemFiles
  additional : ItemFiles
  metadata : References
  analyzers : References

/-- The standard handlers. -/
def HandlerSet.standard (k : Kept) : HandlerSet where
  evaluation := [(WellKnown.generalRule, .projectProperties k.slice)]
  arguments := [.references "metadata_references" k.metadata, .references "analyzer_references" k.analyzers]
  items := [.files "source_files" k.sources, .files "additional_files" k.additional]

namespace Kept

/-- What the handlers just made for a project remember. -/
def ofProject (project : Project) : Kept where
  slice := project.slice
  sources :=
    { itemType := WellKnown.compileItems
      list := .sourceFiles
      directory := Text.Path.directoryOf project.path }
  additional :=
    { itemType := WellKnown.additionalFileItems
      list := .additionalFiles
      directory := Text.Path.directoryOf project.path }
  metadata := { list := .metadataReferences }
  analyzers := { list := .analyzerReferences }

/-- After the changes of source items. -/
def withItems (k : Kept) (items : Listing String Change) : Kept :=
  { k with sources := (k.sources.follow items).1, additional := (k.additional.follow items).1 }

/-- After a change of the argument list. -/
def withArguments (k : Kept) (d : ArgumentDifference) : Kept :=
  { k with metadata := (k.metadata.follow d).1, analyzers := (k.analyzers.follow d).1 }

/-- What the context is told of a change of the general rule. -/
def propertyMutations (k : Kept) (rules : NameMap Change) : List Mutation :=
  match rules.get? WellKnown.generalRule with
  | some change => if change.hasChanges then SliceSync.propertyMutations k.slice change else []
  | none => []

/-- What the context is told in the rounds of an evaluation. -/
def evaluationMutations (k : Kept) (rules : NameMap Change) (items : Listing String Change) :
    List Mutation :=
  k.propertyMutations rules ++ ((k.sources.follow items).2 ++ (k.additional.follow items).2)

/-- What the context is told in the round of a build. -/
def referenceMutations (k : Kept) (d : ArgumentDifference) : List Mutation :=
  (k.metadata.follow d).2 ++ (k.analyzers.follow d).2

end Kept

theorem resolve_standard (project : Project) :
    Registry.standard.resolve project = .standard (.ofProject project) := rfl

namespace HandlerSet

variable (k : Kept) (env : Environment) (activity : Activity)

theorem callEvaluation_projectProperties (rules : NameMap Change) (position : Nat) :
    (callEvaluation env rules activity position (WellKnown.generalRule, .projectProperties k.slice)).state =
        (WellKnown.generalRule, .projectProperties k.slice) ∧
      (callEvaluation env rules activity position
        (WellKnown.generalRule, .projectProperties k.slice)).failure = none ∧
      Effect.mutations (callEvaluation env rules activity position
        (WellKnown.generalRule, .projectProperties k.slice)).effects = k.propertyMutations rules := by
  unfold callEvaluation Kept.propertyMutations
  dsimp only
  cases rules.get? WellKnown.generalRule with
  | none => exact ⟨rfl, rfl, rfl⟩
  | some change =>
    dsimp only
    cases change.hasChanges with
    | false => exact ⟨rfl, rfl, rfl⟩
    | true => exact ⟨rfl, rfl, by simp⟩

theorem standard_applyEvaluation (rules : NameMap Change) :
    ((standard k).applyEvaluation env rules activity).state = standard k ∧
      ((standard k).applyEvaluation env rules activity).failure = none ∧
      Effect.mutations ((standard k).applyEvaluation env rules activity).effects =
        k.propertyMutations rules := by
  obtain ⟨hs, hf, he⟩ := callEvaluation_projectProperties k env activity rules 0
  unfold applyEvaluation
  simp only [standard, callUntilFailure, hf, hs, List.append_nil, he, and_self]

theorem standard_applyItems (items : Listing String Change) :
    ((standard k).applyItems env items activity).state = standard (k.withItems items) ∧
      ((standard k).applyItems env items activity).failure = none ∧
      Effect.mutations ((standard k).applyItems env items activity).effects =
        (k.sources.follow items).2 ++ (k.additional.follow items).2 := by
  refine ⟨rfl, rfl, ?_⟩
  simp [applyItems, standard, callUntilFailure, callItems]

/-- Both rounds of an evaluation. -/
theorem standard_applyBoth (rules : NameMap Change) (items : Listing String Change) :
    ((standard k).applyBoth env rules items activity).state = standard (k.withItems items) ∧
      ((standard k).applyBoth env rules items activity).failure = none ∧
      Effect.mutations ((standard k).applyBoth env rules items activity).effects =
        k.evaluationMutations rules items := by
  obtain ⟨hs, hf, he⟩ := standard_applyEvaluation k env activity rules
  obtain ⟨hs', hf', he'⟩ := standard_applyItems k env activity items
  unfold applyBoth Kept.evaluationMutations
  simp only [hs, hf, hs', hf', Effect.mutations_append, he, he', and_self]

/-- The round of a build. -/
theorem standard_applyArguments (d : ArgumentDifference) :
    ((standard k).applyArguments env d activity).state = standard (k.withArguments d) ∧
      ((standard k).applyArguments env d activity).failure = none ∧
      Effect.mutations ((standard k).applyArguments env d activity).effects = k.referenceMutations d := by
  refine ⟨rfl, rfl, ?_⟩
  simp [Kept.referenceMutations, applyArguments, standard, callUntilFailure, callArguments]

end HandlerSet

/-- Properties change names only. -/
theorem propertyMutations_part {slice : Slice} {change : Change} {m : Mutation}
    (h : m ∈ propertyMutations slice change) : m.part = .displayName ∨ m.part = .outputPath := by
  unfold propertyMutations at h
  rcases List.mem_append.1 h with h | h
  · dsimp only at h
    split at h
    · obtain ⟨name, -, rfl⟩ := Option.map_eq_some_iff.1 (Option.mem_toList.1 h)
      exact .inl rfl
    · cases h
  · dsimp only at h
    split at h
    · obtain ⟨path, -, rfl⟩ := Option.map_eq_some_iff.1 (Option.mem_toList.1 h)
      exact .inr rfl
    · cases h

theorem Kept.propertyMutations_part {k : Kept} {rules : NameMap Change} {m : Mutation}
    (h : m ∈ k.propertyMutations rules) : m.part = .displayName ∨ m.part = .outputPath := by
  unfold propertyMutations at h
  cases hc : rules.get? WellKnown.generalRule with
  | none =>
    rw [hc] at h
    cases h
  | some change =>
    rw [hc] at h
    dsimp only at h
    split at h
    · exact SliceSync.propertyMutations_part h
    · cases h

/-- An evaluation changes names and files, a build references. -/
theorem Kept.evaluationMutations_part {k : Kept} {rules : NameMap Change} {items : Listing String Change}
    {m : Mutation} (h : m ∈ k.evaluationMutations rules items) :
    m.part = .displayName ∨ m.part = .outputPath ∨ m.part = .paths k.sources.list ∨
      m.part = .paths k.additional.list := by
  rcases List.mem_append.1 h with h | h
  · rcases propertyMutations_part h with h | h
    · exact .inl h
    · exact .inr (.inl h)
  · rcases List.mem_append.1 h with h | h
    · exact .inr (.inr (.inl (ItemFiles.follow_part h)))
    · exact .inr (.inr (.inr (ItemFiles.follow_part h)))

theorem Kept.referenceMutations_part {k : Kept} {d : ArgumentDifference} {m : Mutation}
    (h : m ∈ k.referenceMutations d) :
    m.part = .paths k.metadata.list ∨ m.part = .paths k.analyzers.list := by
  rcases List.mem_append.1 h with h | h
  · exact .inl (References.follow_part h)
  · exact .inr (References.follow_part h)

end SliceSync
