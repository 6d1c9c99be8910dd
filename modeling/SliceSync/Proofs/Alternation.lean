import SliceSync.Proofs.Files
import SliceSync.Proofs.Plain
import SliceSync.Proofs.Streams
import SliceSync.Proofs.Turns
/-!
# Paths are added and removed in turns

The differences that handlers are told need not match what they hold: they come again after a failure, and they
name one item twice, or one path under several names. What a handler remembers of a path is nonetheless what it
told its context last: each of its steps either keeps silent and leaves the path as it is, or turns it (`Turning`).

Main statement: `Registry.standard_alternates`.
-/

namespace SliceSync

/-! ## Calls in turns -/

/-- Calls in which a path is added to a list and removed from it in turns. They begin with the path held or not
held, and end so. -/
inductive Alternates (list : PathList) (path : String) : Bool → List Mutation → Bool → Prop
  | nothing (held : Bool) : Alternates list path held [] held
  | add {l : List Mutation} {held : Bool} (h : Alternates list path true l held) :
      Alternates list path false (.add list path :: l) held
  | remove {l : List Mutation} {held : Bool} (h : Alternates list path false l held) :
      Alternates list path true (.remove list path :: l) held
  /-- A call that is not about the path in this list. -/
  | other {m : Mutation} {l : List Mutation} {before after : Bool} (ha : m ≠ .add list path)
      (hr : m ≠ .remove list path) (h : Alternates list path before l after) :
      Alternates list path before (m :: l) after

namespace Alternates

variable {list : PathList} {path : String} {before held after : Bool} {l m : List Mutation}

theorem append (h : Alternates list path before l held) (h' : Alternates list path held m after) :
    Alternates list path before (l ++ m) after := by
  induction h with
  | nothing _ => exact h'
  | add _ ih => exact .add (ih h')
  | remove _ ih => exact .remove (ih h')
  | other ha hr _ ih => exact .other ha hr (ih h')

/-- Calls about other parts of the context. -/
theorem of_part (h : ∀ m ∈ l, m.part ≠ .paths list) (held : Bool) : Alternates list path held l held := by
  induction l with
  | nil => exact .nothing held
  | cons m rest ih =>
    have hm := h m List.mem_cons_self
    refine .other ?_ ?_ (ih fun m' hm' => h m' (List.mem_cons_of_mem m hm'))
    · rintro rfl
      exact hm rfl
    · rintro rfl
      exact hm rfl

theorem add_of_ne {other : String} (h : other ≠ path) (held : Bool) :
    Alternates list path held [.add list other] held :=
  .other (fun heq => h (Mutation.add.inj heq).2) nofun (.nothing held)

theorem remove_of_ne {other : String} (h : other ≠ path) (held : Bool) :
    Alternates list path held [.remove list other] held :=
  .other nofun (fun heq => h (Mutation.remove.inj heq).2) (.nothing held)

end Alternates

/-- A step that keeps an invariant and turns what is held of a path just as it tells. -/
def Turning {σ α : Type} (list : PathList) (path : String) (Inv : σ → Prop) (holds : σ → Bool)
    (step : σ → α → σ × List Mutation) : Prop :=
  ∀ s, Inv s → ∀ a, Inv (step s a).1 ∧ Alternates list path (holds s) (step s a).2 (holds (step s a).1)

theorem Turning.runAll {σ α : Type} {list : PathList} {path : String} {Inv : σ → Prop} {holds : σ → Bool}
    {step : σ → α → σ × List Mutation} (h : Turning list path Inv holds step) :
    Turning list path Inv holds (runAll step) := by
  intro s hs as
  induction as generalizing s with
  | nil => exact ⟨hs, .nothing _⟩
  | cons a rest ih =>
    obtain ⟨hnext, hturns⟩ := h s hs a
    obtain ⟨hend, hrest⟩ := ih _ hnext
    rw [runAll_cons]
    exact ⟨hend, hturns.append hrest⟩

/-! ## Files -/

namespace ItemFiles

/-- Takes out the files of the items that went and puts in those of the items that came. -/
def settle (f : ItemFiles) (d : Difference) : ItemFiles × List Mutation :=
  let gone := runAll drop f d.removedItems
  let come := runAll take gone.1 d.addedItems
  (come.1, gone.2 ++ come.2)

/-- Follows the difference of the item type, whether or not any two snapshots have it. -/
def obey (f : ItemFiles) (differences : Listing String Difference) : ItemFiles × List Mutation :=
  match differences.get? f.itemType with
  | none => (f, [])
  | some d => f.settle d

theorem follow_eq_obey (f : ItemFiles) (changes : Listing String Change) :
    f.follow changes = f.obey (changes.mapValues fun _ change => change.difference) := by
  rw [follow, obey, Listing.get?_mapValues]
  cases changes.get? f.itemType <;> rfl

/-- A handler of files for a list of the context. -/
abbrev Keeps (list : PathList) (f : ItemFiles) : Prop := f.list = list

/-- Whether a path is in the context. -/
abbrev tracks (path : String) (f : ItemFiles) : Bool := f.tracked.contains path

variable (list : PathList) (path : String)

theorem turning_drop : Turning list path (Keeps list) (tracks path) drop := by
  rintro f rfl item
  refine ⟨(drop_frame f item).1, ?_⟩
  rw [drop_eq]
  split
  case isTrue ht =>
    show Alternates _ _ _ _ (NameMap.contains (NameMap.erase f.tracked (f.pathOf item)) path)
    rw [NameSet.contains_erase, tracks]
    by_cases heq : f.pathOf item = path
    · subst heq
      rw [ht]
      simpa using Alternates.remove (.nothing false)
    · simpa [heq] using Alternates.remove_of_ne heq (f.tracked.contains path)
  case isFalse => exact .nothing _

theorem turning_take : Turning list path (Keeps list) (tracks path) take := by
  rintro f rfl item
  refine ⟨(take_frame f item).1, ?_⟩
  rw [take_eq]
  split
  case isTrue => exact .nothing _
  case isFalse ht =>
    show Alternates _ _ _ _ ((f.tracked.add (f.pathOf item)).contains path)
    rw [NameSet.contains_add, tracks]
    by_cases heq : f.pathOf item = path
    · subst heq
      rw [Bool.eq_false_iff.2 ht]
      simpa using Alternates.add (.nothing true)
    · simpa [heq] using Alternates.add_of_ne heq (f.tracked.contains path)

theorem turning_obey : Turning list path (Keeps list) (tracks path) obey := by
  intro f hf differences
  unfold obey
  cases differences.get? f.itemType with
  | none => exact ⟨hf, .nothing _⟩
  | some d =>
    obtain ⟨hlist, hgone⟩ := (turning_drop list path).runAll f hf d.removedItems
    obtain ⟨hend, hcome⟩ := (turning_take list path).runAll _ hlist d.addedItems
    exact ⟨hend, hgone.append hcome⟩

theorem obey_frame (f : ItemFiles) (differences : Listing String Difference) :
    (f.obey differences).1.list = f.list ∧ (f.obey differences).1.itemType = f.itemType := by
  unfold obey
  cases differences.get? f.itemType with
  | none => exact ⟨rfl, rfl⟩
  | some d =>
    obtain ⟨hl, -, ht⟩ := runAll_frame drop_frame f d.removedItems
    obtain ⟨hl', -, ht'⟩ := runAll_frame take_frame (runAll drop f d.removedItems).1 d.addedItems
    exact ⟨hl'.trans hl, ht'.trans ht⟩

variable {list path}

/-- A handler leaves the other lists alone. -/
theorem obey_aside {f : ItemFiles} (h : f.list ≠ list) (differences : Listing String Difference) (held : Bool) :
    Alternates list path held (f.obey differences).2 held := by
  refine .of_part (fun m hm heq => h ?_) held
  unfold obey at hm
  cases hd : differences.get? f.itemType with
  | none =>
    rw [hd] at hm
    cases hm
  | some d =>
    rw [hd] at hm
    rcases List.mem_append.1 hm with hm | hm
    · exact Part.paths.inj ((runAll_part (fun f item => (drop_frame f item).1) drop_part hm).symm.trans heq)
    · have hpart := runAll_part (fun f item => (take_frame f item).1) take_part hm
      rw [(runAll_frame drop_frame f d.removedItems).1] at hpart
      exact Part.paths.inj (hpart.symm.trans heq)

end ItemFiles

/-! ## References -/

namespace References

/-- A handler of references for a list of the context. -/
abbrev Keeps (list : PathList) (r : References) : Prop := r.list = list

/-- Whether a path is in the context. -/
abbrev counted (path : String) (r : References) : Bool := (r.counts.get? path).isSome

variable (list : PathList) (path : String)

theorem turning_acquire : Turning list path (Keeps list) (counted path) acquire := by
  rintro r rfl other
  refine ⟨acquire_list r other, ?_⟩
  unfold acquire counted
  by_cases heq : other = path
  · subst heq
    cases r.counts.get? other with
    | none => simpa using Alternates.add (.nothing true)
    | some n => simpa using Alternates.nothing true
  · cases r.counts.get? other with
    | none => simpa [heq] using Alternates.add_of_ne heq (r.counts.get? path).isSome
    | some n => simpa [heq] using Alternates.nothing (r.counts.get? path).isSome

theorem turning_release : Turning list path (Keeps list) (counted path) release := by
  rintro r rfl other
  refine ⟨release_list r other, ?_⟩
  unfold release counted
  cases hc : r.counts.get? other with
  | none => exact .nothing _
  | some n =>
    dsimp only
    by_cases hn : 1 < n
    · -- another argument still names it
      rw [if_pos hn]
      by_cases heq : other = path
      · subst heq
        simpa [hc] using Alternates.nothing true
      · simpa [heq] using Alternates.nothing (r.counts.get? path).isSome
    · rw [if_neg hn]
      by_cases heq : other = path
      · subst heq
        simpa [hc] using Alternates.remove (.nothing false)
      · simpa [heq] using Alternates.remove_of_ne heq (r.counts.get? path).isSome

theorem turning_follow : Turning list path (Keeps list) (counted path) follow := by
  intro r hr d
  obtain ⟨hlist, hcome⟩ := (turning_acquire list path).runAll r hr (pathsOf r.list d.addedInputs)
  obtain ⟨hend, hgone⟩ := (turning_release list path).runAll _ hlist (pathsOf r.list d.removedInputs)
  exact ⟨hend, hcome.append hgone⟩

variable {list path}

/-- A handler leaves the other lists alone. -/
theorem follow_aside {r : References} (h : r.list ≠ list) (d : ArgumentDifference) (held : Bool) :
    Alternates list path held (r.follow d).2 held :=
  .of_part (fun _ hm heq => h (Part.paths.inj ((follow_part hm).symm.trans heq))) held

/-- A path that is counted is named by an argument. -/
def Positive (r : References) : Prop := ∀ path n, r.counts.get? path = some n → 1 ≤ n

/-- Whatever arguments come and go, in whatever number, no count falls below one. -/
theorem Positive.turned {r : References} (h : r.Positive) (come gone : List String) :
    (runAll release (runAll acquire r come).1 gone).1.Positive := by
  intro path n hn
  rw [get?_runAll_release, get?_runAll_acquire, turn_come_gone, turn] at hn
  split at hn
  case isTrue => exact h path n hn
  case isFalse =>
    split at hn
    case isTrue => cases hn
    case isFalse =>
      cases hn
      omega

end References

/-! ## All handlers of a context -/

/-- A call of the handlers of a context, with source items or with the arguments of a build. -/
inductive Delivery
  | changes (env : Environment) (changes : Listing String Change) (activity : Activity)
  /-- Bare differences, which need not be those of two snapshots. -/
  | differences (differences : Listing String Difference)
  | arguments (env : Environment) (difference : ArgumentDifference) (activity : Activity)

/-- A handler of files follows bare differences. -/
def ItemHandler.obey (differences : Listing String Difference) : ItemHandler → ItemHandler × List Mutation
  | files name f => (files name (f.obey differences).1, (f.obey differences).2)
  | external name => (external name, [])

namespace HandlerSet

/-- What the handlers make of a call, and what they tell their context. -/
def deliver (s : HandlerSet) : Delivery → HandlerSet × List Mutation
  | .changes env changes activity =>
    ((s.applyItems env changes activity).state, Effect.mutations (s.applyItems env changes activity).effects)
  | .differences differences =>
    ({ s with items := s.items.map fun h => (h.obey differences).1 },
      s.items.flatMap fun h => (h.obey differences).2)
  | .arguments env difference activity =>
    ((s.applyArguments env difference activity).state,
      Effect.mutations (s.applyArguments env difference activity).effects)

/-- Whether a handler of the list remembers the path. -/
def holds (list : PathList) (path : String) (s : HandlerSet) : Bool :=
  s.items.any (fun
    | .files _ f => f.list = list && f.tracks path
    | .external _ => false) ||
  s.arguments.any (fun
    | .references _ r => r.list = list && r.counted path
    | .external _ => false)

/-- The standard handlers follow the bare differences of a change as they follow the change. -/
theorem deliver_changes (k : Kept) (env : Environment) (changes : Listing String Change) (activity : Activity) :
    (standard k).deliver (.changes env changes activity) =
      (standard k).deliver (.differences (changes.mapValues fun _ change => change.difference)) := by
  obtain ⟨hstate, -, heffects⟩ := standard_applyItems k env activity changes
  rw [deliver, hstate, heffects, Kept.withItems, ItemFiles.follow_eq_obey, ItemFiles.follow_eq_obey]
  simp [deliver, standard, ItemHandler.obey]

theorem deliver_differences (k : Kept) (differences : Listing String Difference) :
    (standard k).deliver (.differences differences) =
      (standard { k with
        sources := (k.sources.obey differences).1
        additional := (k.additional.obey differences).1 },
        (k.sources.obey differences).2 ++ (k.additional.obey differences).2) := by
  simp [deliver, standard, ItemHandler.obey]

theorem deliver_arguments (k : Kept) (env : Environment) (d : ArgumentDifference) (activity : Activity) :
    (standard k).deliver (.arguments env d activity) = (standard (k.withArguments d), k.referenceMutations d) := by
  obtain ⟨hstate, -, heffects⟩ := standard_applyArguments k env activity d
  rw [deliver, hstate, heffects]

theorem holds_standard {k : Kept} (h : k.Listed) (list : PathList) (path : String) :
    (standard k).holds list path =
      match list with
      | .sourceFiles => k.sources.tracks path
      | .additionalFiles => k.additional.tracks path
      | .metadataReferences => k.metadata.counted path
      | .analyzerReferences => k.analyzers.counted path := by
  cases list <;> simp [holds, standard, h.sources.1, h.additional.1, h.metadata, h.analyzers]

theorem turning_differences {k : Kept} (h : k.Listed) (differences : Listing String Difference) (list : PathList)
    (path : String) :
    (∃ k' : Kept, ((standard k).deliver (.differences differences)).1 = standard k' ∧ k'.Listed) ∧
      Alternates list path ((standard k).holds list path) ((standard k).deliver (.differences differences)).2
        (((standard k).deliver (.differences differences)).1.holds list path) := by
  rw [deliver_differences]
  obtain ⟨hs, hst⟩ := k.sources.obey_frame differences
  obtain ⟨ha, hat⟩ := k.additional.obey_frame differences
  have hl : Kept.Listed { k with
      sources := (k.sources.obey differences).1
      additional := (k.additional.obey differences).1 } :=
    ⟨h.metadata, h.analyzers, ⟨hs.trans h.sources.1, hst.trans h.sources.2⟩,
      ⟨ha.trans h.additional.1, hat.trans h.additional.2⟩⟩
  refine ⟨⟨_, rfl, hl⟩, ?_⟩
  rw [holds_standard h, holds_standard hl]
  -- one of the handlers has the list, and the other leaves it alone
  have hsources : list ≠ .sourceFiles → k.sources.list ≠ list := fun hne heq => hne (heq.symm.trans h.sources.1)
  have hadditional : list ≠ .additionalFiles → k.additional.list ≠ list :=
    fun hne heq => hne (heq.symm.trans h.additional.1)
  cases list with
  | sourceFiles =>
    exact (ItemFiles.turning_obey _ path _ h.sources.1 differences).2.append
      (ItemFiles.obey_aside (hadditional nofun) differences _)
  | additionalFiles =>
    exact (ItemFiles.obey_aside (hsources nofun) differences _).append
      (ItemFiles.turning_obey _ path _ h.additional.1 differences).2
  | metadataReferences =>
    exact (ItemFiles.obey_aside (hsources nofun) differences _).append
      (ItemFiles.obey_aside (hadditional nofun) differences _)
  | analyzerReferences =>
    exact (ItemFiles.obey_aside (hsources nofun) differences _).append
      (ItemFiles.obey_aside (hadditional nofun) differences _)

theorem turning_arguments {k : Kept} (h : k.Listed) (d : ArgumentDifference) (list : PathList) (path : String) :
    Alternates list path ((standard k).holds list path) (k.referenceMutations d)
      ((standard (k.withArguments d)).holds list path) := by
  rw [holds_standard h, holds_standard (h.withArguments d)]
  have hmetadata : list ≠ .metadataReferences → k.metadata.list ≠ list :=
    fun hne heq => hne (heq.symm.trans h.metadata)
  have hanalyzers : list ≠ .analyzerReferences → k.analyzers.list ≠ list :=
    fun hne heq => hne (heq.symm.trans h.analyzers)
  cases list with
  | metadataReferences =>
    exact (References.turning_follow _ path _ h.metadata d).2.append (References.follow_aside (hanalyzers nofun) d _)
  | analyzerReferences =>
    exact (References.follow_aside (hmetadata nofun) d _).append (References.turning_follow _ path _ h.analyzers d).2
  | sourceFiles =>
    exact (References.follow_aside (hmetadata nofun) d _).append (References.follow_aside (hanalyzers nofun) d _)
  | additionalFiles =>
    exact (References.follow_aside (hmetadata nofun) d _).append (References.follow_aside (hanalyzers nofun) d _)

/-- No handler counts a path that no argument names. -/
def Positive (s : HandlerSet) : Prop := ∀ name r, .references name r ∈ s.arguments → r.Positive

theorem Positive.withArguments {k : Kept} (h : (standard k).Positive) (d : ArgumentDifference) :
    (standard (k.withArguments d)).Positive := by
  intro name r hr
  rcases List.mem_cons.1 hr with hr | hr
  · cases hr
    exact (h _ _ List.mem_cons_self).turned _ _
  · cases List.mem_singleton.1 hr
    exact (h _ _ (List.mem_cons_of_mem _ List.mem_cons_self)).turned _ _

/-- The standard handlers, each for its list. -/
structure Standing (s : HandlerSet) : Prop where
  listed : ∃ k : Kept, s = standard k ∧ k.Listed
  positive : s.Positive

/-- Whatever the handlers are called with, they add and remove each path in turns. -/
theorem turning_deliver (list : PathList) (path : String) : Turning list path Standing (holds list path) deliver := by
  rintro s ⟨⟨k, rfl, hl⟩, hpositive⟩ delivery
  cases delivery with
  | changes env changes activity =>
    rw [deliver_changes]
    obtain ⟨hlisted, hturns⟩ := turning_differences hl (changes.mapValues fun _ change => change.difference) list path
    exact ⟨⟨hlisted, hpositive⟩, hturns⟩
  | differences differences =>
    obtain ⟨hlisted, hturns⟩ := turning_differences hl differences list path
    exact ⟨⟨hlisted, hpositive⟩, hturns⟩
  | arguments env d activity =>
    rw [deliver_arguments]
    exact ⟨⟨⟨_, rfl, hl.withArguments d⟩, hpositive.withArguments d⟩, turning_arguments hl d list path⟩

/-- The handlers just made for a project hold nothing. -/
theorem standing_ofProject (project : Project) : (standard (.ofProject project)).Standing := by
  refine ⟨⟨_, rfl, Kept.listed_ofProject project⟩, fun name r hr path n hn => ?_⟩
  rcases List.mem_cons.1 hr with hr | hr
  · cases hr
    cases hn
  · cases List.mem_singleton.1 hr
    cases hn

theorem holds_ofProject (project : Project) (list : PathList) (path : String) :
    (standard (.ofProject project)).holds list path = false := by
  rw [holds_standard (Kept.listed_ofProject project)]
  cases list <;> rfl

end HandlerSet

/-- The handlers made for a project may be called with any changes, differences and arguments, one after the
other. Each path is added to each list and removed from it in turns, first added, and remembered if it was added
last. No count falls below one, not even while the next arguments come and go. -/
theorem Registry.standard_alternates (project : Project) (deliveries : List Delivery) :
    (∀ list path, Alternates list path false
      (runAll HandlerSet.deliver (Registry.standard.resolve project) deliveries).2
      ((runAll HandlerSet.deliver (Registry.standard.resolve project) deliveries).1.holds list path)) ∧
    ∀ name r, .references name r ∈
        (runAll HandlerSet.deliver (Registry.standard.resolve project) deliveries).1.arguments →
      ∀ come gone path n,
        (runAll References.release (runAll References.acquire r come).1 gone).1.counts.get? path = some n →
          1 ≤ n := by
  rw [resolve_standard]
  have hstart := HandlerSet.standing_ofProject project
  refine ⟨fun list path => ?_, fun name r hr come gone path n hn => ?_⟩
  · have hturns := ((HandlerSet.turning_deliver list path).runAll _ hstart deliveries).2
    rwa [HandlerSet.holds_ofProject] at hturns
  · have hend := ((HandlerSet.turning_deliver .metadataReferences path).runAll _ hstart deliveries).1
    exact (hend.positive name r hr).turned come gone path n hn

end SliceSync
