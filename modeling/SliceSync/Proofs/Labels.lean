import SliceSync.Proofs.Differences
import SliceSync.Proofs.SourceItems
/-!
# Display name and output path

A context is created with a display name and an output path, and the handler of properties sets them anew when
their property has changed. It compares raw values but sets trimmed ones, and passes over blank ones. What has been
set last is nonetheless what the last snapshot says in which the property is not blank (`Labels`).
-/

namespace SliceSync

open Workspace (rebased)

/-! ## What a context is labelled with -/

/-- The two labels of a context that follow a property of the project. -/
inductive Label
  | name
  | output

namespace Label

/-- The property that a label follows. -/
def property : Label → String
  | name => WellKnown.projectName
  | output => WellKnown.targetPath

/-- The label that goes with a value of its property. -/
def shown (slice : Slice) : Label → String → String
  | name, value => displayName value slice
  | output, value => value

/-- The label of a context. -/
def on (c : Content) : Label → String
  | name => c.displayName
  | output => c.outputPath

/-- What a mutation sets the label to. -/
def set? : Label → Mutation → Option String
  | name, .setDisplayName value => some value
  | output, .setOutputPath value => some value
  | _, _ => none

/-- The part of a context that a label is. -/
def part : Label → Part
  | name => .displayName
  | output => .outputPath

/-- What the label was set to last. -/
def lastSet (l : Label) (mutations : List Mutation) : Option String := (mutations.filterMap l.set?).getLast?

variable {l : Label}

theorem lastSet_append (mutations more : List Mutation) :
    l.lastSet (mutations ++ more) = (l.lastSet more).or (l.lastSet mutations) := by
  rw [lastSet, List.filterMap_append, List.getLast?_append, lastSet, lastSet]

/-- Other parts are not the label. -/
theorem lastSet_eq_none {mutations : List Mutation} (h : ∀ m ∈ mutations, m.part ≠ l.part) :
    l.lastSet mutations = none := by
  refine List.getLast?_eq_none_iff.2 (List.filterMap_eq_nil_iff.2 fun m hm => ?_)
  have hpart := h m hm
  cases l <;> cases m <;> first | rfl | exact absurd rfl hpart

/-- A context has the label that was set last, or the one that it was created with. -/
theorem on_replay (l : Label) (c : Content) (mutations : List Mutation) :
    l.on (c.replay mutations) = (l.lastSet mutations).getD (l.on c) := by
  induction mutations generalizing c with
  | nil => rfl
  | cons m rest ih =>
    have hfirst : l.on (c.apply m) = (l.set? m).getD (l.on c) := by
      cases l <;> cases m with
      | add list path | remove list path => cases list <;> rfl
      | _ => rfl
    rw [Content.replay_cons, ih, hfirst, ← List.singleton_append, lastSet_append]
    cases hm : l.set? m <;> cases l.lastSet rest <;> simp [lastSet, hm]

/-- The handler of properties sets a label to the value of its property, if that has changed and is not blank. -/
theorem lastSet_propertyMutations (l : Label) (slice : Slice) (change : Change) :
    l.lastSet (propertyMutations slice change) =
      if change.difference.changesProperty l.property then (change.after.property? l.property).map (l.shown slice)
      else none := by
  have hset (render : String → Mutation) (value : Option String) :
      l.lastSet (value.map render).toList = value.bind fun v => l.set? (render v) := by
    cases value with
    | none => rfl
    | some v => cases hv : l.set? (render v) <;> simp [lastSet, hv]
  have hif (b : Bool) (mutations : List Mutation) :
      l.lastSet (if b then mutations else []) = if b then l.lastSet mutations else none := by
    cases b <;> rfl
  unfold propertyMutations
  dsimp only
  rw [lastSet_append, hif, hif, hset, hset]
  cases l with
  | name =>
    simp only [set?, Option.bind_fun_none, ite_self, Option.none_or, property, Option.map_eq_bind]
    rfl
  | output =>
    simp only [set?, Option.bind_fun_none, ite_self, Option.or_none, property, Option.map_eq_bind]
    rfl

end Label

/-! ## What has been delivered -/

/-- The snapshot of the general rule that an update delivers, if it does. -/
def Update.general? (u : Update) : Option Snapshot :=
  match u.payload with
  | .evaluation e => (e.rules.get? WellKnown.generalRule).map (·.after)
  | .build _ => none

/-- The snapshots of the general rule that updates deliver. -/
def generals (updates : List Update) : List Snapshot := updates.filterMap Update.general?

/-- The value of a property in the last of the snapshots of the general rule in which it is not blank. -/
def lastGiven (property : String) (updates : List Update) : Option String :=
  ((generals updates).filterMap (·.property? property)).getLast?

theorem generals_concat (updates : List Update) (u : Update) :
    generals (updates ++ [u]) = generals updates ++ u.general?.toList := by
  rw [generals, List.filterMap_append]
  cases h : u.general? <;> simp [generals, h]

theorem lastGiven_concat (property : String) (updates : List Update) (u : Update) :
    lastGiven property (updates ++ [u]) = (u.general?.bind (·.property? property)).or (lastGiven property updates) := by
  rw [lastGiven, generals_concat, List.filterMap_append, List.getLast?_append]
  cases u.general? with
  | none => rfl
  | some snapshot => cases h : snapshot.property? property <;> simp [lastGiven, h]

theorem general?_of_evaluation {u : Update} {e : Evaluation} (h : u.payload = .evaluation e) :
    u.general? = (e.rules.get? WellKnown.generalRule).map (·.after) := by rw [Update.general?, h]

theorem general?_of_build {u : Update} {b : Build} (h : u.payload = .build b) : u.general? = none := by
  rw [Update.general?, h]

/-- What the last snapshot says of a property that is not blank in it. -/
theorem lastGiven_of_last {updates : List Update} {property value : String}
    (h : ((generals updates).getLastD .empty).property? property = some value) :
    lastGiven property updates = some value := by
  unfold lastGiven
  rcases List.eq_nil_or_concat (generals updates) with hnil | ⟨before, last, hconcat⟩
  · rw [hnil] at h
    cases h
  · rw [hconcat, List.concat_eq_append] at h ⊢
    rw [List.getLastD_concat] at h
    simp [List.filterMap_append, h]

/-! ## What has been set -/

/-- What has been set of the labels is what the updates give, and what is held of the general rule has the raw
values of its last snapshot. -/
structure Labels (slice : Slice) (mutations : List Mutation) (held : NameMap Snapshot) (updates : List Update) :
    Prop where
  held : ∀ name, ((held.get? WellKnown.generalRule).getD .empty).properties.get? name =
    ((generals updates).getLastD .empty).properties.get? name
  set : ∀ l : Label, l.lastSet mutations = (lastGiven l.property updates).map (l.shown slice)

namespace Labels

variable {slice : Slice} {mutations more : List Mutation} {held : NameMap Snapshot} {updates : List Update}
  {u : Update} {e : Evaluation}

theorem nothing (slice : Slice) : Labels slice [] ∅ [] := ⟨fun _ => rfl, fun _ => rfl⟩

/-- Mutations of other parts are of no account. -/
theorem aside (h : Labels slice mutations held updates) (hm : ∀ m ∈ more, ∀ l : Label, m.part ≠ l.part) :
    Labels slice (mutations ++ more) held updates := by
  refine ⟨h.held, fun l => ?_⟩
  rw [Label.lastSet_append, Label.lastSet_eq_none fun m hmem => hm m hmem l, Option.none_or]
  exact h.set l

theorem build (h : Labels slice mutations held updates) {b : Build} (hu : u.payload = .build b) :
    Labels slice mutations held (updates ++ [u]) := by
  refine ⟨fun name => ?_, fun l => ?_⟩
  · rw [generals_concat, general?_of_build hu, Option.toList_none, List.append_nil]
    exact h.held name
  · rw [lastGiven_concat, general?_of_build hu]
    exact h.set l

/-- A property that is not blank and has not changed was given before. -/
theorem lastGiven_of_unchanged (h : Labels slice mutations held updates) {change : Change} {property : String}
    (hchange : (rebased held WellKnown.generalRule change).difference.changesProperty property = false) :
    (change.after.property? property).or (lastGiven property updates) = lastGiven property updates := by
  have hsame : change.after.property? property = ((generals updates).getLastD .empty).property? property :=
    Snapshot.property?_congr ((Change.get?_of_unchanged hchange).trans (h.held property))
  cases hvalue : change.after.property? property with
  | none => rfl
  | some value =>
    rw [hsame] at hvalue
    rw [lastGiven_of_last hvalue, Option.some_or]

/-- What is held of the general rule after an evaluation. -/
theorem held_evaluation (h : Labels slice mutations held updates) (hu : u.payload = .evaluation e) (name : String) :
    (((held.insertAll (e.rules.mapValues fun _ c => c.after).toList).get? WellKnown.generalRule).getD
        .empty).properties.get? name =
      ((generals (updates ++ [u])).getLastD .empty).properties.get? name := by
  rw [NameMap.get?_insertAll_toList, NameMap.get?_mapValues, generals_concat, general?_of_evaluation hu]
  cases e.rules.get? WellKnown.generalRule with
  | none =>
    rw [Option.map_none, Option.none_or, Option.toList_none, List.append_nil]
    exact h.held name
  | some change =>
    rw [Option.map_some, Option.some_or, Option.toList_some, List.getLastD_concat]
    rfl

/-- An evaluation that is passed over gives what was given before. -/
theorem known (h : Labels slice mutations held updates) (hu : u.payload = .evaluation e)
    (hk : ∀ change ∈ (e.rules.mapValues (rebased held)).values, change.hasChanges = false) :
    Labels slice mutations held (updates ++ [u]) := by
  have hunchanged (change : Change) (hc : e.rules.get? WellKnown.generalRule = some change) (name : String) :
      (rebased held WellKnown.generalRule change).difference.changesProperty name = false := by
    refine Change.changesProperty_of_unchanged (hk _ (NameMap.mem_values_iff.2 ⟨WellKnown.generalRule, ?_⟩)) name
    rw [NameMap.get?_mapValues, hc, Option.map_some]
  refine ⟨fun name => ?_, fun l => ?_⟩
  · rw [generals_concat, general?_of_evaluation hu]
    cases hc : e.rules.get? WellKnown.generalRule with
    | none =>
      rw [Option.map_none, Option.toList_none, List.append_nil]
      exact h.held name
    | some change =>
      rw [Option.map_some, Option.toList_some, List.getLastD_concat]
      exact (Change.get?_of_unchanged (hunchanged change hc name)).symm
  · rw [lastGiven_concat, general?_of_evaluation hu, h.set l]
    cases hc : e.rules.get? WellKnown.generalRule with
    | none => rfl
    | some change =>
      rw [Option.map_some, Option.bind_some, h.lastGiven_of_unchanged (hunchanged change hc l.property)]

/-- The handler of properties sets what an evaluation gives anew. -/
theorem lastSet_evaluation (h : Labels slice mutations held updates) (hu : u.payload = .evaluation e) {k : Kept}
    (hk : k.slice = slice) (l : Label) :
    (l.lastSet (k.propertyMutations (e.rules.mapValues (rebased held)))).or (l.lastSet mutations) =
      (lastGiven l.property (updates ++ [u])).map (l.shown slice) := by
  rw [h.set l, lastGiven_concat, general?_of_evaluation hu, Kept.propertyMutations, NameMap.get?_mapValues]
  cases hc : e.rules.get? WellKnown.generalRule with
  | none => rfl
  | some change =>
    rw [Option.map_some, Option.map_some, Option.bind_some]
    dsimp only
    subst hk
    cases hchanged : (rebased held WellKnown.generalRule change).difference.changesProperty l.property with
    | false =>
      -- the handler is silent, and the value is the one that was given before
      have hsilent : l.lastSet (if (rebased held WellKnown.generalRule change).hasChanges then
          propertyMutations k.slice (rebased held WellKnown.generalRule change) else []) = none := by
        split
        case isTrue => rw [Label.lastSet_propertyMutations, hchanged, if_neg Bool.false_ne_true]
        case isFalse => rfl
      rw [hsilent, Option.none_or, h.lastGiven_of_unchanged hchanged]
    | true =>
      have hany : (rebased held WellKnown.generalRule change).hasChanges = true := by
        by_contra hnone
        rw [Change.changesProperty_of_unchanged (Bool.eq_false_iff.2 hnone)] at hchanged
        cases hchanged
      rw [if_pos hany, Label.lastSet_propertyMutations, hchanged, if_pos rfl]
      show ((change.after.property? l.property).map _).or _ = _
      cases change.after.property? l.property <;> rfl

/-- The handlers follow an evaluation. -/
theorem evaluation (h : Labels slice mutations held updates) (hu : u.payload = .evaluation e) {k : Kept}
    (hk : k.slice = slice) (items : Listing String Change) :
    Labels slice (mutations ++ k.evaluationMutations (e.rules.mapValues (rebased held)) items)
      (held.insertAll (e.rules.mapValues fun _ c => c.after).toList) (updates ++ [u]) := by
  refine ⟨h.held_evaluation hu, fun l => ?_⟩
  have hfiles : l.lastSet ((k.sources.follow items).2 ++ (k.additional.follow items).2) = none := by
    refine Label.lastSet_eq_none fun m hm => ?_
    rcases List.mem_append.1 hm with hm | hm <;> rw [ItemFiles.follow_part hm] <;> cases l <;> nofun
  rw [Kept.evaluationMutations, Label.lastSet_append, Label.lastSet_append, hfiles, Option.none_or,
    h.lastSet_evaluation hu hk]

end Labels

end SliceSync
