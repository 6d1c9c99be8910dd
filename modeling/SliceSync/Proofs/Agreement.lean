import SliceSync.Proofs.Differences
import SliceSync.Proofs.Holding
import SliceSync.Proofs.Remnants
import SliceSync.Proofs.Scripts
/-!
# Two sides that compare

The sender of updates compares each snapshot with the one that it has told before, and a workspace compares it anew
with the one that it holds. What a workspace holds lags behind, since an update that changes nothing is passed over,
though it may tell the same items in another order. As long as no update is lost, what is held and what was told
stay alike (`Baseline.InStep`), and so both sides see the same changes.

Main statement: `Workspace.sees_passed`.
-/

namespace SliceSync

open Workspace (rebased)

/-! ## The sender -/

namespace Publisher

/-- What has been told with one more update. -/
def hear (t : Publisher) (u : Update) : Publisher :=
  match u.payload with
  | .evaluation e =>
    { t with
      rules := t.rules.insertAll (e.rules.mapValues fun _ c => c.after).toList
      items := t.items.insertAll e.delivered.toList }
  | .build b => { t with arguments := b.arguments }

/-- An update tells what changes from what has been told. -/
def Tells (t : Publisher) (u : Update) : Prop :=
  match u.payload with
  | .evaluation e =>
    (∀ name change, e.rules.get? name = some change → change.before = (t.rules.get? name).getD .empty) ∧
      ∀ itemType change, e.items.get? itemType = some change → change.before = (t.items.get? itemType).getD .empty
  | .build b => b.previous = t.arguments

/-- What has been told that updates of a kind are about. -/
def side (t : Publisher) : UpdateKind → Publisher
  | .evaluation => { rules := t.rules, items := t.items }
  | .build => { arguments := t.arguments }

variable {t t' : Publisher} {u : Update} {updates : List Update} {kind : UpdateKind}

/-- Updates of the other kind are of no account. -/
theorem side_hear_of_ne (h : u.kind ≠ kind) : (t.hear u).side kind = t.side kind := by
  unfold Update.kind at h
  unfold hear
  cases hu : u.payload with
  | evaluation e => cases kind with
    | evaluation => rw [hu] at h; exact absurd rfl h
    | build => rfl
  | build b => cases kind with
    | evaluation => rfl
    | build => rw [hu] at h; exact absurd rfl h

theorem side_hear_congr (h : t.side kind = t'.side kind) : (t.hear u).side kind = (t'.hear u).side kind := by
  unfold hear
  cases kind with
  | evaluation =>
    obtain ⟨hrules, hitems⟩ : t.rules = t'.rules ∧ t.items = t'.items := by simpa [side] using h
    cases u.payload <;> simp only [side, hrules, hitems]
  | build =>
    have harguments : t.arguments = t'.arguments := by simpa [side] using h
    cases u.payload <;> simp only [side, harguments]

theorem side_heard (h : t.side kind = t'.side kind) (updates : List Update) :
    (updates.foldl hear t).side kind = ((updates.filter (·.kind = kind)).foldl hear t').side kind := by
  induction updates generalizing t t' with
  | nil => exact h
  | cons u rest ih =>
    by_cases hu : u.kind = kind
    · rw [List.filter_cons_of_pos (by simpa using hu)]
      exact ih (side_hear_congr h)
    · rw [List.filter_cons_of_neg (by simpa using hu)]
      exact ih ((side_hear_of_ne hu).trans h)

theorem Tells.congr (h : t.Tells u) (hside : t'.side u.kind = t.side u.kind) : t'.Tells u := by
  unfold Update.kind at hside
  unfold Tells at h ⊢
  cases hu : u.payload with
  | evaluation e =>
    rw [hu] at h hside
    obtain ⟨hrules, hitems⟩ : t'.rules = t.rules ∧ t'.items = t.items := by simpa [side] using hside
    rw [hrules, hitems]
    exact h
  | build b =>
    rw [hu] at h hside
    have harguments : t'.arguments = t.arguments := by simpa [side] using hside
    rw [harguments]
    exact h

/-- Each of the updates tells what changes from what has been told before it. -/
def Consistent (t : Publisher) (updates : List Update) : Prop :=
  ∀ before u after, updates = before ++ u :: after → (before.foldl hear t).Tells u

/-- Updates of a kind tell what changes from those of their kind, so the two kinds may be shifted against each other. -/
theorem Consistent.of_kinds {updates' : List Update} (h : t.Consistent updates)
    (hk : ∀ kind, updates'.filter (·.kind = kind) = updates.filter (·.kind = kind)) : t.Consistent updates' := by
  rintro before u after rfl
  -- in the other order the same updates of its kind come before the update
  have hsplit := (hk u.kind).symm
  rw [List.filter_append, List.filter_cons_of_pos (by simp)] at hsplit
  obtain ⟨before', others, rfl, hbefore, hothers⟩ := List.filter_eq_append_iff.1 hsplit
  obtain ⟨more, after', rfl, hmore, -, -⟩ := List.filter_eq_cons_iff.1 hothers
  refine (h (before' ++ more) u after' (by simp)).congr ?_
  have hnone : more.filter (·.kind = u.kind) = [] := List.filter_eq_nil_iff.2 hmore
  rw [side_heard rfl before, side_heard rfl (before' ++ more), List.filter_append, hbefore, hnone, List.append_nil]

/-! ### Scripts -/

/-- A listing of what a map binds binds it alike. -/
theorem get?_ofList_toList {β : Type} (m : NameMap β) (name : String) :
    (Listing.ofList m.toList).get? name = m.get? name := by
  obtain ⟨hbound, hunbound⟩ := Listing.get?_foldl_insert id m.toList m.nodup_names ∅ name
  cases hm : m.get? name with
  | some value => exact hbound value (NameMap.mem_toList_iff.2 hm)
  | none =>
    refine (hunbound fun value hvalue => ?_).trans rfl
    exact absurd (hm.symm.trans (NameMap.mem_toList_iff.1 hvalue)) nofun

theorem tell_tells (t : Publisher) (project : Project) (u : ScriptedUpdate) : t.Tells (t.tell project u).2 := by
  unfold tell
  cases u.payload with
  | evaluation rules items =>
    constructor
    · intro name change hchange
      rw [NameMap.get?_mapValues] at hchange
      obtain ⟨after, -, rfl⟩ := Option.map_eq_some_iff.1 hchange
      rfl
    · intro itemType change hchange
      rw [get?_ofList_toList, NameMap.get?_mapValues] at hchange
      obtain ⟨after, -, rfl⟩ := Option.map_eq_some_iff.1 hchange
      rfl
  | build arguments => rfl

/-- What is told is what its receiver hears. -/
theorem tell_hear (t : Publisher) (project : Project) (u : ScriptedUpdate) :
    (t.tell project u).1 = t.hear (t.tell project u).2 := by
  unfold tell
  cases u.payload with
  | evaluation rules items =>
    have hafter (told snapshots : NameMap Snapshot) (name : String) :
        ((snapshots.mapValues (changeFrom told)).get? name).map (·.after) = snapshots.get? name := by
      rw [NameMap.get?_mapValues]
      cases snapshots.get? name <;> rfl
    have hrules : ((rules.mapValues (changeFrom t.rules)).mapValues fun _ c => c.after) = rules :=
      NameMap.ext_get? fun name => (NameMap.get?_mapValues _ _ _).trans (hafter t.rules rules name)
    have hitems : Evaluation.delivered
        { project
          rules := rules.mapValues (changeFrom t.rules)
          items := Listing.ofList (items.mapValues (changeFrom t.items)).toList } = items :=
      NameMap.ext_get? fun name => by rw [Evaluation.get?_delivered, get?_ofList_toList, hafter]
    rw [hear]
    dsimp only
    rw [hrules, hitems]
  | build arguments => rfl

theorem tellAll_consistent (t : Publisher) (project : Project) (l : List ScriptedUpdate) :
    t.Consistent (t.tellAll project l) := by
  induction l generalizing t with
  | nil =>
    intro before u after h
    cases before <;> cases h
  | cons v l ih =>
    intro before u after h
    cases before with
    | nil =>
      cases h
      exact t.tell_tells project v
    | cons first before =>
      obtain ⟨rfl, hrest⟩ := List.cons.inj h
      rw [List.foldl_cons, ← tell_hear]
      exact ih _ before u after hrest

end Publisher

/-- Each update that passes a holdback tells what changes from those that have passed before it. -/
theorem Script.passed_consistent (script : Script) (project : Project) (threshold : Nat) :
    Publisher.Consistent {} (Holdback.passed { threshold } (script.updates project)) := by
  by_cases h : ∀ u ∈ script.updates project, u.kind = .build
  · -- without an evaluation nothing passes
    rw [Holdback.passed_of_builds h]
    intro before u after hnil
    cases before <;> cases hnil
  · exact (Publisher.tellAll_consistent {} project script.scripted).of_kinds
      (Holdback.filter_passed (Holdback.evaluation_of_not_builds h))

/-! ## The workspace -/

/-- What is held of rules or items is like what was told of them. -/
def SnapshotsAlike (held told : NameMap Snapshot) : Prop :=
  ∀ name, ((held.get? name).getD .empty).Alike ((told.get? name).getD .empty)

namespace SnapshotsAlike

variable {held told delivered : NameMap Snapshot}

/-- What is delivered is held. -/
theorem deliver (h : SnapshotsAlike held told) (delivered : NameMap Snapshot) :
    SnapshotsAlike (held.insertAll delivered.toList) (told.insertAll delivered.toList) := by
  intro name
  rw [NameMap.get?_insertAll_toList, NameMap.get?_insertAll_toList]
  cases delivered.get? name with
  | none => exact h name
  | some after => exact .refl after

/-- What is delivered is like what is held, and passed over. -/
theorem passOver (h : SnapshotsAlike held told)
    (hk : ∀ name after, delivered.get? name = some after → ((held.get? name).getD .empty).Alike after) :
    SnapshotsAlike held (told.insertAll delivered.toList) := by
  intro name
  rw [NameMap.get?_insertAll_toList]
  cases hd : delivered.get? name with
  | none => exact h name
  | some after => exact hk name after hd

end SnapshotsAlike

/-- What was applied last is like what was told last: the same properties and items, and the same arguments, whatever
their order. -/
structure Baseline.InStep (b : Baseline) (t : Publisher) : Prop where
  rules : SnapshotsAlike b.rules t.rules
  items : SnapshotsAlike b.items t.items
  arguments : ∀ a, a ∈ b.arguments ↔ a ∈ t.arguments

/-- The changes of rules or items that one side sees, and those that the other sees. -/
structure Change.Agrees (c c' : Change) : Prop where
  difference : c.difference.Agrees c'.difference
  hasChanges : c.hasChanges = c'.hasChanges

theorem Change.agrees_of_alike {c c' : Change} (h : c.before.Alike c'.before) (ha : c.after = c'.after) :
    c.Agrees c' := by
  have hagrees : c.difference.Agrees c'.difference := by
    rw [Change.difference, Change.difference, ha]
    exact h.agrees c'.after
  exact ⟨hagrees, by rw [Change.hasChanges, Change.hasChanges, hagrees.isEmpty]⟩

/-- Where the changes of one side and the other agree, either both have one that is not empty or neither has. -/
theorem any_hasChanges_congr {l : List (String × Change)} {held : NameMap Snapshot}
    (h : ∀ name change, (name, change) ∈ l → (rebased held name change).Agrees change) :
    ((l.map fun i => (i.1, rebased held i.1 i.2)).map (·.2)).any (·.hasChanges) =
      (l.map (·.2)).any (·.hasChanges) := by
  rw [List.map_map, List.any_map, List.any_map, Bool.eq_iff_iff, List.any_eq_true, List.any_eq_true]
  refine exists_congr fun i => and_congr_right fun hi => ?_
  exact iff_of_eq (congrArg (· = true) (h i.1 i.2 hi).hasChanges)

namespace Workspace

variable {setup : Setup} {w : Workspace} {handle : ContextHandle} {x : Payload} {o : Occasion} {e : Evaluation}
  {t : Publisher} {slice : Slice}

/-- The workspace sees in an evaluation what its sender saw. -/
structure SeesEvaluation (w : Workspace) (e : Evaluation) : Prop where
  rules : ∀ name change, e.rules.get? name = some change → (rebased w.baseline.rules name change).Agrees change
  items : ∀ itemType change, e.items.get? itemType = some change →
    (rebased w.baseline.items itemType change).Agrees change
  /-- They agree on whether anything has changed at all. -/
  hasChanges : ((w.seenRules e).values.any (·.hasChanges) || (w.seenItems e).values.any (·.hasChanges)) =
    (e.rules.values.any (·.hasChanges) || e.items.values.any (·.hasChanges))

/-- The workspace sees in a build what its sender saw. -/
structure SeesBuild (w : Workspace) (b : Build) : Prop where
  difference : (ArgumentDifference.between w.baseline.arguments b.arguments).Agrees b.change
  isEmpty : (ArgumentDifference.between w.baseline.arguments b.arguments).isEmpty = b.change.isEmpty

/-- The workspace sees in an update what its sender saw. -/
def Sees (w : Workspace) : Payload → Prop
  | .evaluation e => w.SeesEvaluation e
  | .build b => w.SeesBuild b

/-- A workspace in step with the sender sees what the sender saw. -/
theorem sees_of_inStep {u : Update} (h : w.baseline.InStep t) (hu : t.Tells u) : w.Sees u.payload := by
  unfold Publisher.Tells at hu
  cases hp : u.payload with
  | evaluation e =>
    rw [hp] at hu
    have hrules : ∀ name change, e.rules.get? name = some change →
        (rebased w.baseline.rules name change).Agrees change := fun name change hget =>
      Change.agrees_of_alike ((hu.1 name change hget).symm ▸ h.rules name) rfl
    have hitems : ∀ itemType change, e.items.get? itemType = some change →
        (rebased w.baseline.items itemType change).Agrees change := fun itemType change hget =>
      Change.agrees_of_alike ((hu.2 itemType change hget).symm ▸ h.items itemType) rfl
    refine ⟨hrules, hitems, ?_⟩
    exact congrArg₂ (· || ·)
      (any_hasChanges_congr fun name change hmem => hrules name change (NameMap.mem_toList_iff.1 hmem))
      (any_hasChanges_congr fun itemType change hmem => hitems itemType change (Listing.mem_toList_iff.1 hmem))
  | build b =>
    rw [hp] at hu
    have hagrees : (ArgumentDifference.between w.baseline.arguments b.arguments).Agrees b.change := by
      rw [Build.change, hu]
      exact ArgumentDifference.agrees_of_mem h.arguments _
    exact ⟨hagrees, hagrees.isEmpty⟩

/-- Passing over what is known keeps the workspace in step: it is like what is held, if not the same. -/
theorem inStep_known (h : w.baseline.InStep t) (hk : w.KnowsUpdate x o) :
    w.baseline.InStep (t.hear ⟨o.versions, x⟩) := by
  cases x with
  | evaluation e =>
    have hk : w.Knows e (w.activityOn o) := hk
    refine ⟨h.rules.passOver fun name after hget => ?_, h.items.passOver fun itemType after hget => ?_, h.arguments⟩
    · rw [NameMap.get?_mapValues] at hget
      obtain ⟨change, hchange, rfl⟩ := Option.map_eq_some_iff.1 hget
      have hseen : (w.seenRules e).get? name = some (rebased w.baseline.rules name change) := by
        rw [seenRules, NameMap.get?_mapValues, hchange, Option.map_some]
      exact Change.alike_of_unchanged (hk.rules _ (NameMap.mem_values_iff.2 ⟨name, hseen⟩))
    · rw [Evaluation.get?_delivered] at hget
      obtain ⟨change, hchange, rfl⟩ := Option.map_eq_some_iff.1 hget
      have hseen : (w.seenItems e).get? itemType = some (rebased w.baseline.items itemType change) := by
        rw [seenItems, Listing.get?_mapValues, hchange, Option.map_some]
      exact Change.alike_of_unchanged (hk.items _ (Listing.mem_values_iff.2 ⟨itemType, hseen⟩))
  | build b =>
    have hk : w.KnowsBuild b (w.activityOn o) := hk
    exact ⟨h.rules, h.items, ArgumentDifference.isEmpty_between_iff.1 hk.arguments⟩

/-- Integrating an update keeps the workspace in step. -/
theorem inStep_integrating (h : w.baseline.InStep t) :
    (w.integrating x o).baseline.InStep (t.hear ⟨o.versions, x⟩) := by
  cases x with
  | evaluation e => exact ⟨h.rules.deliver _, h.items.deliver _, h.arguments⟩
  | build b => exact ⟨h.rules, h.items, fun _ => .rfl⟩

/-- A call that ends well keeps the workspace in step. -/
theorem Fitted.inStep_attempt (hf : w.Fitted handle) (h : w.baseline.InStep t)
    (hp : (w.attempt setup x o).progress.result? = some (.ok .done)) :
    (w.attempt setup x o).workspace.baseline.InStep (t.hear ⟨o.versions, x⟩) ∧
      ∃ handle', (w.attempt setup x o).workspace.Fitted handle' := by
  have hready : w.Ready handle x := hf.ready (Option.isSome_iff_exists.2 ⟨_, hp⟩)
  have hattempts : w.Attempts handle x o (w.attempt setup x o) := attempts hready
  generalize w.attempt setup x o = a at hp hattempts
  cases hattempts with
  | skips hk =>
    rw [(skipping_frame w x).2.1]
    exact ⟨inStep_known h hk, handle, hf.skipping x⟩
  | hangs hk hg hgoing =>
    rw [hgoing] at hp
    cases hp
  | fails => cases hp
  | ends hk hg he hl =>
    exact ⟨inStep_integrating (w := w.withHandlers handle _) h, _, (hf.withHandlers _).integrating x o⟩

/-- A workspace in step with its sender that is new or has its context. -/
structure Follows (slice : Slice) (t : Publisher) (w : Workspace) : Prop where
  inStep : w.baseline.InStep t
  stands : w = { slice } ∨ ∃ handle, w.Fitted handle

theorem Follows.attempt (h : w.Follows slice t) (hp : (w.attempt setup x o).progress.result? = some (.ok .done)) :
    (w.attempt setup x o).workspace.Follows slice (t.hear ⟨o.versions, x⟩) := by
  rcases h.stands with rfl | ⟨handle, hf⟩
  · -- the first update creates the context, and goes on as one that finds it
    have hends := Option.isSome_iff_exists.2 ⟨_, hp⟩
    rcases creates_of_ends hends with ⟨e, session', handle, events, rfl, hcreate⟩ | ⟨error, herror, -⟩
    · obtain ⟨hworkspace, hresult, -, -⟩ := attempt_opened slice hcreate hends
      have hopened : (opened setup slice ⟨o.versions, .evaluation e⟩ handle).baseline.InStep t :=
        ⟨h.inStep.rules, h.inStep.items, h.inStep.arguments⟩
      rw [hworkspace]
      obtain ⟨hstep, hfitted⟩ := (fitted_opened setup slice _ handle).inStep_attempt hopened (hresult.symm.trans hp)
      exact ⟨hstep, .inr hfitted⟩
    · rw [herror] at hp
      cases hp
  · obtain ⟨hstep, hfitted⟩ := hf.inStep_attempt h.inStep hp
    exact ⟨hstep, .inr hfitted⟩

theorem Follows.run {calls : List (Payload × Occasion)} (h : w.Follows slice t)
    (hok : ∀ p ∈ (runAll (takes setup) w calls).2, p.result = some (.ok .done)) :
    (runAll (takes setup) w calls).1.Follows slice ((calls.map updateOf).foldl Publisher.hear t) := by
  induction calls generalizing w t with
  | nil => exact h
  | cons call rest ih =>
    rw [runAll_cons] at hok ⊢
    exact ih (h.attempt (hok (w.outcome setup call) (List.mem_append_left _ (List.mem_singleton_self _))))
      fun p hp => hok p (List.mem_append_right _ hp)

/-- Where all updates of a script that pass a holdback are applied in turn and none of them fails, a workspace sees in
each of them what the script's sender saw. -/
theorem sees_passed (setup : Setup) (script : Script) (project : Project) (threshold : Nat) (slice : Slice)
    {calls before after : List (Payload × Occasion)} {call : Payload × Occasion}
    (hcalls : calls.map updateOf = Holdback.passed { threshold } (script.updates project))
    (hok : ∀ p ∈ (runAll (takes setup) { slice } calls).2, p.result = some (.ok .done))
    (hsplit : calls = before ++ call :: after) :
    (runAll (takes setup) { slice } before).1.Sees call.1 := by
  subst hsplit
  rw [runAll_append] at hok
  have hstart : Follows slice {} { slice } := ⟨⟨fun _ => .refl _, fun _ => .refl _, fun _ => .rfl⟩, .inl rfl⟩
  have hfollows := hstart.run fun p hp => hok p (List.mem_append_left _ hp)
  rw [List.map_append, List.map_cons] at hcalls
  exact sees_of_inStep hfollows.inStep
    (script.passed_consistent project threshold (before.map updateOf) (updateOf call) _ hcalls.symm)

/-- A script that builds first, and then names source files in one order, in the other, and others. -/
def reordering : Script where
  scripted :=
    let compiled (names : List String) : NameMap Snapshot :=
      .ofList [(WellKnown.compileItems, { items := .ofList (names.map (·, ∅)) })]
    [⟨1, .build ["/nowarn:1"]⟩,
      ⟨1, .evaluation
        (.ofList [(WellKnown.generalRule,
          { properties := .ofList
              [(WellKnown.language, "C#"), (WellKnown.projectFullPath, "/src/a.proj"),
                (WellKnown.targetPath, "/src/out/a.dll")] })])
        (compiled ["a.cs", "b.cs"])⟩,
      ⟨2, .evaluation ∅ (compiled ["b.cs", "a.cs"])⟩,
      ⟨3, .evaluation ∅ (compiled ["c.cs"])⟩]

set_option maxRecDepth 100000 in
/-- The workspace passes over the second order, so it sees the files go in the first. -/
theorem sees_passed_reordered :
    let calls := (Holdback.passed { threshold := 0 } (reordering.updates { path := "/src/a.proj" })).map fun u =>
      (u.payload, ({ env := {}, session := (World.initial {}).session, versions := u.versions } : Occasion))
    let change : Change :=
      { before := { items := .ofList [("b.cs", ∅), ("a.cs", ∅)] }, after := { items := .ofList [("c.cs", ∅)] } }
    let last : Evaluation := { project := { path := "/src/a.proj" }, items := .ofList [(WellKnown.compileItems, change)] }
    let w := (runAll (takes {}) { slice := .empty } (calls.take 3)).1
    (calls.drop 3).map (·.1) = [.evaluation last] ∧ w.Sees (.evaluation last) ∧
      change.difference.removedItems = ["b.cs", "a.cs"] ∧
      (rebased w.baseline.items WellKnown.compileItems change).difference.removedItems = ["a.cs", "b.cs"] := by
  intro calls change last w
  have hcalls : calls.map updateOf =
      Holdback.passed { threshold := 0 } (reordering.updates { path := "/src/a.proj" }) := by
    simp only [calls, List.map_map]
    exact List.map_id _
  have hok : ∀ p ∈ (runAll (takes {}) { slice := .empty } calls).2, p.result = some (.ok .done) := by decide +kernel
  have hlast : (calls.drop 3).map (·.1) = [.evaluation last] := by decide +kernel
  obtain ⟨call, hdrop, hcall⟩ := List.map_eq_singleton_iff.1 hlast
  have hsplit : calls = calls.take 3 ++ call :: [] := by rw [← hdrop, List.take_append_drop]
  have hsees := sees_passed {} reordering { path := "/src/a.proj" } 0 .empty hcalls hok hsplit
  rw [hcall] at hsees
  exact ⟨hlast, hsees, by decide +kernel, by decide +kernel⟩

end Workspace

end SliceSync
