import Mathlib.Data.List.Basic
import SliceSync.Proofs.Runs
/-!
# What ids tell apart

The id of a context ends in the text of its slice, `name=value` for each dimension with bars between them. Names and
values are written as they are, so a bar or an equals sign that stands in one of them cannot be told from one that
divides. Two slices of a project have one id exactly if their texts, cut at each bar, are the same
(`ContextId.ofSlice_eq_iff`): slices whose names and values are free of these signs never have, and every slice of
several dimensions has its id in common with another one.

Main statement: `ContextId.separation`.
-/

namespace SliceSync

/-! ## The text of a slice -/

namespace Slice

variable {s t : Slice}

/-- What is shown of a dimension. -/
def label (d : String × String) : List Char := d.1.toList ++ '=' :: d.2.toList

def labels (s : Slice) : List (List Char) := s.dimensions.toList.map label

/-- The pieces of what is shown of a slice, cut at each bar, wherever the bar comes from. -/
def segments (s : Slice) : List (List Char) := s.labels.flatMap (·.splitOn '|')

/-- A slice whose text can be read back: no bars and, in the names, no equals signs. -/
structure Legible (s : Slice) : Prop where
  names : ∀ d ∈ s.dimensions.toList, '=' ∉ d.1.toList ∧ '|' ∉ d.1.toList
  values : ∀ d ∈ s.dimensions.toList, '|' ∉ d.2.toList

theorem eq_of_toList {s t : Slice} (h : s.dimensions.toList = t.dimensions.toList) : s = t := by
  obtain ⟨⟨l, hl⟩⟩ := s
  obtain ⟨⟨m, hm⟩⟩ := t
  obtain rfl : l = m := h
  rfl

theorem labels_eq_nil_iff : s.labels = [] ↔ s.isDefault = true := by
  rw [labels, List.map_eq_nil_iff, ← List.isEmpty_iff]
  rfl

theorem toList_display (h : s.isDefault = false) : s.display.toList = ['|'].intercalate s.labels := by
  rw [display, h, if_neg Bool.false_ne_true, String.toList_intercalate, List.map_map]
  congr 1
  refine List.map_congr_left fun d _ => ?_
  simp [label]

/-- Cutting at a sign undoes joining by it, up to the signs that the joined texts have themselves. -/
theorem splitOn_intercalate (sign : Char) {texts : List (List Char)} (h : texts ≠ []) :
    ([sign].intercalate texts).splitOn sign = texts.flatMap (·.splitOn sign) := by
  induction texts with
  | nil => exact absurd rfl h
  | cons text rest ih =>
    cases rest with
    | nil => simp
    | cons next rest =>
      rw [List.intercalate_cons_cons, List.append_assoc, List.singleton_append, List.splitOn_append_cons_self,
        ih nofun]
      rfl

theorem segments_eq (h : s.isDefault = false) : s.segments = s.display.toList.splitOn '|' := by
  have hne : s.labels ≠ [] := fun hnil => by
    rw [labels_eq_nil_iff, h] at hnil
    cases hnil
  rw [toList_display h, splitOn_intercalate '|' hne, segments]

theorem segments_eq_nil_iff : s.segments = [] ↔ s.isDefault = true := by
  cases h : s.isDefault with
  | true => simp [segments, labels_eq_nil_iff.2 h]
  | false =>
    rw [segments_eq h]
    simp [List.splitOn_ne_nil]

/-- Nothing is lost by cutting. -/
theorem display_eq_iff (hs : s.isDefault = false) (ht : t.isDefault = false) :
    s.display = t.display ↔ s.segments = t.segments := by
  rw [segments_eq hs, segments_eq ht]
  constructor
  · rintro h
    rw [h]
  · intro h
    have hjoined := congrArg (['|'].intercalate ·) h
    simp only [List.intercalate_splitOn] at hjoined
    exact String.toList_inj.1 hjoined

/-! ## Slices with one text -/

/-- Where no name has an equals sign, the dimensions are read back from what is shown of them. -/
theorem map_cutAt_labels (h : ∀ d ∈ s.dimensions.toList, '=' ∉ d.1.toList) :
    s.labels.map (Text.cutAt '=') = s.dimensions.toList.map fun d => some (d.1.toList, d.2.toList) := by
  rw [labels, List.map_map]
  exact List.map_congr_left fun d hd => Text.cutAt_eq_some_iff.2 ⟨rfl, h d hd⟩

/-- A legible text has no bars but those between the dimensions. -/
theorem Legible.segments_eq (h : s.Legible) : s.segments = s.labels := by
  have hcut : ∀ d ∈ s.dimensions.toList, (label d).splitOn '|' = [label d] := fun d hd => by
    have hname := (h.names d hd).2
    have hvalue := h.values d hd
    exact List.splitOn_eq_singleton (by simp [label, hname, hvalue])
  rw [segments, labels, List.flatMap_map, List.flatMap_congr hcut, List.map_eq_flatMap]

theorem Legible.eq_of_segments (hs : s.Legible) (ht : t.Legible) (h : s.segments = t.segments) : s = t := by
  rw [hs.segments_eq, ht.segments_eq] at h
  have hread := congrArg (List.map (Text.cutAt '=')) h
  rw [map_cutAt_labels fun d hd => (hs.names d hd).1, map_cutAt_labels fun d hd => (ht.names d hd).1] at hread
  refine eq_of_toList (List.map_injective_iff.2 (fun d e hde => ?_) hread)
  obtain ⟨hname, hvalue⟩ := Prod.ext_iff.1 (Option.some.inj hde)
  exact Prod.ext (String.toList_inj.1 hname) (String.toList_inj.1 hvalue)

/-- A slice of several dimensions reads like one of a single dimension, with the others in its value. -/
theorem exists_fused (h : 2 ≤ s.dimensions.size) : ∃ u, u ≠ s ∧ u.segments = s.segments := by
  obtain ⟨name, value, e, rest, hs⟩ : ∃ name value e rest, s.dimensions.toList = (name, value) :: e :: rest := by
    change 2 ≤ s.dimensions.toList.length at h
    match s.dimensions.toList, h with
    | d :: e :: rest, _ => exact ⟨d.1, d.2, e, rest, rfl⟩
  let fused := String.ofList (value.toList ++ '|' :: ['|'].intercalate ((e :: rest).map label))
  have hlabel : label (name, fused) = ['|'].intercalate s.labels := by
    rw [labels, hs]
    simp [fused, label, List.intercalate_cons_cons]
  refine ⟨.ofList [(name, fused)], fun hu => ?_, ?_⟩
  · have hone : [(name, fused)] = (name, value) :: e :: rest := (congrArg (·.dimensions.toList) hu).trans hs
    exact absurd (List.cons.inj hone).2 nofun
  · show [label (name, fused)].flatMap (·.splitOn '|') = _
    rw [List.flatMap_singleton, hlabel, splitOn_intercalate '|' (by simp [labels, hs]), segments]

end Slice

/-! ## Ids -/

namespace ContextId

variable {path identity : String} {s t : Slice}

/-- What an id says of its slice. -/
def ending (s : Slice) : List Char := if s.isDefault then [] else ' ' :: s.display.toList

theorem toList_ofSlice (path identity : String) (s : Slice) :
    (ofSlice path identity s).text.toList = (path ++ " (" ++ identity ++ ")").toList ++ ending s := by
  unfold ofSlice ending
  cases s.isDefault <;> simp

theorem ending_eq_iff : ending s = ending t ↔ s.segments = t.segments := by
  unfold ending
  cases hs : s.isDefault with
  | true =>
    rw [Slice.segments_eq_nil_iff.2 hs, eq_comm (a := []), Slice.segments_eq_nil_iff]
    cases t.isDefault <;> simp
  | false =>
    cases ht : t.isDefault with
    | true =>
      rw [Slice.segments_eq_nil_iff.2 ht, Slice.segments_eq_nil_iff, hs]
      simp
    | false => simp [String.toList_inj, Slice.display_eq_iff hs ht]

/-- Slices of a project have one id exactly if their texts, cut at each bar, are the same. -/
theorem ofSlice_eq_iff {path identity : String} :
    ofSlice path identity s = ofSlice path identity t ↔ s.segments = t.segments := by
  rw [← ending_eq_iff, ← List.append_right_inj (path ++ " (" ++ identity ++ ")").toList, ← toList_ofSlice,
    ← toList_ofSlice, String.toList_inj, ContextId.mk.injEq]

end ContextId

/-! ## Contexts of one project -/

/-- An evaluation of a slice of the project with this file and this identity. -/
structure Evaluation.IsOf (e : Evaluation) (file identity : String) (s : Slice) : Prop where
  located : e.property? WellKnown.generalRule WellKnown.projectFullPath = some file
  identified : (e.property? WellKnown.generalRule WellKnown.projectGuid).getD
    ((e.property? WellKnown.generalRule WellKnown.projectName).getD (Text.Path.stemOf file)) = identity
  sliced : e.project.slice = s

theorem Evaluation.IsOf.id {e : Evaluation} {file identity : String} {s : Slice} {params : CreationParams}
    (h : e.IsOf file identity s) (hp : e.creationParams = .ok params) : params.id = .ofSlice file identity s := by
  have hd := describes_of_creationParams hp
  obtain rfl : file = params.projectFilePath := Option.some.inj (h.located.symm.trans hd.projectFilePath)
  rw [hd.id, h.identified, h.sliced]

/-- An id is refused as a duplicate exactly while it is live, unless the factory answers so of itself. -/
theorem Session.create_duplicate_iff {s : Session} {env : Environment} {registry : Registry} {e : Evaluation}
    {params : CreationParams} (hp : e.creationParams = .ok params)
    (hf : env.refused ≠ some (.duplicateContext params.id)) :
    s.create env registry e = .error (.duplicateContext params.id) ↔ params.id ∈ s.live := by
  rw [create, hp]
  simp only [isLive, List.contains_iff_mem]
  split
  case isTrue h => exact iff_of_true rfl h
  case isFalse h =>
    refine iff_of_false (fun hc => ?_) h
    split at hc
    case h_1 hrefused =>
      cases hc
      exact hf hrefused
    case h_2 => cases hc

namespace ContextId

/-- How far the ids of contexts tell two slices of a project apart. -/
structure Separation (file identity : String) (s t : Slice) : Prop where
  /-- Two slices have one id exactly if their texts, cut at each bar, are the same. -/
  eq_iff : ofSlice file identity s = ofSlice file identity t ↔ s.segments = t.segments
  /-- Legible slices have ids of their own. -/
  ne : s.Legible → t.Legible → s ≠ t → ofSlice file identity s ≠ ofSlice file identity t
  /-- A slice of several dimensions has its id in common with another slice. -/
  shared : 2 ≤ s.dimensions.size → ∃ u, u ≠ s ∧ ofSlice file identity u = ofSlice file identity s
  /-- While the context of one is live, the context of the other is refused as a duplicate for this reason only, unless
  the factory answers so of itself. -/
  duplicate_iff : ∀ {session session' : Session} {env env' : Environment} {registry registry' : Registry}
    {e e' : Evaluation} {handle : ContextHandle} {events : List Event} {params : CreationParams},
    e.IsOf file identity s → session.create env registry e = .ok (session', handle, events) →
    e'.IsOf file identity t → e'.creationParams = .ok params → params.id ∉ session.live →
    env'.refused ≠ some (.duplicateContext params.id) →
    (session'.create env' registry' e' = .error (.duplicateContext params.id) ↔ s.segments = t.segments)

theorem separation (file identity : String) (s t : Slice) : Separation file identity s t where
  eq_iff := ofSlice_eq_iff
  ne hs ht hne hid := hne (hs.eq_of_segments ht (ofSlice_eq_iff.1 hid))
  shared h := by
    obtain ⟨u, hu, hsegments⟩ := Slice.exists_fused h
    exact ⟨u, hu, ofSlice_eq_iff.2 hsegments⟩
  duplicate_iff {session session' env env' registry registry' e e' handle events params} h hc h' hp hfree hf := by
    obtain ⟨created, hcreated, hid, -⟩ := Session.create_params hc
    obtain ⟨hlive, -, -⟩ := Session.create_live hc
    rw [Session.create_duplicate_iff hp hf, hlive, List.mem_append, or_iff_right hfree, List.mem_singleton, hid,
      h.id hcreated, h'.id hp, ofSlice_eq_iff, eq_comm]

end ContextId

namespace Sample

/-- An evaluation of the sample project for a slice. -/
def evaluationOf (s : Slice) : Update where
  versions := .empty
  payload := .evaluation
    { project := { path := "/src/a.proj", slice := s }
      rules := .ofList
        [(WellKnown.generalRule,
          { after :=
              { properties := .ofList
                  [(WellKnown.language, "C#"), (WellKnown.projectFullPath, "/src/a.proj"),
                    (WellKnown.targetPath, "/out/a.dll")] } })] }

/-- Two slices of the sample project are evaluated, one after the other. -/
def evaluated (s t : Slice) : List Act :=
  [.addWorkspace s, .addWorkspace t, .call 0 (.update (evaluationOf s)), .advance {} 0, .advance {} 0,
    .call 1 (.update (evaluationOf t)), .advance {} 1]

end Sample

set_option maxRecDepth 100000 in
/-- A value with a bar and an equals sign in it reads like two dimensions: the slice of the two dimensions is refused
its context. -/
theorem ContextId.not_separate :
    let s := Slice.ofList [("A", "1|B=2")]
    let t := Slice.ofList [("A", "1"), ("B", "2")]
    s ≠ t ∧ ofSlice "/src/a.proj" "a" s = ofSlice "/src/a.proj" "a" t ∧
      (World.history {} (Sample.evaluated s t)).map (fun e => (e.place, e.request, e.result)) =
        [(0, .update (Sample.evaluationOf s), .ok .done),
          (1, .update (Sample.evaluationOf t), .error (.duplicateContext (ofSlice "/src/a.proj" "a" s)))] := by
  intro s t
  exact ⟨by decide +kernel, by decide +kernel, by decide +kernel⟩

end SliceSync
