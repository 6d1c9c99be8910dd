import Mathlib.Data.List.Basic
import SliceSync.Activity
/-!
# What selections leave

Each call selects the slice that drives the build or the one that drives the editor. The last slice selected for the
build drives it. The last one selected for the editor drives the editor; as long as there is none, the first slice
selected for the build does, whatever is selected for the build afterwards. So the editor follows the build only up to
its first selection.

Main statement: `ActiveSlices.selected`.
-/

namespace SliceSync

/-- A call that sets a slice. -/
inductive Selection
  | configuration (slice : Slice)
  | editor (slice : Slice)

namespace Selection

/-- The slice selected for the build. -/
def configuration? : Selection → Option Slice
  | .configuration slice => some slice
  | .editor _ => none

/-- The slice selected for the editor. -/
def editor? : Selection → Option Slice
  | .configuration _ => none
  | .editor slice => some slice

/-- The slices selected for the build, in order. -/
def configurations (calls : List Selection) : List Slice := calls.filterMap configuration?

/-- The slices selected for the editor, in order. -/
def editors (calls : List Selection) : List Slice := calls.filterMap editor?

variable (call : Selection) (calls : List Selection)

theorem head?_configurations_cons :
    (configurations (call :: calls)).head? = call.configuration?.or (configurations calls).head? := by
  cases call <;> rfl

theorem getLast?_filterMap_cons (sees : Selection → Option Slice) :
    ((call :: calls).filterMap sees).getLast? = (calls.filterMap sees).getLast?.or (sees call) := by
  cases h : sees call with
  | none => rw [List.filterMap_cons_none h, Option.or_none]
  | some slice =>
    rw [List.filterMap_cons_some h, List.getLast?_cons]
    cases (calls.filterMap sees).getLast? <;> rfl

end Selection

namespace ActiveSlices

open Selection

def select (a : ActiveSlices) : Selection → ActiveSlices
  | .configuration slice => a.setConfiguration slice
  | .editor slice => a.setEditor slice

/-- What a run of calls leaves. -/
def selectAll (a : ActiveSlices) (calls : List Selection) : ActiveSlices := calls.foldl select a

theorem configuration_select (a : ActiveSlices) (call : Selection) :
    (a.select call).configuration = call.configuration?.or a.configuration := by
  cases call <;> rfl

theorem editor_select (a : ActiveSlices) (call : Selection) :
    (a.select call).editor = call.editor?.or (a.editor.or call.configuration?) := by
  cases call <;> rfl

/-- The build is driven by the last slice selected for it. -/
theorem configuration_selectAll (a : ActiveSlices) (calls : List Selection) :
    (a.selectAll calls).configuration = (configurations calls).getLast?.or a.configuration := by
  induction calls generalizing a with
  | nil => rfl
  | cons call calls ih =>
    have hlast : (configurations (call :: calls)).getLast? = (configurations calls).getLast?.or call.configuration? :=
      getLast?_filterMap_cons call calls configuration?
    show ((a.select call).selectAll calls).configuration = _
    rw [ih, configuration_select, hlast, Option.or_assoc]

/-- The editor is driven by the last slice selected for it, or by the one that drove it before, or by the first slice
selected for the build. -/
theorem editor_selectAll (a : ActiveSlices) (calls : List Selection) :
    (a.selectAll calls).editor = (editors calls).getLast?.or (a.editor.or (configurations calls).head?) := by
  induction calls generalizing a with
  | nil => exact Option.or_none.symm
  | cons call calls ih =>
    have hlast : (editors (call :: calls)).getLast? = (editors calls).getLast?.or call.editor? :=
      getLast?_filterMap_cons call calls editor?
    show ((a.select call).selectAll calls).editor = _
    rw [ih, editor_select, hlast, head?_configurations_cons]
    simp only [Option.or_assoc]

/-- What is selected after these calls, from the start. -/
structure Selected (calls : List Selection) (a : ActiveSlices) : Prop where
  configuration : a.configuration = (configurations calls).getLast?
  editor : a.editor = (editors calls).getLast?.or (configurations calls).head?
  /-- The editor is where the build is, unless selected itself, exactly if the build is where it was at first. -/
  follows_iff : a.editor = (editors calls).getLast?.or a.configuration ↔
    editors calls ≠ [] ∨ (configurations calls).head? = (configurations calls).getLast?
  /-- These two slices are what the activity of a slice is about. -/
  activity : ∀ slice : Slice,
    ((a.activityOf slice).configuration = true ↔ (configurations calls).getLast? = some slice) ∧
    ((a.activityOf slice).editor = true ↔ (editors calls).getLast?.or (configurations calls).head? = some slice)

theorem selected (calls : List Selection) : Selected calls (selectAll {} calls) := by
  have hconfiguration : (selectAll {} calls).configuration = (configurations calls).getLast? := by
    rw [configuration_selectAll, Option.or_none]
  have heditor : (selectAll {} calls).editor = (editors calls).getLast?.or (configurations calls).head? := by
    rw [editor_selectAll, Option.none_or]
  refine ⟨hconfiguration, heditor, ?_, fun slice => ?_⟩
  · rw [hconfiguration, heditor]
    cases hlast : (editors calls).getLast? with
    | none => simp [List.getLast?_eq_none_iff.1 hlast]
    | some slice => simp [List.ne_nil_of_mem (List.mem_of_mem_getLast? hlast)]
  · rw [activityOf, hconfiguration, heditor]
    simp

/-- When the build goes on to another slice, an editor that was never selected stays. -/
theorem not_follows :
    let debug := Slice.ofList [("Configuration", "Debug")]
    let release := Slice.ofList [("Configuration", "Release")]
    let a := selectAll {} [.configuration debug, .configuration release]
    a.configuration = some release ∧ a.editor = some debug ∧
      a.activityOf release = { editor := false, configuration := true } := by
  decide +kernel

end ActiveSlices

end SliceSync
