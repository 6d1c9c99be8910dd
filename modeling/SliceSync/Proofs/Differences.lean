import Mathlib.Data.List.Perm.Basic
import Mathlib.Logic.Function.Basic
import SliceSync.Proofs.Counts
import SliceSync.Snapshot.Difference
/-!
# What a difference says of its snapshots

A difference hangs on what its older snapshot tells, not on the order in which the items are told: from snapshots
that are alike it is the same, up to the order of the removed items.
-/

namespace SliceSync

/-! ## Properties -/

theorem NameMap.mem_values_iff {β : Type} {m : NameMap β} {value : β} :
    value ∈ m.values ↔ ∃ name, m.get? name = some value := by
  show value ∈ m.toList.map (·.2) ↔ _
  simp only [List.mem_map, Prod.exists, exists_eq_right, mem_toList_iff]

/-- Snapshots with one raw value of a property have one value of it. -/
theorem Snapshot.property?_congr {s s' : Snapshot} {name : String}
    (h : s.properties.get? name = s'.properties.get? name) : s.property? name = s'.property? name := by
  rw [property?, h, property?]

/-- The changed properties are those with another raw value, one that comes or goes included. -/
theorem Difference.mem_changedProperties_iff {before after : Snapshot} {name : String} :
    name ∈ (Difference.between before after).changedProperties ↔
      before.properties.get? name ≠ after.properties.get? name := by
  have hnames (s : Snapshot) : name ∈ s.properties.names ↔ s.properties.get? name ≠ none := by
    rw [NameMap.mem_names_iff, NameMap.contains, Option.isSome_iff_ne_none]
  simp only [between, List.mem_filter, NameMap.mem_names_iff, NameSet.contains_ofNames, List.mem_append, hnames,
    decide_eq_true_eq]
  refine and_iff_right_of_imp fun hne => ?_
  by_contra hnone
  simp only [not_or, not_not] at hnone
  exact hne (hnone.1.trans hnone.2.symm)

/-- A property that has not changed has the raw value that it had. -/
theorem Change.get?_of_unchanged {change : Change} {name : String}
    (h : change.difference.changesProperty name = false) :
    change.after.properties.get? name = change.before.properties.get? name := by
  by_contra hne
  have hmem : name ∈ change.difference.changedProperties := Difference.mem_changedProperties_iff.2 (Ne.symm hne)
  rw [Difference.changesProperty, List.contains_iff_mem.2 hmem] at h
  cases h

/-- A change that is none changes no property. -/
theorem Change.changesProperty_of_unchanged {change : Change} (h : change.hasChanges = false) (name : String) :
    change.difference.changesProperty name = false := by
  have hnil : change.difference.changedProperties = [] := by
    simp only [hasChanges, Difference.isEmpty, Bool.not_eq_false', Bool.and_eq_true, List.isEmpty_iff] at h
    exact h.2
  rw [Difference.changesProperty, hnil]
  rfl

/-! ## Snapshots that are alike -/

/-- Snapshots that tell the same of each property and of each item. The order of the items may differ. -/
structure Snapshot.Alike (s s' : Snapshot) : Prop where
  properties : s.properties = s'.properties
  items : ∀ item, s.items.get? item = s'.items.get? item

theorem Snapshot.Alike.refl (s : Snapshot) : s.Alike s := ⟨rfl, fun _ => rfl⟩

/-- Differences that agree: only the order of what is removed may differ. -/
structure Difference.Agrees (d d' : Difference) : Prop where
  addedItems : d.addedItems = d'.addedItems
  removedItems : d.removedItems.Perm d'.removedItems
  changedItems : d.changedItems = d'.changedItems
  changedProperties : d.changedProperties = d'.changedProperties

theorem Difference.Agrees.isEmpty {d d' : Difference} (h : d.Agrees d') : d.isEmpty = d'.isEmpty := by
  rw [Difference.isEmpty, h.addedItems, h.removedItems.isEmpty_eq, h.changedItems, h.changedProperties,
    Difference.isEmpty]

theorem Snapshot.Alike.agrees {s s' : Snapshot} (h : s.Alike s') (after : Snapshot) :
    (Difference.between s after).Agrees (.between s' after) where
  addedItems := by simp only [Difference.between, Listing.contains, h.items]
  removedItems := by
    have nodup (t : Snapshot) : (t.items.keys.filter fun k => !after.items.contains k).Nodup := t.items.nodup.filter _
    refine (List.perm_ext_iff_of_nodup (nodup s) (nodup s')).2 fun item => ?_
    simp only [List.mem_filter, Listing.mem_keys_iff, Listing.contains, h.items]
  changedItems := by simp only [Difference.between, h.items]
  changedProperties := by simp only [Difference.between, h.properties]

/-- A change that is none is between snapshots that are alike. -/
theorem Change.alike_of_unchanged {change : Change} (h : change.hasChanges = false) :
    change.before.Alike change.after := by
  constructor
  · refine NameMap.ext_get? fun name => ?_
    exact (Change.get?_of_unchanged (Change.changesProperty_of_unchanged h name)).symm
  · intro item
    simp only [hasChanges, difference, Difference.between, Difference.isEmpty, Bool.not_eq_false', Bool.and_eq_true,
      List.isEmpty_iff, List.filter_eq_nil_iff, List.map_eq_nil_iff, Listing.mem_keys_iff] at h
    obtain ⟨⟨⟨hadded, hremoved⟩, hchanged⟩, -⟩ := h
    cases hafter : change.after.items.get? item with
    | none =>
      cases hbefore : change.before.items.get? item with
      | none => rfl
      | some old =>
        have := hremoved item (by rw [Listing.contains, hbefore]; rfl)
        rw [Listing.contains, hafter] at this
        exact absurd rfl this
    | some new =>
      have hcontains := hadded item (by rw [Listing.contains, hafter]; rfl)
      have hsame := hchanged (item, new) (Listing.mem_toList_iff.2 hafter)
      cases hbefore : change.before.items.get? item with
      | none =>
        rw [Listing.contains, hbefore] at hcontains
        exact absurd rfl hcontains
      | some old => simpa [hbefore] using hsame

theorem Difference.isEmpty_between_self (s : Snapshot) : (between s s).isEmpty = true := by
  simp only [isEmpty, between, Bool.and_eq_true, List.isEmpty_iff, List.filter_eq_nil_iff, List.map_eq_nil_iff]
  refine ⟨⟨⟨fun k hk => ?_, fun k hk => ?_⟩, fun e he => ?_⟩, fun name _ => by simp⟩
  · simp [Listing.mem_keys_iff.1 hk]
  · simp [Listing.mem_keys_iff.1 hk]
  · have hget : s.items.get? e.1 = some e.2 := Listing.mem_toList_iff.1 he
    simp [hget]

/-- Exactly the changes between snapshots that are alike are none. -/
theorem Change.unchanged_iff_alike {change : Change} : change.hasChanges = false ↔ change.before.Alike change.after := by
  refine ⟨alike_of_unchanged, fun h => ?_⟩
  rw [hasChanges, difference, (h.agrees change.after).isEmpty, Difference.isEmpty_between_self]
  rfl

/-! ## Lists of arguments -/

/-- Differences that agree: only the order of what is removed may differ. -/
structure ArgumentDifference.Agrees (d d' : ArgumentDifference) : Prop where
  added : d.added = d'.added
  removed : d.removed.Perm d'.removed

theorem ArgumentDifference.Agrees.isEmpty {d d' : ArgumentDifference} (h : d.Agrees d') : d.isEmpty = d'.isEmpty := by
  rw [ArgumentDifference.isEmpty, h.added, h.removed.isEmpty_eq, ArgumentDifference.isEmpty]

/-- A difference hangs on the members of the older list, but for the order of what is removed. -/
theorem ArgumentDifference.agrees_of_mem {previous previous' : List String} (h : ∀ a, a ∈ previous ↔ a ∈ previous')
    (current : List String) : (between previous current).Agrees (between previous' current) where
  added := by
    have hcontains (a : String) : previous.contains a = previous'.contains a := by
      rw [Bool.eq_iff_iff, List.contains_iff_mem, List.contains_iff_mem]
      exact h a
    simp only [between, onlyIn, hcontains]
  removed := by
    refine (List.perm_ext_iff_of_nodup (nodup_eraseDups _) (nodup_eraseDups _)).2 fun a => ?_
    simp only [List.mem_eraseDups, List.mem_filter, h]

end SliceSync
