import Mathlib.Data.Finset.SDiff
import SliceSync.Proofs.Differences
/-!
# Differences as patches

A difference says what to do to the older of two things to get the newer one. For argument lists that is a matter of
sets: some arguments go, others come. For snapshots the names of a difference are enough, since the entries can be
taken from the newer snapshot: what is not named is the same on both sides.

Main statements: `ArgumentDifference.between_leads` and `Difference.between_patches`.
-/

namespace SliceSync

/-! ## Argument lists -/

theorem mem_filter_eraseDups {l : List String} {p : String → Bool} {a : String} :
    a ∈ (l.filter p).eraseDups ↔ a ∈ l ∧ p a = true := by
  rw [List.mem_eraseDups, List.mem_filter]

/-- Behind an argument that none of them is, arguments keep their order. -/
theorem pairwise_idxOf_cons {l m : List String} {a : String} (ha : a ∉ m)
    (h : m.Pairwise fun b c => l.idxOf b < l.idxOf c) : m.Pairwise fun b c => (a :: l).idxOf b < (a :: l).idxOf c := by
  refine h.imp_of_mem fun {b c} hb hc hlt => ?_
  have hne {x : String} (hx : x ∈ m) : a ≠ x := fun heq => ha (heq ▸ hx)
  rw [List.idxOf_cons_ne _ (hne hb), List.idxOf_cons_ne _ (hne hc)]
  exact Nat.succ_lt_succ hlt

/-- The distinct ones among some arguments of a list stand in the order in which the list names them first. -/
theorem pairwise_idxOf_eraseDups (l : List String) (p : String → Bool) :
    (l.filter p).eraseDups.Pairwise fun a b => l.idxOf a < l.idxOf b := by
  induction l generalizing p with
  | nil => exact List.Pairwise.nil
  | cons a rest ih =>
    cases hp : p a with
    | false =>
      rw [List.filter_cons_of_neg (by simp [hp])]
      refine pairwise_idxOf_cons (fun ha => ?_) (ih p)
      rw [(mem_filter_eraseDups.1 ha).2] at hp
      cases hp
    | true =>
      rw [List.filter_cons_of_pos hp, List.eraseDups_cons, List.filter_filter]
      have hnot : a ∉ (rest.filter fun b => !b == a && p b).eraseDups := fun ha => by
        simpa using (mem_filter_eraseDups.1 ha).2
      refine List.pairwise_cons.2 ⟨fun b hb => ?_, pairwise_idxOf_cons hnot (ih _)⟩
      have hne : a ≠ b := fun heq => hnot (heq ▸ hb)
      rw [List.idxOf_cons_self, List.idxOf_cons_ne _ hne]
      exact Nat.succ_pos _

namespace ArgumentDifference

/-- The arguments that are left of a set, with those that come. -/
def applyTo (d : ArgumentDifference) (args : Finset String) : Finset String :=
  args \ d.removed.toFinset ∪ d.added.toFinset

/-- What is added the one way is removed the other way. -/
def swap (d : ArgumentDifference) : ArgumentDifference := ⟨d.removed, d.added⟩

theorem applyTo_between (previous current : List String) :
    (between previous current).applyTo previous.toFinset = current.toFinset := by
  ext a
  simp only [applyTo, Finset.mem_union, Finset.mem_sdiff, List.mem_toFinset, mem_added_iff, mem_removed_iff]
  tauto

/-- What a difference between two argument lists says, and what becomes of the one list by it. -/
structure Leads (previous current : List String) (d : ArgumentDifference) : Prop where
  mem_added : ∀ a, a ∈ d.added ↔ a ∈ current ∧ a ∉ previous
  mem_removed : ∀ a, a ∈ d.removed ↔ a ∈ previous ∧ a ∉ current
  nodup : d.added.Nodup ∧ d.removed.Nodup
  /-- Each stands where its list names it first. -/
  added_order : d.added.Pairwise fun a b => current.idxOf a < current.idxOf b
  removed_order : d.removed.Pairwise fun a b => previous.idxOf a < previous.idxOf b
  disjoint : d.added.Disjoint d.removed
  applied : d.applyTo previous.toFinset = current.toFinset
  swapped : between current previous = d.swap
  isEmpty_iff : d.isEmpty = true ↔ previous.toFinset = current.toFinset
  /-- It makes no difference whether another list comes in between. -/
  onward : ∀ next, (between current next).applyTo (d.applyTo previous.toFinset) =
    (between previous next).applyTo previous.toFinset

/-- The difference between two argument lists leads from the one to the other. -/
theorem between_leads (previous current : List String) : Leads previous current (between previous current) where
  mem_added _ := mem_added_iff
  mem_removed _ := mem_removed_iff
  nodup := ⟨nodup_eraseDups _, nodup_eraseDups _⟩
  added_order := pairwise_idxOf_eraseDups _ _
  removed_order := pairwise_idxOf_eraseDups _ _
  disjoint _ hadded hremoved := (mem_added_iff.1 hadded).2 (mem_removed_iff.1 hremoved).1
  applied := applyTo_between previous current
  swapped := rfl
  isEmpty_iff := by
    rw [isEmpty_between_iff, Finset.ext_iff]
    simp only [List.mem_toFinset]
  onward next := by rw [applyTo_between, applyTo_between, applyTo_between]

/-- Arguments that come twice are added once, where they come first. -/
example : between ["/r:a.dll", "a.cs", "a.cs"] ["c.cs", "/r:b.dll", "c.cs", "/r:a.dll"] =
    ⟨["c.cs", "/r:b.dll"], ["a.cs"]⟩ := by decide

end ArgumentDifference

/-! ## Entries taken over -/

/-- A map that takes over what a source says of some keys says of them what the source says. -/
theorem get_foldl_adopt {μ κ β : Type} [DecidableEq κ] {get : μ → κ → Option β} {adopt : μ → κ → μ}
    {source : κ → Option β}
    (h : ∀ m key other, get (adopt m key) other = if key = other then source key else get m other) (keys : List κ)
    (m : μ) (key : κ) : get (keys.foldl adopt m) key = if key ∈ keys then source key else get m key := by
  induction keys generalizing m with
  | nil => simp
  | cons first rest ih =>
    rw [List.foldl_cons, ih, h]
    by_cases hrest : key ∈ rest
    · rw [if_pos hrest, if_pos (List.mem_cons_of_mem _ hrest)]
    · by_cases hkey : first = key
      · subst hkey
        rw [if_neg hrest, if_pos rfl, if_pos List.mem_cons_self]
      · rw [if_neg hrest, if_neg hkey, if_neg (List.not_mem_cons_of_ne_of_not_mem (Ne.symm hkey) hrest)]

/-- Takes over what another map says of a name, also that it says nothing. -/
def NameMap.adopt {β : Type} (source m : NameMap β) (name : String) : NameMap β :=
  match source.get? name with
  | some value => m.insert name value
  | none => m.erase name

theorem NameMap.get?_adopt {β : Type} (source m : NameMap β) (name other : String) :
    (adopt source m name).get? other = if name = other then source.get? name else m.get? other := by
  unfold adopt
  cases h : source.get? name <;> simp

namespace Listing

variable {κ β : Type} [DecidableEq κ]

/-- Takes over what another listing says of a key, also that it says nothing. -/
def adopt (source m : Listing κ β) (key : κ) : Listing κ β :=
  match source.get? key with
  | some value => m.insert key value
  | none => m.erase key

theorem get?_adopt (source m : Listing κ β) (key other : κ) :
    (adopt source m key).get? other = if key = other then source.get? key else m.get? other := by
  unfold adopt
  cases h : source.get? key <;> simp

/-- Listings that answer alike have the same entries, maybe in another order. -/
theorem toList_perm {m n : Listing κ β} (h : ∀ key, m.get? key = n.get? key) : m.toList.Perm n.toList := by
  refine (List.perm_ext_iff_of_nodup m.nodup.of_map n.nodup.of_map).2 fun e => ?_
  rw [show e ∈ m.entries ↔ _ from mem_toList_iff, show e ∈ n.entries ↔ _ from mem_toList_iff, h]

theorem mem_keys_iff_ne_none {m : Listing κ β} {key : κ} : key ∈ m.keys ↔ m.get? key ≠ none := by
  rw [mem_keys_iff, contains, Option.isSome_iff_ne_none]

end Listing

/-! ## Snapshots -/

namespace Difference

/-- Patches the older snapshot with the newer: what was removed goes, and all else that is named is taken over. -/
def patch (d : Difference) (before after : Snapshot) : Snapshot where
  properties := d.changedProperties.foldl (NameMap.adopt after.properties) before.properties
  items := (d.addedItems ++ d.changedItems).foldl (Listing.adopt after.items)
    (d.removedItems.foldl Listing.erase before.items)

variable {before after : Snapshot} {item : String}

theorem mem_addedItems_iff :
    item ∈ (between before after).addedItems ↔ item ∈ after.items.keys ∧ item ∉ before.items.keys := by
  simp [between, Listing.mem_keys_iff]

theorem mem_removedItems_iff :
    item ∈ (between before after).removedItems ↔ item ∈ before.items.keys ∧ item ∉ after.items.keys := by
  simp [between, Listing.mem_keys_iff]

theorem mem_changedItems_iff :
    item ∈ (between before after).changedItems ↔
      ∃ old new, before.items.get? item = some old ∧ after.items.get? item = some new ∧ old ≠ new := by
  simp only [between, List.mem_map, List.mem_filter]
  constructor
  · rintro ⟨⟨_, new⟩, ⟨hnew, hdiffers⟩, rfl⟩
    cases hold : before.items.get? _ with
    | none => simp [hold] at hdiffers
    | some old => exact ⟨old, new, rfl, Listing.mem_toList_iff.1 hnew, by simpa [hold] using hdiffers⟩
  · rintro ⟨old, new, hold, hnew, hdiffers⟩
    exact ⟨(item, new), ⟨Listing.mem_toList_iff.2 hnew, by simpa [hold] using hdiffers⟩, rfl⟩

/-- The names that the items of a difference have are the names of items. -/
theorem changedItems_sublist (before after : Snapshot) :
    (between before after).changedItems.Sublist after.items.keys := List.filter_sublist.map _

theorem pairwise_changedProperties (before after : Snapshot) :
    (between before after).changedProperties.Pairwise (· < ·) := by
  refine List.Pairwise.filter _ ?_
  exact List.pairwise_map.2 (NameSet.ofNames (before.properties.names ++ after.properties.names)).sorted

/-- A snapshot that is patched with another tells what the other tells. -/
theorem patch_alike (before after : Snapshot) : ((between before after).patch before after).Alike after := by
  constructor
  · refine NameMap.ext_get? fun name => ?_
    refine (get_foldl_adopt (NameMap.get?_adopt after.properties) _ _ name).trans ?_
    split
    case isTrue => rfl
    case isFalse hsame =>
      rw [mem_changedProperties_iff, not_not] at hsame
      exact hsame
  · intro item
    let nothing : String → Option Metadata := fun _ => none
    have herase (m : Listing String Metadata) (key other : String) :
        (m.erase key).get? other = if key = other then nothing key else m.get? other := m.get?_erase key other
    refine (get_foldl_adopt (Listing.get?_adopt after.items) _ _ item).trans ?_
    split
    case isTrue => rfl
    case isFalse hsame =>
      refine (get_foldl_adopt herase _ _ item).trans ?_
      simp only [List.mem_append, not_or, mem_addedItems_iff, mem_changedItems_iff, not_and, Decidable.not_not,
        not_exists] at hsame
      obtain ⟨hadded, hchanged⟩ := hsame
      split
      case isTrue hremoved =>
        have hgone := (mem_removedItems_iff.1 hremoved).2
        rw [Listing.mem_keys_iff_ne_none, not_not] at hgone
        exact hgone.symm
      case isFalse hkept =>
        simp only [mem_removedItems_iff, not_and, Decidable.not_not] at hkept
        simp only [Listing.mem_keys_iff_ne_none] at hadded hkept
        cases hold : before.items.get? item with
        | none =>
          by_contra hne
          exact hadded (Ne.symm hne) hold
        | some old =>
          obtain ⟨new, hnew⟩ := Option.ne_none_iff_exists'.1 (hkept (by simp [hold]))
          rw [hnew, hchanged old new hold hnew]

/-- What a difference between two snapshots says, and what becomes of the one by it. -/
structure Patches (before after : Snapshot) (d : Difference) : Prop where
  mem_added : ∀ item, item ∈ d.addedItems ↔ item ∈ after.items.keys ∧ item ∉ before.items.keys
  mem_removed : ∀ item, item ∈ d.removedItems ↔ item ∈ before.items.keys ∧ item ∉ after.items.keys
  mem_changed : ∀ item, item ∈ d.changedItems ↔
    ∃ old new, before.items.get? item = some old ∧ after.items.get? item = some new ∧ old ≠ new
  mem_properties : ∀ name, name ∈ d.changedProperties ↔ before.properties.get? name ≠ after.properties.get? name
  nodup : d.addedItems.Nodup ∧ d.removedItems.Nodup ∧ d.changedItems.Nodup
  /-- Items stand in the order of a snapshot that has them. -/
  items_order : d.addedItems.Sublist after.items.keys ∧ d.removedItems.Sublist before.items.keys ∧
    d.changedItems.Sublist after.items.keys
  /-- Properties stand in the order of their names, each once. -/
  properties_order : d.changedProperties.Pairwise (· < ·)
  isEmpty_iff : d.isEmpty = true ↔
    before.properties = after.properties ∧ ∀ item, before.items.get? item = after.items.get? item
  patched : (d.patch before after).properties = after.properties ∧
    (d.patch before after).items.toList.Perm after.items.toList
  swapped : (between after before).addedItems = d.removedItems ∧ (between after before).removedItems = d.addedItems ∧
    (between after before).changedItems.Perm d.changedItems ∧
    (between after before).changedProperties = d.changedProperties

/-- Seen the other way, the names that changed are the same. -/
theorem changed_swap (before after : Snapshot) :
    (between after before).changedItems.Perm (between before after).changedItems ∧
      (between after before).changedProperties = (between before after).changedProperties := by
  constructor
  · have nodup (s t : Snapshot) : (between s t).changedItems.Nodup := t.items.nodup.sublist (changedItems_sublist s t)
    refine (List.perm_ext_iff_of_nodup (nodup after before) (nodup before after)).2 fun item => ?_
    rw [mem_changedItems_iff, mem_changedItems_iff]
    constructor
    · rintro ⟨old, new, hold, hnew, hne⟩
      exact ⟨new, old, hnew, hold, hne.symm⟩
    · rintro ⟨old, new, hold, hnew, hne⟩
      exact ⟨new, old, hnew, hold, hne.symm⟩
  · have hnames : NameSet.ofNames (after.properties.names ++ before.properties.names) =
        .ofNames (before.properties.names ++ after.properties.names) :=
      NameSet.ext_contains fun name => by simp [NameSet.contains_ofNames, or_comm]
    simp only [between, hnames, ne_comm]

/-- The difference between two snapshots leads from the one to the other. -/
theorem between_patches (before after : Snapshot) : Patches before after (between before after) where
  mem_added _ := mem_addedItems_iff
  mem_removed _ := mem_removedItems_iff
  mem_changed _ := mem_changedItems_iff
  mem_properties _ := mem_changedProperties_iff
  nodup := ⟨after.items.nodup.filter _, before.items.nodup.filter _,
    after.items.nodup.sublist (changedItems_sublist before after)⟩
  items_order := ⟨List.filter_sublist, List.filter_sublist, changedItems_sublist before after⟩
  properties_order := pairwise_changedProperties before after
  isEmpty_iff := by
    have halike : (Change.mk before after).hasChanges = false ↔ before.Alike after := Change.unchanged_iff_alike
    rw [Change.hasChanges, Bool.not_eq_false'] at halike
    exact halike.trans ⟨fun h => ⟨h.properties, h.items⟩, fun h => ⟨h.1, h.2⟩⟩
  patched := ⟨(patch_alike before after).properties, Listing.toList_perm (patch_alike before after).items⟩
  swapped := ⟨rfl, rfl, changed_swap before after⟩

end Difference

end SliceSync
