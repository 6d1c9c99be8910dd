import Mathlib.Order.Lattice
import SliceSync.Versions
/-!
# Merging versions

Versions are ordered source by source: the one covers the other if each source that the other knows is known to it, at
that version or above. A source that is not known stands below version 0. Merging is the join of this order, so what
several versions come to does not depend on who is merged first, or how often.

Main statement: `Versions.merge_joins`.
-/

namespace SliceSync

namespace Versions

variable {u v v' w : Versions} {source : String}

theorem larger_le_iff {a b c : UInt64} : max a b ≤ c ↔ a ≤ c ∧ b ≤ c := by
  show (if a ≤ b then b else a) ≤ c ↔ _
  simp only [UInt64.le_iff_toNat_le]
  split <;> omega

/-! ## Through the view -/

theorem mem_stamps_iff {version : UInt64} : (source, version) ∈ v.stamps.toList ↔ v.get? source = some version :=
  NameMap.mem_toList_iff

theorem ext_get? (h : ∀ source, v.get? source = w.get? source) : v = w := by
  obtain ⟨stamps⟩ := v
  obtain ⟨stamps'⟩ := w
  rw [NameMap.ext_get? (m := stamps) (n := stamps') h]

theorem get?_raise (v : Versions) (source other : String) (version : UInt64) :
    (v.raise source version).get? other =
      if source = other then Option.merge max (v.get? other) (some version) else v.get? other := by
  by_cases h : source = other
  · subst h
    cases hv : v.get? source <;> simp [raise, hv]
  · cases hv : v.get? source <;> simp [raise, hv, h]

/-- Raising the sources of sorted entries reaches each of them once. -/
theorem get?_foldl_raise {entries : List (String × UInt64)} (h : entries.Pairwise fun a b => a.1 < b.1) (v : Versions)
    (source : String) :
    (entries.foldl (fun v e => v.raise e.1 e.2) v).get? source =
      Option.merge max (v.get? source) (NameMap.find source entries) := by
  induction entries generalizing v with
  | nil => simp
  | cons e rest ih =>
    obtain ⟨hlater, hrest⟩ := List.pairwise_cons.1 h
    rw [List.foldl_cons, ih hrest, get?_raise, NameMap.find_cons]
    by_cases he : e.1 = source
    · have hnone : NameMap.find source rest = none := by
        refine Option.eq_none_iff_forall_not_mem.2 fun version hversion => ?_
        exact absurd (hlater _ (NameMap.mem_of_find_eq_some hversion)) (he ▸ String.lt_irrefl _)
      simp [he, hnone]
    · simp [he]

/-- Of what is recorded on both sides the higher counts. -/
@[simp] theorem get?_merge (v w : Versions) (source : String) :
    (v.merge w).get? source = Option.merge max (v.get? source) (w.get? source) :=
  get?_foldl_raise w.stamps.sorted v source

theorem covers_iff :
    v.covers w = true ↔ ∀ source version, w.get? source = some version → ∃ mine, v.get? source = some mine ∧ version ≤ mine := by
  simp only [covers, List.all_eq_true, Prod.forall, mem_stamps_iff]
  refine forall₂_congr fun source version => imp_congr_right fun _ => ?_
  cases v.get? source <;> simp

/-! ## The order -/

/-- Versions that others cover are below these. -/
instance : LE Versions := ⟨fun v w => w.covers v = true⟩

theorem le_iff_covers : v ≤ w ↔ w.covers v = true := Iff.rfl

theorem exists_of_le (h : v ≤ w) {version : UInt64} (hv : v.get? source = some version) :
    ∃ higher, w.get? source = some higher ∧ version ≤ higher :=
  covers_iff.1 h source version hv

theorem get?_le_of_le (h : v ≤ w) (h' : w ≤ v) (source : String) : v.get? source = w.get? source := by
  cases hv : v.get? source with
  | some version =>
    obtain ⟨higher, hw, hle⟩ := exists_of_le h hv
    obtain ⟨back, hback, hle'⟩ := exists_of_le h' hw
    obtain rfl : version = back := Option.some.inj (hv.symm.trans hback)
    rw [hw, UInt64.le_antisymm hle hle']
  | none =>
    cases hw : w.get? source with
    | none => rfl
    | some version =>
      obtain ⟨higher, hhigher, -⟩ := exists_of_le h' hw
      exact absurd (hv.symm.trans hhigher) nofun

instance : PartialOrder Versions where
  le_refl v := covers_iff.2 fun _ version hv => ⟨version, hv, UInt64.le_refl version⟩
  le_trans u v w huv hvw := covers_iff.2 fun source version hu => by
    obtain ⟨middle, hv, hle⟩ := exists_of_le huv hu
    obtain ⟨top, hw, hle'⟩ := exists_of_le hvw hv
    exact ⟨top, hw, UInt64.le_trans hle hle'⟩
  le_antisymm v w hvw hwv := ext_get? (get?_le_of_le hvw hwv)

/-- The merged versions are below others exactly if both are. -/
theorem merge_le_iff : v.merge w ≤ u ↔ v ≤ u ∧ w ≤ u := by
  simp only [le_iff_covers, covers_iff, get?_merge]
  constructor
  · intro h
    constructor
    · intro source version hv
      cases hw : w.get? source with
      | none => exact h source version (by simp [hv, hw])
      | some other =>
        obtain ⟨top, hu, hle⟩ := h source (max version other) (by simp [hv, hw])
        exact ⟨top, hu, (larger_le_iff.1 hle).1⟩
    · intro source version hw
      cases hv : v.get? source with
      | none => exact h source version (by simp [hv, hw])
      | some other =>
        obtain ⟨top, hu, hle⟩ := h source (max other version) (by simp [hv, hw])
        exact ⟨top, hu, (larger_le_iff.1 hle).2⟩
  · rintro ⟨hv, hw⟩ source version hmerged
    rcases Option.merge_eq_some_iff.1 hmerged with ⟨hrecorded, -⟩ | ⟨-, hrecorded⟩ | ⟨a, b, ha, hb, rfl⟩
    · exact hv source version hrecorded
    · exact hw source version hrecorded
    · obtain ⟨top, hu, hle⟩ := hv source a ha
      obtain ⟨top', hu', hle'⟩ := hw source b hb
      obtain rfl : top = top' := Option.some.inj (hu.symm.trans hu')
      exact ⟨top, hu, larger_le_iff.2 ⟨hle, hle'⟩⟩

instance : SemilatticeSup Versions where
  sup := merge
  le_sup_left _ _ := (merge_le_iff.1 le_rfl).1
  le_sup_right _ _ := (merge_le_iff.1 le_rfl).2
  sup_le _ _ _ hv hw := merge_le_iff.2 ⟨hv, hw⟩

/-! ## Merging several -/

/-- What many versions come to, merged into the first ones one after the other. -/
def mergeAll (v : Versions) (others : List Versions) : Versions := others.foldl merge v

/-- Merging many gives the least versions that cover all of them. -/
theorem mergeAll_le_iff {others : List Versions} : v.mergeAll others ≤ u ↔ ∀ w ∈ v :: others, w ≤ u := by
  induction others generalizing v with
  | nil => simp [mergeAll]
  | cons w others ih =>
    show (v.merge w).mergeAll others ≤ u ↔ _
    rw [ih, List.forall_mem_cons, merge_le_iff, and_assoc, List.forall_mem_cons, List.forall_mem_cons]

/-- Only what is merged counts, not how often and when. -/
theorem mergeAll_eq_of_mem {others others' : List Versions} (h : ∀ w, w ∈ v :: others ↔ w ∈ v' :: others') :
    v.mergeAll others = v'.mergeAll others' :=
  eq_of_forall_ge_iff fun u => by simp only [mergeAll_le_iff, h]

/-! ## The laws -/

/-- What covering and merging have to do with each other. -/
structure MergeJoins : Prop where
  covers_refl : ∀ v : Versions, v.covers v = true
  covers_trans : ∀ u v w : Versions, u.covers v = true → v.covers w = true → u.covers w = true
  covers_antisymm : ∀ v w : Versions, v.covers w = true → w.covers v = true → v = w
  /-- The merged versions cover both, and whatever covers both covers them. -/
  covers_both : ∀ v w : Versions, (v.merge w).covers v = true ∧ (v.merge w).covers w = true
  covers_merge : ∀ u v w : Versions, u.covers v = true → u.covers w = true → u.covers (v.merge w) = true
  comm : ∀ v w : Versions, v.merge w = w.merge v
  assoc : ∀ u v w : Versions, (u.merge v).merge w = u.merge (v.merge w)
  idem : ∀ v : Versions, v.merge v = v
  /-- Neither the order counts in which versions are merged, nor which of them the others are merged into. -/
  any_order : ∀ (v v' : Versions) (others others' : List Versions), (v :: others).Perm (v' :: others') →
    v.mergeAll others = v'.mergeAll others'
  /-- The merged versions cover what is nowhere above the larger of the two that are recorded. -/
  merge_covers_iff : ∀ v w x : Versions, (v.merge w).covers x = true ↔
    ∀ source version, x.get? source = some version →
      ∃ larger, Option.merge max (v.get? source) (w.get? source) = some larger ∧ version ≤ larger
  /-- A source that neither side knows is not covered, whatever its version. -/
  unknown : ∀ (v w x : Versions) (source : String) (version : UInt64), v.get? source = none → w.get? source = none →
    x.get? source = some version → (v.merge w).covers x = false

/-- Covering is a partial order, and merging gives the least upper bound. -/
theorem merge_joins : MergeJoins where
  covers_refl := le_refl
  covers_trans _ _ _ huv hvw := le_trans (α := Versions) hvw huv
  covers_antisymm _ _ hvw hwv := le_antisymm (α := Versions) hwv hvw
  covers_both _ _ := merge_le_iff.1 le_rfl
  covers_merge _ _ _ hv hw := merge_le_iff.2 ⟨hv, hw⟩
  comm := sup_comm
  assoc := sup_assoc
  idem := sup_idem
  any_order _ _ _ _ h := mergeAll_eq_of_mem fun _ => h.mem_iff
  merge_covers_iff v w x := by simp only [covers_iff, get?_merge]
  unknown v w x source version hv hw hx := by
    refine Bool.eq_false_iff.2 fun hcovers => ?_
    obtain ⟨higher, hhigher, -⟩ := covers_iff.1 hcovers source version hx
    simp [hv, hw] at hhigher

/-- Version 0 of a source says more than nothing. -/
example : (empty.stamp "items" 0).covers empty = true ∧ empty.covers (empty.stamp "items" 0) = false := by decide

end Versions

end SliceSync
