import Mathlib.Data.List.TakeWhile
import SliceSync.Proofs.Diaries
/-!
# All that a holdback does

Where a holdback stands is told by the updates that it has taken in (`Holdback.after_eq`): without an evaluation
among them it holds them all, with one it holds nothing and lets everything pass. What the next update gives
follows from there.

Main statement: `Holdback.orders`.
-/

namespace SliceSync

namespace Holdback

/-- All warnings given while updates are taken in. -/
def warnings (h : Holdback) (updates : List Update) : List HoldbackWarning :=
  (runAll (fun h u => ((push h u).1, (push h u).2.2.toList)) h updates).2

/-- The builds that come before the first evaluation. -/
def early (updates : List Update) : List Update := updates.takeWhile (·.kind = .build)

theorem warnings_concat (h : Holdback) (updates : List Update) (u : Update) :
    h.warnings (updates ++ [u]) = h.warnings updates ++ ((h.after updates).push u).2.2.toList := by
  -- what is gathered on the way does not show in where the holdback gets to
  have hstate : (runAll (fun h u => ((push h u).1, (push h u).2.2.toList)) h updates).1 = h.after updates := by
    induction updates generalizing h with
    | nil => rfl
    | cons u rest ih => exact ih (h.push u).1
  rw [warnings, runAll_append, runAll_cons, hstate]
  exact congrArg (h.warnings updates ++ ·) (List.append_nil _)

/-! ## The first evaluation -/

section Early

variable {updates : List Update} {u : Update}

theorem any_evaluation_iff : updates.any (·.kind = .evaluation) = true ↔ ∃ u ∈ updates, u.kind = .evaluation := by
  simp

theorem not_any_evaluation_iff : updates.any (·.kind = .evaluation) = false ↔ ∀ u ∈ updates, u.kind = .build := by
  rw [List.any_eq_false]
  refine forall₂_congr fun u _ => ?_
  cases u.kind <;> decide

theorem builds_concat_iff :
    (∀ v ∈ updates ++ [u], v.kind = .build) ↔ (∀ v ∈ updates, v.kind = .build) ∧ u.kind = .build := by
  simp only [List.forall_mem_append, List.forall_mem_singleton]

theorem early_of_builds (h : ∀ u ∈ updates, u.kind = .build) : early updates = updates :=
  List.takeWhile_eq_self_iff.2 fun u hu => by simpa using h u hu

/-- The last of the updates is early if all of them are builds. -/
theorem early_concat (updates : List Update) (u : Update) :
    early (updates ++ [u]) = if ∀ v ∈ updates ++ [u], v.kind = .build then updates ++ [u] else early updates := by
  split
  case isTrue hall => exact early_of_builds hall
  case isFalse hall =>
    rw [early, early, List.takeWhile_append]
    split
    case isTrue hlength =>
      -- those before it are builds, so it is the evaluation
      have hself := (List.takeWhile_prefix _).eq_of_length hlength
      have hbuilds : ∀ v ∈ updates, v.kind = .build := fun v hv => by
        simpa using List.takeWhile_eq_self_iff.1 hself v hv
      have hu : ¬u.kind = .build := fun hu => hall (builds_concat_iff.2 ⟨hbuilds, hu⟩)
      rw [hself, List.takeWhile_cons_of_neg (by simpa using hu), List.append_nil]
    case isFalse => rfl

end Early

/-! ## Where a holdback stands -/

/-- A holdback is told by the updates that it has taken in. -/
theorem after_eq (threshold : Nat) (past : List Update) :
    after { threshold } past =
      { threshold
        held := if past.any (·.kind = .evaluation) then [] else past
        passing := past.any (·.kind = .evaluation)
        warned := threshold < (early past).length } := by
  induction past using List.reverseRecOn with
  | nil => rfl
  | append_singleton past u ih =>
    rw [after_concat, ih, List.any_append, early_concat]
    cases hpast : past.any (·.kind = .evaluation) with
    | true =>
      have hnot : ¬∀ v ∈ past ++ [u], v.kind = .build := fun hall => by
        rw [not_any_evaluation_iff.2 (builds_concat_iff.1 hall).1] at hpast
        cases hpast
      rw [if_neg hnot]
      simp [push]
    | false =>
      have hbuilds := not_any_evaluation_iff.1 hpast
      rw [early_of_builds hbuilds]
      cases hu : u.kind with
      | evaluation =>
        have hnot : ¬∀ v ∈ past ++ [u], v.kind = .build := fun hall => by
          cases hu.symm.trans (builds_concat_iff.1 hall).2
        rw [if_neg hnot]
        simp [push, hu]
      | build =>
        rw [if_pos (builds_concat_iff.2 ⟨hbuilds, hu⟩), List.length_append, List.length_singleton]
        -- a warning is due when the threshold is passed, and not again
        by_cases hwarned : threshold < past.length
        · simp [push, hwarned, hu, Nat.lt_succ_of_lt hwarned]
        · by_cases hdue : threshold < past.length + 1
          · simp [push, hwarned, hdue, hu]
          · simp [push, hwarned, hdue, hu]

variable {threshold : Nat} {past : List Update}

/-- Without an evaluation all that came is held. -/
theorem after_of_builds (h : ∀ v ∈ past, v.kind = .build) :
    after { threshold } past = { threshold, held := past, warned := threshold < past.length } := by
  rw [after_eq, not_any_evaluation_iff.2 h, early_of_builds h]
  rfl

/-- After an evaluation each update passes by itself. -/
theorem push_of_evaluation (h : ∃ v ∈ past, v.kind = .evaluation) (u : Update) :
    (after { threshold } past).push u = (after { threshold } past, [u], none) := by
  have hpassing : (after { threshold } past).passing = true := by
    rw [after_eq]
    exact any_evaluation_iff.2 h
  rw [push, if_pos hpassing]

theorem evaluation_of_not_builds (h : ¬∀ v ∈ past, v.kind = .build) : ∃ v ∈ past, v.kind = .evaluation := by
  rw [← any_evaluation_iff, ← Bool.not_eq_false, not_any_evaluation_iff]
  exact h

/-- A warning is given where the held builds grow past the threshold. -/
theorem warning_eq (threshold : Nat) (past : List Update) (u : Update) :
    ((after { threshold } past).push u).2.2 =
      if past.length = threshold ∧ ∀ v ∈ past ++ [u], v.kind = .build then some ⟨threshold + 1, threshold⟩
      else none := by
  by_cases hpast : ∀ v ∈ past, v.kind = .build
  · rw [after_of_builds hpast]
    cases hu : u.kind with
    | evaluation => simp [push, hu]
    | build =>
      have hall : ∀ v ∈ past ++ [u], v.kind = .build := builds_concat_iff.2 ⟨hpast, hu⟩
      rcases Nat.lt_trichotomy past.length threshold with hlt | rfl | hgt
      · simp [push, hu, hlt.ne, show ¬threshold < past.length + 1 by omega]
      · rw [if_pos ⟨rfl, hall⟩]
        simp [push, hu]
      · simp [push, hu, hgt, hgt.ne']
  · rw [push_of_evaluation (evaluation_of_not_builds hpast), if_neg fun h => hpast (builds_concat_iff.1 h.2).1]

/-- One warning is given, or none. -/
theorem warnings_eq (threshold : Nat) (past : List Update) :
    warnings { threshold } past =
      if threshold < (early past).length then [⟨threshold + 1, threshold⟩] else [] := by
  induction past using List.reverseRecOn with
  | nil => rfl
  | append_singleton past u ih =>
    rw [warnings_concat, ih, warning_eq, early_concat]
    by_cases hall : ∀ v ∈ past ++ [u], v.kind = .build
    · rw [if_pos hall, early_of_builds (builds_concat_iff.1 hall).1, List.length_append, List.length_singleton]
      rcases Nat.lt_trichotomy past.length threshold with hlt | rfl | hgt
      · rw [if_neg hlt.not_gt, if_neg fun h => hlt.ne h.1, if_neg (by omega)]
        rfl
      · rw [if_neg (lt_irrefl _), if_pos ⟨rfl, hall⟩, if_pos (Nat.lt_succ_self _)]
        rfl
      · rw [if_pos hgt, if_neg fun h => hgt.ne' h.1, if_pos (Nat.lt_succ_of_lt hgt)]
        rfl
    · have hnot : ¬(past.length = threshold ∧ ∀ v ∈ past ++ [u], v.kind = .build) := fun h => hall h.2
      rw [if_neg hall, if_neg hnot]
      exact List.append_nil _

/-! ## What passes -/

/-- With an evaluation nothing is lost, and nothing comes twice. -/
theorem perm_passed (h : ∃ v ∈ past, v.kind = .evaluation) : (passed { threshold } past).Perm past :=
  perm_of_kinds fun kind => filter_passed h kind

/-- What a new holdback has done with the updates that it has taken in, and what it does with the next one. -/
structure Orders (threshold : Nat) (past : List Update) : Prop where
  /-- A build that comes before the first evaluation waits. -/
  holds : (∀ v ∈ past, v.kind = .build) → ∀ u, u.kind = .build →
    ((after { threshold } past).push u).2.1 = []
  /-- The first evaluation passes, and behind it all that have waited. -/
  releases : (∀ v ∈ past, v.kind = .build) → ∀ u, u.kind = .evaluation →
    ((after { threshold } past).push u).2.1 = u :: past
  /-- From then on each update passes by itself. -/
  passes : (∃ v ∈ past, v.kind = .evaluation) → ∀ u, ((after { threshold } past).push u).2.1 = [u]
  silent : (∀ v ∈ past, v.kind = .build) → passed { threshold } past = []
  complete : (∃ v ∈ past, v.kind = .evaluation) → (passed { threshold } past).Perm past
  leads : (∃ v ∈ past, v.kind = .evaluation) →
    ∃ first rest, passed { threshold } past = first :: rest ∧ first.kind = .evaluation
  /-- Updates of a kind keep their order. -/
  keeps : (∃ v ∈ past, v.kind = .evaluation) → ∀ kind,
    (passed { threshold } past).filter (·.kind = kind) = past.filter (·.kind = kind)
  pending : (after { threshold } past).pending = if past.any (·.kind = .evaluation) then 0 else past.length
  passing : (after { threshold } past).passing = past.any (·.kind = .evaluation)
  /-- The update with which the held builds grow past the threshold is warned of, and no other. -/
  warning : ∀ u, ((after { threshold } past).push u).2.2 =
    if past.length = threshold ∧ ∀ v ∈ past ++ [u], v.kind = .build then some ⟨threshold + 1, threshold⟩ else none
  /-- There is one warning, or none. -/
  warned : warnings { threshold } past =
    if threshold < (early past).length then [⟨threshold + 1, threshold⟩] else []

/-- A holdback lets the first evaluation pass first, then everything else as it comes. -/
theorem orders (threshold : Nat) (past : List Update) : Orders threshold past where
  holds h u hu := by
    rw [after_of_builds h]
    simp only [push, hu, Bool.false_eq_true, if_false]
    split <;> rfl
  releases h u hu := by
    rw [after_of_builds h]
    simp only [push, hu, Bool.false_eq_true, if_false]
  passes h u := by rw [push_of_evaluation h]
  silent := passed_of_builds
  complete := perm_passed
  leads h := by
    have hperm : (passed { threshold } past).Perm past := perm_passed h
    cases hpassed : passed { threshold } past with
    | nil =>
      rw [hpassed] at hperm
      obtain ⟨v, hv, -⟩ := h
      cases hperm.mem_iff.2 hv
    | cons first rest => exact ⟨first, rest, rfl, (passed_first hpassed).1⟩
  keeps := filter_passed
  pending := by
    rw [after_eq, Holdback.pending]
    split <;> rfl
  passing := by rw [after_eq]
  warning := warning_eq threshold past
  warned := warnings_eq threshold past

end Holdback

end SliceSync
