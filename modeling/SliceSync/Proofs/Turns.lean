import SliceSync.Proofs.Counts
/-!
# A change of the arguments, again and again

A handler of references that follows a change turns the count of each path once: by the arguments that came and
named it, and by those that went (`References.turn`). Following the same change again turns it once more, which
comes to one larger turn (`turn_turn`); that is no different from one turn exactly if as much came as went, or
nothing is left (`turn_eq_iff`). What becomes of the path in the context depends on the count before.
-/

namespace SliceSync

namespace References

/-! ## Counts -/

/-- The count of a path after arguments naming it have come and gone. -/
def turn (count : Option Nat) (come gone : Nat) : Option Nat :=
  if come = 0 ∧ gone = 0 then count
  else if count.getD 0 + come ≤ gone then none
  else some (count.getD 0 + come - gone)

theorem turn_zero (count : Option Nat) : turn count 0 0 = count := rfl

theorem turn_of_le {count : Option Nat} {come gone : Nat} (hz : ¬(come = 0 ∧ gone = 0))
    (h : count.getD 0 + come ≤ gone) : turn count come gone = none := by
  rw [turn, if_neg hz, if_pos h]

theorem turn_of_lt {count : Option Nat} {come gone : Nat} (hz : ¬(come = 0 ∧ gone = 0))
    (h : gone < count.getD 0 + come) : turn count come gone = some (count.getD 0 + come - gone) := by
  rw [turn, if_neg hz, if_neg (by omega)]

theorem getD_turn (count : Option Nat) (come gone : Nat) :
    (turn count come gone).getD 0 = count.getD 0 + come - gone := by
  by_cases hz : come = 0 ∧ gone = 0
  · obtain ⟨rfl, rfl⟩ := hz
    rfl
  · by_cases h : count.getD 0 + come ≤ gone
    · rw [turn_of_le hz h]
      show 0 = _
      omega
    · rw [turn_of_lt hz (by omega)]
      rfl

/-- As much more comes, and goes, as there are more times. -/
theorem times_le (come gone times : Nat) :
    times * come ≤ times * gone ∧ come ≤ gone ∨ times * gone ≤ times * come ∧ gone ≤ come :=
  (Nat.le_total come gone).imp (fun h => ⟨Nat.mul_le_mul_left times h, h⟩) fun h => ⟨Nat.mul_le_mul_left times h, h⟩

theorem times_not_zero {come gone times : Nat} (ht : times ≠ 0) (hz : ¬(come = 0 ∧ gone = 0)) :
    ¬(times * come = 0 ∧ times * gone = 0) := fun ⟨hcome, hgone⟩ =>
  hz ⟨(Nat.mul_eq_zero.1 hcome).resolve_left ht, (Nat.mul_eq_zero.1 hgone).resolve_left ht⟩

/-- One turn and some more of the same come to one larger turn. -/
theorem turn_turn (count : Option Nat) (come gone times : Nat) :
    turn (turn count come gone) (times * come) (times * gone) =
      turn count ((times + 1) * come) ((times + 1) * gone) := by
  by_cases hz : come = 0 ∧ gone = 0
  · obtain ⟨rfl, rfl⟩ := hz
    simp [turn_zero]
  by_cases ht : times = 0
  · subst ht
    simp [turn_zero]
  have hmore : ¬((times + 1) * come = 0 ∧ (times + 1) * gone = 0) := times_not_zero (by omega) hz
  have hsome := times_not_zero ht hz
  have hcome : (times + 1) * come = times * come + come := Nat.succ_mul times come
  have hgone : (times + 1) * gone = times * gone + gone := Nat.succ_mul times gone
  have hturn := getD_turn count come gone
  -- if more go than come, there is nothing left from some turn on
  have hle := times_le come gone times
  by_cases h : count.getD 0 + (times + 1) * come ≤ (times + 1) * gone
  · rw [turn_of_le hmore h, turn_of_le hsome (by omega)]
  · rw [turn_of_lt hmore (by omega), turn_of_lt hsome (by omega)]
    congr 1
    omega

/-- More turns make no difference exactly if there are none, or as much comes as goes, or nothing is left. -/
theorem turn_eq_iff (count : Option Nat) (come gone times : Nat) :
    turn count ((times + 1) * come) ((times + 1) * gone) = turn count come gone ↔
      times = 0 ∨ come = gone ∨ count.getD 0 + come ≤ gone := by
  rw [← turn_turn]
  by_cases hz : come = 0 ∧ gone = 0
  · obtain ⟨rfl, rfl⟩ := hz
    simp [turn_zero]
  by_cases ht : times = 0
  · subst ht
    simp [turn_zero]
  have hsome := times_not_zero ht hz
  have hturn := getD_turn count come gone
  have hle := times_le come gone times
  by_cases h : count.getD 0 + come ≤ gone
  · have hfewer := Nat.mul_le_mul_left times (show come ≤ gone by omega)
    rw [turn_of_le hz h, turn_of_le hsome (by simpa using hfewer)]
    exact iff_of_true rfl (.inr (.inr h))
  · by_cases heq : come = gone
    · subst heq
      rw [turn_of_lt hz (by omega), turn_of_lt hsome (by simp only [Option.getD_some]; omega)]
      refine iff_of_true ?_ (.inr (.inl rfl))
      simp only [Option.getD_some, Option.some.injEq]
      omega
    · -- what comes differs from what goes, and something is left
      refine iff_of_false (fun hsame => ?_) (by omega)
      have hpos : times * come ≠ times * gone := fun hmul => heq (Nat.eq_of_mul_eq_mul_left (by omega) hmul)
      have hleft := congrArg (Option.getD · 0) hsame
      simp only [getD_turn] at hleft
      omega

theorem turn_come_come (count : Option Nat) (come more : Nat) :
    turn (turn count come 0) more 0 = turn count (come + more) 0 := by
  by_cases hcome : come = 0 <;> by_cases hmore : more = 0 <;> simp [turn, hcome, hmore]
  omega

theorem turn_gone_gone (count : Option Nat) (gone more : Nat) :
    turn (turn count 0 gone) 0 more = turn count 0 (gone + more) := by
  by_cases hgone : gone = 0 <;> by_cases hmore : more = 0 <;> simp [turn, hgone, hmore]
  split <;> split <;> simp_all <;> omega

theorem turn_come_gone (count : Option Nat) (come gone : Nat) :
    turn (turn count come 0) 0 gone = turn count come gone := by
  by_cases hcome : come = 0 <;> by_cases hgone : gone = 0 <;> simp [turn, hcome, hgone]

theorem get?_acquire (r : References) (path other : String) :
    (r.acquire path).1.counts.get? other = turn (r.counts.get? other) (if path = other then 1 else 0) 0 := by
  unfold acquire
  by_cases h : path = other
  · subst h
    cases r.counts.get? path <;> simp [turn]
  · cases r.counts.get? path <;> simp [turn, h]

theorem get?_release (r : References) (path other : String) :
    (r.release path).1.counts.get? other = turn (r.counts.get? other) 0 (if path = other then 1 else 0) := by
  unfold release
  by_cases h : path = other
  · subst h
    cases hc : r.counts.get? path with
    | none => simp [turn, hc]
    | some n => by_cases hn : 1 < n <;> simp [turn, hn]
  · cases hc : r.counts.get? path with
    | none => simp [turn, h]
    | some n => by_cases hn : 1 < n <;> simp [turn, h, hn]

theorem get?_runAll_acquire (r : References) (paths : List String) (path : String) :
    (runAll acquire r paths).1.counts.get? path = turn (r.counts.get? path) (paths.count path) 0 := by
  induction paths generalizing r with
  | nil => rfl
  | cons other rest ih =>
    show (runAll acquire (r.acquire other).1 rest).1.counts.get? path = _
    rw [ih, get?_acquire, turn_come_come, List.count_cons, Nat.add_comm]
    simp only [beq_iff_eq]

theorem get?_runAll_release (r : References) (paths : List String) (path : String) :
    (runAll release r paths).1.counts.get? path = turn (r.counts.get? path) 0 (paths.count path) := by
  induction paths generalizing r with
  | nil => rfl
  | cons other rest ih =>
    show (runAll release (r.release other).1 rest).1.counts.get? path = _
    rw [ih, get?_release, turn_gone_gone, List.count_cons, Nat.add_comm]
    simp only [beq_iff_eq]

/-- How often the arguments that came, or those that went, name a path. -/
def comings (list : PathList) (d : ArgumentDifference) (path : String) : Nat :=
  (pathsOf list d.addedInputs).count path

def goings (list : PathList) (d : ArgumentDifference) (path : String) : Nat :=
  (pathsOf list d.removedInputs).count path

/-- Following a change turns each count once. -/
theorem get?_follow (r : References) (d : ArgumentDifference) (path : String) :
    (r.follow d).1.counts.get? path =
      turn (r.counts.get? path) (comings r.list d path) (goings r.list d path) := by
  unfold follow
  dsimp only
  rw [get?_runAll_release, get?_runAll_acquire, turn_come_gone]
  rfl

/-! ## Paths -/

theorem contains_replay_acquire (r : References) (c : Content) (path other : String) :
    ((c.replay (r.acquire path).2).paths r.list).contains other = true ↔
      (c.paths r.list).contains other = true ∨ r.counts.get? other = none ∧ path = other := by
  unfold acquire
  cases hc : r.counts.get? path with
  | none =>
    show (Content.paths (c.apply (.add r.list path)) r.list).contains other = true ↔ _
    rw [Content.paths_add, NameSet.contains_add, Bool.or_eq_true, decide_eq_true_eq, or_comm]
    refine or_congr_right ⟨fun h => ⟨h ▸ hc, h⟩, And.right⟩
  | some n =>
    refine ⟨.inl, fun h => h.resolve_right ?_⟩
    rintro ⟨hnone, rfl⟩
    exact absurd (hc.symm.trans hnone) nofun

theorem contains_replay_release (r : References) (c : Content) (path other : String) :
    ((c.replay (r.release path).2).paths r.list).contains other = true ↔
      (c.paths r.list).contains other = true ∧ ¬(path = other ∧ ∃ n, r.counts.get? other = some n ∧ n ≤ 1) := by
  unfold release
  cases hc : r.counts.get? path with
  | none =>
    refine ⟨fun h => ⟨h, ?_⟩, And.left⟩
    rintro ⟨rfl, n, hn, -⟩
    exact absurd (hc.symm.trans hn) nofun
  | some n =>
    dsimp only
    by_cases hn : 1 < n
    · rw [if_pos hn]
      refine ⟨fun h => ⟨h, ?_⟩, And.left⟩
      rintro ⟨rfl, m, hm, hle⟩
      cases hc.symm.trans hm
      omega
    · rw [if_neg hn]
      show (Content.paths (c.apply (.remove r.list path)) r.list).contains other = true ↔ _
      rw [Content.paths_remove, NameSet.contains_erase, Bool.and_eq_true, and_comm, Bool.not_eq_true',
        decide_eq_false_iff_not]
      refine and_congr_right fun _ => not_congr ⟨fun h => ⟨h, n, h ▸ hc, by omega⟩, And.left⟩

theorem contains_replay_runAll_acquire (r : References) (c : Content) (paths : List String) (path : String) :
    ((c.replay (runAll acquire r paths).2).paths r.list).contains path = true ↔
      (c.paths r.list).contains path = true ∨ r.counts.get? path = none ∧ path ∈ paths := by
  induction paths generalizing r c with
  | nil => simp [runAll, Content.replay]
  | cons other rest ih =>
    have hrest := ih (r.acquire other).1 (c.replay (r.acquire other).2)
    rw [acquire_list, ← Content.replay_append] at hrest
    have hfirst := contains_replay_acquire r c other path
    show ((c.replay ((r.acquire other).2 ++ (runAll acquire (r.acquire other).1 rest).2)).paths r.list).contains path =
      true ↔ _
    rw [hrest, hfirst, get?_acquire, List.mem_cons]
    by_cases h : other = path
    · -- it is there now, and counted
      subst h
      simp [turn]
    · have h' : path ≠ other := fun heq => h heq.symm
      simp [h, h', turn_zero]

theorem contains_replay_runAll_release (r : References) (c : Content) (paths : List String) (path : String) :
    ((c.replay (runAll release r paths).2).paths r.list).contains path = true ↔
      (c.paths r.list).contains path = true ∧
        ¬(path ∈ paths ∧ ∃ n, r.counts.get? path = some n ∧ n ≤ paths.count path) := by
  induction paths generalizing r c with
  | nil => simp [runAll, Content.replay]
  | cons other rest ih =>
    have hrest := ih (r.release other).1 (c.replay (r.release other).2)
    rw [release_list, ← Content.replay_append] at hrest
    have hfirst := contains_replay_release r c other path
    show ((c.replay ((r.release other).2 ++ (runAll release (r.release other).1 rest).2)).paths r.list).contains path =
      true ↔ _
    rw [hrest, hfirst, get?_release, List.mem_cons, and_assoc]
    refine and_congr_right fun _ => ?_
    by_cases h : other = path
    · subst h
      cases hc : r.counts.get? other with
      | none => simp [turn]
      | some n =>
        rw [List.count_cons_self]
        by_cases hn : n ≤ 1
        · have hgone : n ≤ rest.count other + 1 := by omega
          simp [turn, hn, hgone]
        · have hturn : turn (some n) 0 1 = some (n - 1) := by
            simp [turn, hn]
          have hlater : other ∈ rest ∨ rest.count other + 1 < n := by
            by_cases hle : n ≤ rest.count other + 1
            · exact .inl (List.count_pos_iff.1 (by omega))
            · exact .inr (by omega)
          have hless : n - 1 ≤ rest.count other ↔ n ≤ rest.count other + 1 := by omega
          simpa [hturn, hn, hless] using hlater
    · have h' : path ≠ other := fun heq => h heq.symm
      simp [h, h', turn_zero, List.count_cons_of_ne]

/-- A path is taken out when what went covers its count and what came. -/
def Removes (count : Option Nat) (come gone : Nat) : Prop :=
  gone ≠ 0 ∧ (come ≠ 0 ∨ count ≠ none) ∧ count.getD 0 + come ≤ gone

theorem contains_replay_follow (r : References) (c : Content) (d : ArgumentDifference) (path : String) :
    ((c.replay (r.follow d).2).paths r.list).contains path = true ↔
      ((c.paths r.list).contains path = true ∨ r.counts.get? path = none ∧ comings r.list d path ≠ 0) ∧
        ¬Removes (r.counts.get? path) (comings r.list d path) (goings r.list d path) := by
  have hcome := contains_replay_runAll_acquire r c (pathsOf r.list d.addedInputs) path
  have hgone := contains_replay_runAll_release (runAll acquire r (pathsOf r.list d.addedInputs)).1
    (c.replay (runAll acquire r (pathsOf r.list d.addedInputs)).2) (pathsOf r.list d.removedInputs) path
  rw [runAll_acquire_list, ← Content.replay_append] at hgone
  show ((c.replay ((runAll acquire r (pathsOf r.list d.addedInputs)).2 ++
    (runAll release (runAll acquire r (pathsOf r.list d.addedInputs)).1 (pathsOf r.list d.removedInputs)).2)).paths
      r.list).contains path = true ↔ _
  rw [hgone, hcome, get?_runAll_acquire]
  have mem (l : List String) : path ∈ l ↔ l.count path ≠ 0 := by
    rw [← List.count_pos_iff, Nat.pos_iff_ne_zero]
  rw [mem, mem]
  refine and_congr_right fun _ => not_congr ?_
  show (goings r.list d path ≠ 0 ∧ ∃ n, turn _ (comings r.list d path) 0 = some n ∧ n ≤ goings r.list d path) ↔ _
  refine and_congr_right fun _ => ?_
  generalize comings r.list d path = come
  cases hc : r.counts.get? path <;> by_cases hz : come = 0 <;> simp [turn, hz]

/-- A change decides on a path: it is taken out, or, if more came than went, put in as one not counted before. -/
def Decides (count : Option Nat) (come gone : Nat) : Prop :=
  if gone < come then count = none else Removes count come gone

/-- A path that is decided on is there after if more came than went. -/
theorem contains_replay_follow_of_decides {r : References} {d : ArgumentDifference} {path : String}
    (h : Decides (r.counts.get? path) (comings r.list d path) (goings r.list d path)) (c : Content) :
    ((c.replay (r.follow d).2).paths r.list).contains path = decide (goings r.list d path < comings r.list d path) := by
  rw [Bool.eq_iff_iff, contains_replay_follow, decide_eq_true_eq]
  unfold Decides at h
  unfold Removes at h ⊢
  split at h
  · rename_i hlt
    exact iff_of_true ⟨.inr ⟨h, by omega⟩, by omega⟩ hlt
  · rename_i hle
    exact iff_of_false (fun hheld => hheld.2 h) hle

/-- One that is not stays as it was. -/
theorem contains_replay_follow_of_not_decides {r : References} {d : ArgumentDifference} {path : String}
    (h : ¬Decides (r.counts.get? path) (comings r.list d path) (goings r.list d path)) (c : Content) :
    ((c.replay (r.follow d).2).paths r.list).contains path = (c.paths r.list).contains path := by
  rw [Bool.eq_iff_iff, contains_replay_follow]
  unfold Decides at h
  split at h
  · rename_i hlt
    have hstays : ¬Removes (r.counts.get? path) (comings r.list d path) (goings r.list d path) := fun hr => by
      have := hr.2.2
      omega
    simp [h, hstays]
  · rename_i hle
    have hknown : r.counts.get? path = none → comings r.list d path = 0 := by
      intro hnone
      by_contra hcome
      exact h ⟨by omega, .inl hcome, by rw [hnone]; show 0 + _ ≤ _; omega⟩
    simp only [h, not_false_eq_true, and_true, or_iff_left_iff_imp, and_imp]
    exact fun hnone hcome => absurd (hknown hnone) hcome

/-- A second turn decides on nothing that the first did not, if it makes no difference to the count. -/
theorem decides_of_turn {count : Option Nat} {come gone : Nat} (h : come = gone ∨ count.getD 0 + come ≤ gone)
    (hd : Decides (turn count come gone) come gone) : Decides count come gone := by
  unfold Decides at hd ⊢
  have hle : ¬gone < come := by omega
  rw [if_neg hle] at hd ⊢
  obtain ⟨hgone, hknown, hcover⟩ := hd
  rw [getD_turn] at hcover
  refine ⟨hgone, ?_, by omega⟩
  by_cases hcome : come = 0
  · refine .inr ?_
    rintro rfl
    subst hcome
    refine (hknown.resolve_left fun h => h rfl) ?_
    exact turn_of_le (fun hz => hgone hz.2) (by simp)
  · exact .inl hcome

end References

end SliceSync
