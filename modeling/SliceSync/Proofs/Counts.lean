import Mathlib.Data.List.Perm.Basic
import SliceSync.Context.Content
import SliceSync.Handler
/-!
# Counted references

A reference handler counts, for each path, how many distinct arguments of the list applied last name it,
and keeps exactly the counted paths in the context. Following a change of the list keeps this so
(`Counted.follow`): the arguments that came and went turn the distinct arguments of the one list into
those of the other, whatever is repeated, named twice or spelled in several ways.
-/

namespace SliceSync

/-! ## The parts of a context -/

/-- What a mutation changes. -/
inductive Part
  | paths (list : PathList)
  | options
  | displayName
  | outputPath
  | outcome
  deriving DecidableEq

/-- The part of the context that a mutation changes. -/
def Mutation.part : Mutation → Part
  | .add list _ | .remove list _ => .paths list
  | .setOptions _ => .options
  | .setDisplayName _ => .displayName
  | .setOutputPath _ => .outputPath
  | .setLastBuildSucceeded _ => .outcome

namespace Content

theorem replay_append (c : Content) (l m : List Mutation) :
    c.replay (l ++ m) = (c.replay l).replay m := List.foldl_append

theorem replay_cons (c : Content) (m : Mutation) (l : List Mutation) :
    c.replay (m :: l) = (c.apply m).replay l := rfl

/-- Mutations of other parts leave a list of paths alone. -/
theorem paths_replay {list : PathList} {l : List Mutation} (h : ∀ m ∈ l, m.part ≠ .paths list)
    (c : Content) : (c.replay l).paths list = c.paths list := by
  induction l generalizing c with
  | nil => rfl
  | cons m rest ih =>
    rw [replay_cons, ih fun n hn => h n (by simp [hn])]
    have hm := h m (by simp)
    cases m with
    | add other path | remove other path =>
      have hne : other ≠ list := fun heq => hm (by rw [heq]; rfl)
      simp [apply, hne]
    | _ => cases list <;> rfl

/-- Mutations of other parts leave the outcome of the last build alone. -/
theorem lastBuildSucceeded_replay {l : List Mutation} (h : ∀ m ∈ l, m.part ≠ .outcome) (c : Content) :
    (c.replay l).lastBuildSucceeded = c.lastBuildSucceeded := by
  induction l generalizing c with
  | nil => rfl
  | cons m rest ih =>
    rw [replay_cons, ih fun n hn => h n (by simp [hn])]
    have hm := h m (by simp)
    cases m with
    | add list path | remove list path => cases list <;> rfl
    | setLastBuildSucceeded succeeded => exact absurd rfl hm
    | _ => rfl

theorem paths_add (c : Content) (list : PathList) (path : String) :
    (c.apply (.add list path)).paths list = (c.paths list).add path := by
  simp [apply]

theorem paths_remove (c : Content) (list : PathList) (path : String) :
    (c.apply (.remove list path)).paths list = NameMap.erase (c.paths list) path := by
  simp [apply]

end Content

theorem NameSet.contains_erase (s : NameSet) (name other : String) :
    NameMap.contains (NameMap.erase s name) other = (!decide (name = other) && s.contains other) := by
  by_cases h : name = other <;> simp [NameMap.contains, h]

theorem NameSet.ext_contains {s t : NameSet} (h : ∀ name, s.contains name = true ↔ t.contains name = true) : s = t := by
  refine NameMap.ext_get? fun name => ?_
  have hsame := h name
  unfold NameMap.contains at hsame
  cases hs : s.get? name <;> cases ht : t.get? name <;> simp [hs, ht] at hsame ⊢

/-! ## Distinct arguments -/

theorem nodup_eraseDups (l : List String) : l.eraseDups.Nodup := by
  -- the recursion of `eraseDups` is on a filtered tail, hence on the length
  induction hn : l.length using Nat.strongRecOn generalizing l with
  | ind n ih =>
    cases l with
    | nil => exact List.nodup_nil
    | cons a rest =>
      rw [List.eraseDups_cons, List.nodup_cons]
      constructor
      · intro ha
        have := List.mem_filter.1 (List.mem_eraseDups.1 ha)
        simp at this
      · have hle := List.length_filter_le (fun b => !b == a) rest
        rw [List.length_cons] at hn
        exact ih _ (by omega) _ rfl

/-- What came joins the distinct arguments of the old list, what went those of the new one: both ways give
the distinct arguments of the two lists together. -/
theorem eraseDups_append_onlyIn_perm (previous current : List String) :
    (previous.eraseDups ++ onlyIn current previous).Perm (current.eraseDups ++ onlyIn previous current) := by
  have nodup (l m : List String) : (l.eraseDups ++ onlyIn m l).Nodup := by
    refine List.nodup_append.2 ⟨nodup_eraseDups l, nodup_eraseDups _, ?_⟩
    rintro a ha b hb rfl
    exact (mem_onlyIn.1 hb).2 (List.mem_eraseDups.1 ha)
  refine (List.perm_ext_iff_of_nodup (nodup _ _) (nodup _ _)).2 fun a => ?_
  simp only [List.mem_append, List.mem_eraseDups, mem_onlyIn]
  by_cases hp : a ∈ previous <;> by_cases hc : a ∈ current <;> simp [hp, hc]

theorem ArgumentDifference.isEmpty_between_iff {previous current : List String} :
    (between previous current).isEmpty = true ↔ ∀ a, a ∈ previous ↔ a ∈ current := by
  unfold isEmpty
  rw [Bool.and_eq_true, List.isEmpty_iff, List.isEmpty_iff, List.eq_nil_iff_forall_not_mem,
    List.eq_nil_iff_forall_not_mem]
  simp only [mem_added_iff, mem_removed_iff, not_and, Decidable.not_not]
  constructor
  · rintro ⟨hadded, hremoved⟩ a
    exact ⟨hremoved a, hadded a⟩
  · intro h
    exact ⟨fun a => (h a).2, fun a => (h a).1⟩

namespace References

theorem pathsOf_ofArguments (list : PathList) (args : List String) :
    pathsOf list (.ofArguments args) = args.flatMap fun arg => pathsOf list (.ofArgument arg) := by
  induction args with
  | nil => cases list <;> rfl
  | cons arg rest ih =>
    rw [List.flatMap_cons, ← ih]
    cases list <;> rfl

/-- The paths named are those that some argument names. -/
theorem mem_pathsOf_iff {list : PathList} {args : List String} {path : String} :
    path ∈ pathsOf list (.ofArguments args) ↔ ∃ arg ∈ args, path ∈ pathsOf list (.ofArgument arg) := by
  rw [pathsOf_ofArguments, List.mem_flatMap]

/-- The paths that the distinct arguments of a list name, with repetitions. -/
def named (list : PathList) (args : List String) : List String := pathsOf list (.ofArguments args.eraseDups)

theorem mem_named_iff {list : PathList} {args : List String} {path : String} :
    path ∈ named list args ↔ path ∈ pathsOf list (.ofArguments args) := by
  simp only [named, mem_pathsOf_iff, List.mem_eraseDups]

/-- Lists of the same arguments name the same paths, as often. -/
theorem named_perm {list : PathList} {l m : List String} (h : ∀ a, a ∈ l ↔ a ∈ m) :
    (named list l).Perm (named list m) := by
  unfold named
  rw [pathsOf_ofArguments, pathsOf_ofArguments]
  refine List.Perm.flatMap_right _ ?_
  refine (List.perm_ext_iff_of_nodup (nodup_eraseDups l) (nodup_eraseDups m)).2 fun a => ?_
  simpa only [List.mem_eraseDups] using h a

theorem named_change (list : PathList) (previous current : List String) :
    (pathsOf list (ArgumentDifference.between previous current).addedInputs ++ named list previous).Perm
      (pathsOf list (ArgumentDifference.between previous current).removedInputs ++ named list current) := by
  have h := (eraseDups_append_onlyIn_perm previous current).flatMap_right fun arg =>
    pathsOf list (.ofArgument arg)
  simp only [List.flatMap_append, ← pathsOf_ofArguments] at h
  refine List.perm_append_comm.trans (h.trans List.perm_append_comm)

/-! ## Counts and paths -/

/-- The handler counts how often each path stands in the list, and the context holds the counted ones. -/
structure Counted (r : References) (c : Content) (l : List String) : Prop where
  counts : ∀ path, r.counts.get? path = if l.count path = 0 then none else some (l.count path)
  paths : ∀ path, (c.paths r.list).contains path = true ↔ path ∈ l

variable {r : References} {c : Content} {l m : List String}

theorem Counted.perm (h : r.Counted c l) (hp : l.Perm m) : r.Counted c m :=
  ⟨fun path => by rw [h.counts, hp.count_eq], fun path => (h.paths path).trans hp.mem_iff⟩

theorem Counted.congr {c' : Content} (h : r.Counted c l) (hc : c'.paths r.list = c.paths r.list) :
    r.Counted c' l :=
  ⟨h.counts, fun path => by rw [hc, h.paths]⟩

@[simp] theorem acquire_list (r : References) (path : String) : (r.acquire path).1.list = r.list := by
  unfold acquire
  cases r.counts.get? path <;> rfl

@[simp] theorem release_list (r : References) (path : String) : (r.release path).1.list = r.list := by
  unfold release
  cases r.counts.get? path with
  | none => rfl
  | some n =>
    dsimp only
    split <;> rfl

/-- One more argument names the path. -/
theorem Counted.acquire (h : r.Counted c l) (path : String) :
    (r.acquire path).1.Counted (c.replay (r.acquire path).2) (path :: l) := by
  have hcount := h.counts path
  unfold References.acquire
  by_cases hz : l.count path = 0
  · -- the first to name the path brings it in
    rw [if_pos hz] at hcount
    rw [hcount]
    refine ⟨fun other => ?_, fun other => ?_⟩
    · by_cases ho : path = other
      · subst ho
        simp [hz]
      · simp [ho, h.counts]
    · show (Content.paths (c.apply (.add r.list path)) r.list).contains other = true ↔ _
      rw [Content.paths_add, NameSet.contains_add, Bool.or_eq_true, h.paths, decide_eq_true_eq,
        List.mem_cons]
      exact or_congr_left eq_comm
  · -- the path is there already, so only its count grows
    rw [if_neg hz] at hcount
    rw [hcount]
    have hmem : path ∈ l := List.count_pos_iff.1 (Nat.pos_of_ne_zero hz)
    refine ⟨fun other => ?_, fun other => ?_⟩
    · by_cases ho : path = other
      · subst ho
        simp
      · simp [ho, h.counts]
    · refine (h.paths other).trans ?_
      rw [List.mem_cons]
      constructor
      · exact .inr
      · rintro (rfl | ho)
        · exact hmem
        · exact ho

/-- One argument less names the path; if it is taken out of the context, none is left. -/
theorem Counted.release {path : String} (h : r.Counted c (path :: l)) :
    (r.release path).1.Counted (c.replay (r.release path).2) l ∧
      ∀ other, .remove r.list other ∈ (r.release path).2 → other ∉ l := by
  have hcount := h.counts path
  rw [List.count_cons_self, if_neg (Nat.succ_ne_zero _)] at hcount
  unfold References.release
  rw [hcount]
  dsimp only
  by_cases hz : l.count path = 0
  · -- the last to name the path takes it out
    rw [if_neg (by omega)]
    have hmem : path ∉ l := List.count_eq_zero.1 hz
    refine ⟨⟨fun other => ?_, fun other => ?_⟩, fun other ho => ?_⟩
    · by_cases ho : path = other
      · subst ho
        simp [hz]
      · simp [ho, h.counts]
    · show (Content.paths (c.apply (.remove r.list path)) r.list).contains other = true ↔ _
      rw [Content.paths_remove, NameSet.contains_erase, Bool.and_eq_true, h.paths, List.mem_cons]
      constructor
      · rintro ⟨hne, rfl | ho⟩
        · simp at hne
        · exact ho
      · intro ho
        refine ⟨?_, .inr ho⟩
        have hne : path ≠ other := fun heq => hmem (heq ▸ ho)
        simp [hne]
    · cases List.mem_singleton.1 ho
      exact hmem
  · -- another argument still names it
    rw [if_pos (by omega)]
    have hmem : path ∈ l := List.count_pos_iff.1 (Nat.pos_of_ne_zero hz)
    refine ⟨⟨fun other => ?_, fun other => ?_⟩, fun other ho => absurd ho List.not_mem_nil⟩
    · by_cases ho : path = other
      · subst ho
        simp [hz]
      · simp [ho, h.counts]
    · refine (h.paths other).trans ?_
      rw [List.mem_cons]
      constructor
      · rintro (rfl | ho)
        · exact hmem
        · exact ho
      · exact .inr

/-! ## Rounds of a change -/

theorem runAll_acquire_list (r : References) (paths : List String) :
    (runAll References.acquire r paths).1.list = r.list :=
  runAll_keeps (P := fun s => s.list = r.list) (fun s path hs => (acquire_list s path).trans hs) rfl paths

theorem runAll_release_list (r : References) (paths : List String) :
    (runAll References.release r paths).1.list = r.list :=
  runAll_keeps (P := fun s => s.list = r.list) (fun s path hs => (release_list s path).trans hs) rfl paths

theorem acquire_mutations {m : Mutation} (r : References) (path : String) (h : m ∈ (r.acquire path).2) :
    m = .add r.list path := by
  unfold References.acquire at h
  cases hc : r.counts.get? path <;> rw [hc] at h
  · exact List.mem_singleton.1 h
  · cases h

theorem release_mutations {m : Mutation} (r : References) (path : String) (h : m ∈ (r.release path).2) :
    m = .remove r.list path := by
  unfold References.release at h
  cases hc : r.counts.get? path with
  | none =>
    rw [hc] at h
    cases h
  | some n =>
    rw [hc] at h
    dsimp only at h
    split at h
    · cases h
    · exact List.mem_singleton.1 h

theorem runAll_acquire_mutations {m : Mutation} (r : References) (paths : List String)
    (h : m ∈ (runAll References.acquire r paths).2) : ∃ path, m = .add r.list path := by
  obtain ⟨s, path, hs, hm⟩ :=
    mem_runAll (P := fun s => s.list = r.list) (fun s path hs => (acquire_list s path).trans hs) rfl h
  exact ⟨path, hs ▸ acquire_mutations s path hm⟩

theorem runAll_release_mutations {m : Mutation} (r : References) (paths : List String)
    (h : m ∈ (runAll References.release r paths).2) : ∃ path, m = .remove r.list path := by
  obtain ⟨s, path, hs, hm⟩ :=
    mem_runAll (P := fun s => s.list = r.list) (fun s path hs => (release_list s path).trans hs) rfl h
  exact ⟨path, hs ▸ release_mutations s path hm⟩

theorem Counted.runAll_acquire (h : r.Counted c l) (paths : List String) :
    (runAll References.acquire r paths).1.Counted
      (c.replay (runAll References.acquire r paths).2) (paths ++ l) := by
  induction paths generalizing r c l with
  | nil => exact h
  | cons path rest ih =>
    have := ih (h.acquire path)
    unfold runAll
    rw [Content.replay_append]
    exact this.perm List.perm_middle

/-- A path that is taken out is named by nothing that stays: no later argument of the round brings it
back. -/
theorem Counted.runAll_release {paths : List String} (h : r.Counted c (paths ++ l)) :
    (runAll References.release r paths).1.Counted (c.replay (runAll References.release r paths).2) l ∧
      ∀ path, .remove r.list path ∈ (runAll References.release r paths).2 → path ∉ l := by
  induction paths generalizing r c with
  | nil => exact ⟨h, fun path hp => absurd hp List.not_mem_nil⟩
  | cons path rest ih =>
    obtain ⟨hfirst, hgone⟩ := Counted.release (l := rest ++ l) h
    obtain ⟨hrest, hgone'⟩ := ih hfirst
    unfold runAll
    rw [Content.replay_append]
    refine ⟨hrest, fun other ho => ?_⟩
    rcases List.mem_append.1 ho with ho | ho
    · exact fun hl => hgone other ho (List.mem_append_right _ hl)
    · exact hgone' other (by rwa [release_list])

@[simp] theorem follow_list (r : References) (d : ArgumentDifference) : (r.follow d).1.list = r.list :=
  (runAll_release_list _ _).trans (runAll_acquire_list _ _)

/-- A handler changes its own list only. -/
theorem follow_part {r : References} {d : ArgumentDifference} {m : Mutation} (h : m ∈ (r.follow d).2) :
    m.part = .paths r.list := by
  rcases List.mem_append.1 h with h | h
  · obtain ⟨path, rfl⟩ := runAll_acquire_mutations _ _ h
    rfl
  · obtain ⟨path, rfl⟩ := runAll_release_mutations _ _ h
    rw [runAll_acquire_list]
    rfl

theorem paths_follow_of_ne (r : References) (d : ArgumentDifference) (c : Content) {list : PathList}
    (h : r.list ≠ list) : (c.replay (r.follow d).2).paths list = c.paths list := by
  refine Content.paths_replay (fun m hm heq => ?_) c
  rw [follow_part hm] at heq
  exact h (Part.paths.inj heq)

/-- Following a change of the list, the handler counts the arguments of the new list, and takes out no
path that the new list names. -/
theorem Counted.follow {previous current : List String} (h : r.Counted c (named r.list previous)) :
    (r.follow (.between previous current)).1.Counted
        (c.replay (r.follow (.between previous current)).2) (named r.list current) ∧
      ∀ path, .remove r.list path ∈ (r.follow (.between previous current)).2 →
        path ∉ pathsOf r.list (.ofArguments current) := by
  have hcome := (h.runAll_acquire (pathsOf r.list (ArgumentDifference.between previous current).addedInputs)).perm
    (named_change r.list previous current)
  have hlist := runAll_acquire_list r (pathsOf r.list (ArgumentDifference.between previous current).addedInputs)
  obtain ⟨hgo, hgone⟩ := hcome.runAll_release
  unfold References.follow
  dsimp only
  rw [Content.replay_append]
  refine ⟨hgo, fun path hp => ?_⟩
  rw [← mem_named_iff]
  rcases List.mem_append.1 hp with hp | hp
  · obtain ⟨other, ho⟩ := runAll_acquire_mutations _ _ hp
    cases ho
  · exact hgone path (by rwa [hlist])

/-- A handler that has seen no argument counts nothing. -/
theorem counted_nil {list : PathList} {c : Content} (h : c.paths list = ∅) :
    Counted { list } c (named list []) := by
  have hn : named list [] = [] := by cases list <;> rfl
  rw [hn]
  refine ⟨fun _ => rfl, fun path => ?_⟩
  rw [h]
  simp [NameMap.contains]

end References

end SliceSync
