import Mathlib.Data.List.Induction
import SliceSync.Proofs.Standard
/-!
# Tracked files

A handler of source items keeps the set of paths it has put into the context. It sees names come and go
from one delivered list to the next, and a path goes with any name that is read as it. So a path is
tracked when a name read as it came with some list and no name read as it went since (`Stands`), which
is less than that some name of the last list is read as it.
-/

namespace SliceSync

namespace NameMap

variable {β : Type}

theorem get?_insertAll (m : NameMap β) (pairs : List (String × β)) (name : String) :
    (m.insertAll pairs).get? name =
      ((pairs.reverse.find? (·.1 = name)).map (·.2)).or (m.get? name) := by
  induction pairs generalizing m with
  | nil => simp [insertAll]
  | cons e rest ih =>
    have hstep : m.insertAll (e :: rest) = (m.insert e.1 e.2).insertAll rest := rfl
    rw [hstep, ih, get?_insert, List.reverse_cons, List.find?_append]
    cases rest.reverse.find? (·.1 = name) with
    | some later => rfl
    | none => by_cases h : e.1 = name <;> simp [h]

/-- Among pairs of different names the order does not count. -/
theorem find?_reverse {pairs : List (String × β)} (h : (pairs.map (·.1)).Nodup) (name : String) :
    pairs.reverse.find? (·.1 = name) = pairs.find? (·.1 = name) := by
  induction pairs with
  | nil => rfl
  | cons e rest ih =>
    rw [List.map_cons, List.nodup_cons] at h
    rw [List.reverse_cons, List.find?_append, ih h.2]
    by_cases he : e.1 = name
    · have hnone : rest.find? (·.1 = name) = none := by
        refine List.find?_eq_none.2 fun x hx hname => h.1 ?_
        rw [he, ← of_decide_eq_true hname]
        exact List.mem_map_of_mem hx
      simp [he, hnone]
    · rw [List.find?_cons_of_neg (by simpa using he)]
      simp [he]

/-- Binding all of one map in another: the new bindings count. -/
theorem get?_insertAll_toList (m n : NameMap β) (name : String) :
    (m.insertAll n.toList).get? name = (n.get? name).or (m.get? name) := by
  have hnodup : (n.toList.map (·.1)).Nodup := n.nodup_names
  rw [get?_insertAll, find?_reverse hnodup]
  rfl

theorem get?_ofList {pairs : List (String × β)} (h : (pairs.map (·.1)).Nodup) (name : String) :
    (ofList pairs).get? name = (pairs.find? (·.1 = name)).map (·.2) := by
  rw [ofList, get?_insertAll, find?_reverse h]
  simp

end NameMap

/-! ## Lists of names, one after the other -/

/-- Each list with the one before it. -/
def turnovers (held : List String) : List (List String) → List (List String × List String)
  | [] => []
  | names :: rest => (held, names) :: turnovers names rest

theorem turnovers_concat (held : List String) (lists : List (List String)) (names : List String) :
    turnovers held (lists ++ [names]) = turnovers held lists ++ [(lists.getLastD held, names)] := by
  induction lists generalizing held with
  | nil => rfl
  | cons first rest ih =>
    rw [List.cons_append, turnovers, ih, turnovers, List.getLastD_cons, List.cons_append]

/-- A name read as the path comes. -/
def Brings (resolve : String → String) (path : String) (t : List String × List String) : Prop :=
  ∃ name ∈ t.2, name ∉ t.1 ∧ resolve name = path

/-- A name read as the path goes. -/
def Drops (resolve : String → String) (path : String) (t : List String × List String) : Prop :=
  ∃ name ∈ t.1, name ∉ t.2 ∧ resolve name = path

/-- A name read as the path came with one of the lists, and none went since. -/
def Stands (resolve : String → String) (lists : List (List String)) (path : String) : Prop :=
  ∃ before t after, turnovers [] lists = before ++ t :: after ∧ Brings resolve path t ∧
    ∀ t ∈ after, ¬Drops resolve path t

variable {resolve : String → String} {lists : List (List String)} {names : List String} {path : String}
  {turns : List (List String × List String)} {t : List String × List String}

/-- A name read as the path came with one of the changes, and none went since. -/
def Remains (resolve : String → String) (turns : List (List String × List String)) (path : String) : Prop :=
  ∃ before t after, turns = before ++ t :: after ∧ Brings resolve path t ∧ ∀ t ∈ after, ¬Drops resolve path t

theorem stands_iff_remains : Stands resolve lists path ↔ Remains resolve (turnovers [] lists) path := .rfl

theorem not_remains_nil : ¬Remains resolve [] path := by
  rintro ⟨before, t, after, h, -⟩
  cases before <;> cases h

/-- What one more change does: what it brings remains, and what remained and is not dropped. -/
theorem remains_concat :
    Remains resolve (turns ++ [t]) path ↔
      Brings resolve path t ∨ Remains resolve turns path ∧ ¬Drops resolve path t := by
  constructor
  · rintro ⟨before, t', after, hl, hbrings, hstays⟩
    rcases List.eq_nil_or_concat after with rfl | ⟨after, last, rfl⟩
    · obtain ⟨-, heq⟩ := List.append_inj' hl rfl
      cases heq
      exact .inl hbrings
    · rw [List.concat_eq_append] at hl hstays
      rw [← List.cons_append, ← List.append_assoc] at hl
      obtain ⟨rfl, heq⟩ := List.append_inj' hl rfl
      cases heq
      exact .inr ⟨⟨before, t', after, rfl, hbrings, fun t ht => hstays t (List.mem_append_left _ ht)⟩,
        hstays _ (by simp)⟩
  · rintro (hbrings | ⟨⟨before, t', after, rfl, hbrings, hstays⟩, hlast⟩)
    · exact ⟨turns, t, [], rfl, hbrings, fun t ht => absurd ht List.not_mem_nil⟩
    · refine ⟨before, t', after ++ [t], by simp, hbrings, fun t ht => ?_⟩
      rcases List.mem_append.1 ht with ht | ht
      · exact hstays t ht
      · rw [List.mem_singleton.1 ht]
        exact hlast

theorem not_stands_nil : ¬Stands resolve [] path := not_remains_nil

/-- What one more list does: what it brings stands, and what stood and is not dropped. -/
theorem stands_concat :
    Stands resolve (lists ++ [names]) path ↔
      Brings resolve path (lists.getLastD [], names) ∨
        Stands resolve lists path ∧ ¬Drops resolve path (lists.getLastD [], names) := by
  rw [stands_iff_remains, turnovers_concat, remains_concat, stands_iff_remains]

/-- A path that stands is named by the last list. -/
theorem Stands.named (h : Stands resolve lists path) : ∃ name ∈ lists.getLastD [], resolve name = path := by
  induction lists using List.reverseRecOn with
  | nil => exact absurd h not_stands_nil
  | append_singleton lists names ih =>
    rw [List.getLastD_concat]
    rcases stands_concat.1 h with ⟨name, hname, -, hpath⟩ | ⟨h, hstays⟩
    · exact ⟨name, hname, hpath⟩
    · obtain ⟨name, hname, hpath⟩ := ih h
      by_cases hnew : name ∈ names
      · exact ⟨name, hnew, hpath⟩
      · exact absurd ⟨name, hname, hnew, hpath⟩ hstays

/-- Where different names are read as different paths, all that the last list names stands. -/
theorem stands_of_distinct (h : ∀ a ∈ lists.flatten, ∀ b ∈ lists.flatten, resolve a = resolve b → a = b)
    {name : String} (hname : name ∈ lists.getLastD []) : Stands resolve lists (resolve name) := by
  induction lists using List.reverseRecOn with
  | nil => cases hname
  | append_singleton lists names ih =>
    rw [List.getLastD_concat] at hname
    have hlast {a : String} (ha : a ∈ lists.getLastD []) : a ∈ lists.flatten := by
      rcases List.eq_nil_or_concat lists with rfl | ⟨rest, last, rfl⟩
      · cases ha
      · rw [List.concat_eq_append, List.getLastD_concat] at ha
        simp [ha]
    rw [stands_concat]
    by_cases hold : name ∈ lists.getLastD []
    · -- a name that stays keeps its path, since no name that goes is read as that path
      refine .inr ⟨ih (fun a ha b hb => h a (by simp [ha]) b (by simp [hb])) hold, ?_⟩
      rintro ⟨other, hother, hgone, hpath⟩
      obtain rfl := h other (by simp [hlast hother]) name (by simp [hname]) hpath
      exact hgone hname
    · exact .inl ⟨name, hname, hold, rfl⟩

/-! ## The handler of one item type -/

namespace ItemFiles

/-- The path of an item. -/
def pathOf (f : ItemFiles) (item : String) : String := Text.Path.resolveIn f.directory item

theorem drop_eq (f : ItemFiles) (item : String) :
    f.drop item =
      if f.tracked.contains (f.pathOf item) then
        ({ f with tracked := NameMap.erase f.tracked (f.pathOf item) }, [.remove f.list (f.pathOf item)])
      else (f, []) := rfl

theorem take_eq (f : ItemFiles) (item : String) :
    f.take item =
      if f.tracked.contains (f.pathOf item) then (f, [])
      else ({ f with tracked := f.tracked.add (f.pathOf item) }, [.add f.list (f.pathOf item)]) := rfl

theorem pathOf_of_directory {f g : ItemFiles} (h : f.directory = g.directory) : f.pathOf = g.pathOf := by
  funext item
  rw [pathOf, h, pathOf]

/-- The paths with this property are those that are tracked, and those that the context holds. -/
structure Filed (f : ItemFiles) (c : Content) (P : String → Prop) : Prop where
  tracked : ∀ path, f.tracked.contains path = true ↔ P path
  paths : ∀ path, (c.paths f.list).contains path = true ↔ P path

variable {f : ItemFiles} {c c' : Content} {P Q : String → Prop}

theorem Filed.congr (h : f.Filed c P) (hc : c'.paths f.list = c.paths f.list) (hP : ∀ path, P path ↔ Q path) :
    f.Filed c' Q :=
  ⟨fun path => (h.tracked path).trans (hP path), fun path => by rw [hc, h.paths, hP]⟩

/-- The path of an item is taken out, whether or not another item has it. -/
theorem Filed.drop (h : f.Filed c P) (item : String) :
    (f.drop item).1.Filed (c.replay (f.drop item).2) (fun path => P path ∧ f.pathOf item ≠ path) := by
  rw [drop_eq]
  by_cases ht : f.tracked.contains (f.pathOf item) = true
  · rw [if_pos ht]
    refine ⟨fun path => ?_, fun path => ?_⟩
    · show NameMap.contains (NameMap.erase f.tracked (f.pathOf item)) path = true ↔ _
      rw [NameSet.contains_erase, Bool.and_eq_true, h.tracked, and_comm]
      simp
    · show (Content.paths (c.apply (.remove f.list (f.pathOf item))) f.list).contains path = true ↔ _
      rw [Content.paths_remove, NameSet.contains_erase, Bool.and_eq_true, h.paths, and_comm]
      simp
  · rw [if_neg ht]
    refine h.congr rfl fun path => ⟨fun hp => ⟨hp, ?_⟩, And.left⟩
    rintro rfl
    exact ht ((h.tracked _).2 hp)

/-- The path of an item is put in. -/
theorem Filed.take (h : f.Filed c P) (item : String) :
    (f.take item).1.Filed (c.replay (f.take item).2) (fun path => f.pathOf item = path ∨ P path) := by
  rw [take_eq]
  by_cases ht : f.tracked.contains (f.pathOf item) = true
  · rw [if_pos ht]
    refine h.congr rfl fun path => ⟨.inr, ?_⟩
    rintro (rfl | hp)
    · exact (h.tracked _).1 ht
    · exact hp
  · rw [if_neg ht]
    refine ⟨fun path => ?_, fun path => ?_⟩
    · show (f.tracked.add (f.pathOf item)).contains path = true ↔ _
      rw [NameSet.contains_add, Bool.or_eq_true, h.tracked, decide_eq_true_eq]
    · show (Content.paths (c.apply (.add f.list (f.pathOf item))) f.list).contains path = true ↔ _
      rw [Content.paths_add, NameSet.contains_add, Bool.or_eq_true, h.paths, decide_eq_true_eq]

theorem Filed.runAll_drop (h : f.Filed c P) (items : List String) :
    (runAll ItemFiles.drop f items).1.Filed (c.replay (runAll ItemFiles.drop f items).2)
      (fun path => P path ∧ ∀ item ∈ items, f.pathOf item ≠ path) := by
  induction items generalizing f c P with
  | nil => exact h.congr rfl fun path => by simp
  | cons item rest ih =>
    have hsame := pathOf_of_directory (drop_frame f item).2.1
    unfold runAll
    rw [Content.replay_append]
    refine (ih (h.drop item)).congr rfl fun path => ?_
    simp only [hsame, List.mem_cons, forall_eq_or_imp, and_assoc]

theorem Filed.runAll_take (h : f.Filed c P) (items : List String) :
    (runAll ItemFiles.take f items).1.Filed (c.replay (runAll ItemFiles.take f items).2)
      (fun path => (∃ item ∈ items, f.pathOf item = path) ∨ P path) := by
  induction items generalizing f c P with
  | nil => exact h.congr rfl fun path => by simp
  | cons item rest ih =>
    have hsame := pathOf_of_directory (take_frame f item).2.1
    unfold runAll
    rw [Content.replay_append]
    refine (ih (h.take item)).congr rfl fun path => ?_
    simp only [hsame, List.mem_cons, exists_eq_or_imp, ← or_assoc]
    rw [or_comm (a := f.pathOf item = path)]

theorem paths_follow_of_ne (f : ItemFiles) (changes : Listing String Change) (c : Content) {list : PathList}
    (h : f.list ≠ list) : (c.replay (f.follow changes).2).paths list = c.paths list := by
  refine Content.paths_replay (fun m hm heq => ?_) c
  rw [follow_part hm] at heq
  exact h (Part.paths.inj heq)

@[simp] theorem pathOf_follow (f : ItemFiles) (changes : Listing String Change) :
    (f.follow changes).1.pathOf = f.pathOf :=
  pathOf_of_directory (f.follow_frame changes).2.1

/-- Following a change, the handler tracks what it brings, and what was there and is not dropped. -/
theorem Filed.follow_some (h : f.Filed c P) {changes : Listing String Change} {change : Change}
    (hc : changes.get? f.itemType = some change) :
    let t := (change.before.items.keys, change.after.items.keys)
    (f.follow changes).1.Filed (c.replay (f.follow changes).2)
      (fun path => Brings f.pathOf path t ∨ P path ∧ ¬Drops f.pathOf path t) := by
  unfold ItemFiles.follow
  rw [hc]
  have hsame := pathOf_of_directory (runAll_frame drop_frame f change.difference.removedItems).2.1
  dsimp only
  rw [Content.replay_append]
  refine ((h.runAll_drop change.difference.removedItems).runAll_take change.difference.addedItems).congr rfl
    fun path => ?_
  simp only [hsame]
  -- an item that is added brings its path, and one that is removed drops it
  refine or_congr ?_ (and_congr_right' ?_)
  · simp only [Brings, Change.difference, Difference.between, List.mem_filter, Listing.mem_keys_iff,
      Bool.not_eq_true', Bool.not_eq_true, and_assoc]
  · simp only [Drops, Change.difference, Difference.between, List.mem_filter, Listing.mem_keys_iff,
      Bool.not_eq_true', Bool.not_eq_true, not_exists, not_and, and_imp]

/-- What a change brings and drops depends on the names before and after it only. -/
theorem turnover_congr {before before' : List String} (h : ∀ item, item ∈ before ↔ item ∈ before') (after : List String)
    (resolve : String → String) (path : String) :
    (Brings resolve path (before, after) ↔ Brings resolve path (before', after)) ∧
      (Drops resolve path (before, after) ↔ Drops resolve path (before', after)) := by
  simp only [Brings, Drops, h, and_self]

/-- Following a change, the handler tracks what stands after the list of names that it delivers. -/
theorem Filed.follow {lists : List (List String)} (h : f.Filed c (Stands f.pathOf lists))
    {changes : Listing String Change}
    (hheld : ∀ change, changes.get? f.itemType = some change →
      ∀ item, item ∈ change.before.items.keys ↔ item ∈ lists.getLastD []) :
    (f.follow changes).1.Filed (c.replay (f.follow changes).2)
      (Stands f.pathOf (lists ++ ((changes.get? f.itemType).map (·.after.items.keys)).toList)) := by
  cases hc : changes.get? f.itemType with
  | none =>
    rw [Option.map_none, Option.toList_none, List.append_nil, ItemFiles.follow, hc]
    exact h
  | some change =>
    refine (h.follow_some hc).congr rfl fun path => ?_
    obtain ⟨hbrings, hdrops⟩ := turnover_congr (hheld change hc) change.after.items.keys f.pathOf path
    rw [Option.map_some, Option.toList_some, stands_concat, hbrings, hdrops]

end ItemFiles

end SliceSync
