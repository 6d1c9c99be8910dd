import SliceSync.Proofs.Files
import SliceSync.Proofs.Trials
/-!
# What handlers of files are called with

Every call of a handler of files is logged with the names that were held of its type and those that come, its
turnover. If one handler alone keeps a list, the paths of that list are those that remain of the turnovers it
was called with (`Tracking.evaluation`), also where a round failed after it was called; other calls leave the list
alone (`Tracking.build`).
-/

namespace SliceSync

/-! ## What remains of changes -/

/-- A name read as the path comes or goes. -/
def Touches (resolve : String → String) (path : String) (t : List String × List String) : Prop :=
  Brings resolve path t ∨ Drops resolve path t

section Remains

variable {resolve : String → String} {turns later : List (List String × List String)} {path : String}

theorem remains_append :
    Remains resolve (turns ++ later) path ↔
      Remains resolve later path ∨ Remains resolve turns path ∧ ∀ t ∈ later, ¬Drops resolve path t := by
  induction later using List.reverseRecOn with
  | nil => simp [not_remains_nil]
  | append_singleton later t ih =>
    rw [← List.append_assoc, remains_concat, ih, remains_concat]
    simp only [List.mem_append, List.mem_singleton, or_imp, forall_and, forall_eq, or_and_right, or_assoc, and_assoc]

/-- Changes that do not touch a path leave it as it was. -/
theorem remains_append_of_untouched (h : ∀ t ∈ later, ¬Touches resolve path t) :
    Remains resolve (turns ++ later) path ↔ Remains resolve turns path := by
  rw [remains_append]
  refine ⟨fun hr => hr.elim ?_ And.left, fun hr => .inr ⟨hr, fun t ht hd => h t ht (.inr hd)⟩⟩
  rintro ⟨before, t, after, rfl, hbrings, -⟩
  exact absurd (.inl hbrings) (h t (by simp))

/-- Where a path is touched, nothing before counts. -/
theorem remains_append_of_touched (h : ∃ t ∈ later, Touches resolve path t) :
    Remains resolve (turns ++ later) path ↔ Remains resolve later path := by
  rw [remains_append, or_iff_left_iff_imp]
  rintro ⟨-, hstays⟩
  obtain ⟨t, ht, hbrings | hdrops⟩ := h
  · obtain ⟨before, after, rfl⟩ := List.append_of_mem ht
    exact ⟨before, t, after, rfl, hbrings, fun t ht => hstays t (by simp [ht])⟩
  · exact absurd hdrops (hstays t ht)

end Remains

/-! ## Turnovers in the log -/

/-- The names of a type that were held, and those that come, as a call tells them to the handler of a name. -/
def turnover? (name itemType : String) (call : HandlerCall) : Option (List String × List String) :=
  match call.input with
  | .items changes =>
    if call.external = false ∧ call.name = name then
      (changes.get? itemType).map fun change => (change.before.items.keys, change.after.items.keys)
    else none
  | _ => none

def turnoversIn (name itemType : String) (calls : List HandlerCall) : List (List String × List String) :=
  calls.filterMap (turnover? name itemType)

section Log

variable {name itemType : String}

@[simp] theorem turnoversIn_nil : turnoversIn name itemType [] = [] := rfl

@[simp] theorem turnoversIn_append (l m : List HandlerCall) :
    turnoversIn name itemType (l ++ m) = turnoversIn name itemType l ++ turnoversIn name itemType m :=
  List.filterMap_append

end Log

/-- These effects neither change a list nor call the handler of a name. -/
structure PassesBy (name : String) (list : PathList) (effects : List Effect) : Prop where
  mutations : ∀ m ∈ Effect.mutations effects, m.part ≠ .paths list
  calls : ∀ itemType, turnoversIn name itemType (Effect.calls effects) = []

namespace PassesBy

variable {name : String} {list : PathList} {effects others : List Effect}

theorem nil : PassesBy name list [] := ⟨fun _ hm => absurd hm List.not_mem_nil, fun _ => rfl⟩

theorem append (h : PassesBy name list effects) (h' : PassesBy name list others) :
    PassesBy name list (effects ++ others) := by
  constructor
  · rw [Effect.mutations_append]
    exact fun m hm => (List.mem_append.1 hm).elim (h.mutations m) (h'.mutations m)
  · intro itemType
    rw [Effect.calls_append, turnoversIn_append, h.calls, h'.calls, List.append_nil]

theorem mutate {m : Mutation} (hm : m.part ≠ .paths list) : PassesBy name list [.mutate m] :=
  ⟨fun _ h => List.mem_singleton.1 h ▸ hm, fun _ => rfl⟩

/-- One call of some handler, if it is not called with items, or is another handler. -/
theorem called {call : HandlerCall} {mutations : List Mutation} (hm : ∀ m ∈ mutations, m.part ≠ .paths list)
    (hc : ∀ itemType, turnover? name itemType call = none) :
    PassesBy name list (.called call :: mutations.map .mutate) := by
  constructor
  · simpa only [Effect.mutations_called_cons, Effect.mutations_map_mutate] using hm
  · intro itemType
    simp [turnoversIn, hc]

/-- A round passes by if every call does. -/
theorem round {η : Type} {call : Nat → η → Round η} {l : List η}
    (h : ∀ n, ∀ g ∈ l, PassesBy name list (call n g).effects) (position : Nat) :
    PassesBy name list (callUntilFailure call position l).effects := by
  induction l generalizing position with
  | nil => exact nil
  | cons g rest ih =>
    have hfirst := h position g (by simp)
    cases hf : (call position g).failure with
    | some error =>
      rw [callUntilFailure_cons_of_failure hf]
      exact hfirst
    | none =>
      rw [callUntilFailure_cons_of_none hf]
      exact hfirst.append (ih (fun n g hg => h n g (by simp [hg])) _)

end PassesBy

section Handlers

variable {env : Environment} {rules : NameMap Change} {items : Listing String Change} {d : ArgumentDifference}
  {activity : Activity} {name : String} {list : PathList}

open HandlerSet (callItems callEvaluation callArguments)

/-- Handlers of rules pass by the lists. -/
theorem passesBy_callEvaluation (hs : env.Spares list) (n : Nat) (h : String × EvaluationHandler) :
    PassesBy name list (callEvaluation env rules activity n h).effects := by
  unfold callEvaluation
  dsimp only
  split
  · exact .nil
  · split
    · exact .nil
    · split
      · refine .called (fun m hm => ?_) fun _ => rfl
        rcases propertyMutations_part hm with hm | hm <;> simp [hm]
      · exact .called (hs _) fun _ => rfl

/-- Handlers of argument lists pass by, if they keep other lists. -/
theorem passesBy_callArguments (hs : env.Spares list) (n : Nat) {h : ArgumentHandler}
    (hl : ∀ other r, h = .references other r → r.list ≠ list) :
    PassesBy name list (callArguments env d activity n h).effects := by
  cases h with
  | references other r =>
    refine .called (fun m hm => ?_) fun _ => rfl
    rw [References.follow_part hm]
    exact fun heq => hl other r rfl (Part.paths.inj heq)
  | external other => exact .called (hs _) fun _ => rfl

/-- A handler of items has another name and another list, or comes from outside. -/
def ItemHandler.Aside (name : String) (list : PathList) : ItemHandler → Prop
  | .files other f => other ≠ name ∧ f.list ≠ list
  | .external _ => True

theorem ItemHandler.Aside.passesBy {h : ItemHandler} (ha : h.Aside name list) (hs : env.Spares list) (n : Nat) :
    PassesBy name list (callItems env items activity n h).effects := by
  cases h with
  | files other files =>
    refine .called (fun m hm => ?_) fun itemType => ?_
    · rw [ItemFiles.follow_part hm]
      exact fun heq => ha.2 (Part.paths.inj heq)
    · exact if_neg fun hname => ha.1 hname.2
  | external other =>
    refine .called (hs _) fun itemType => ?_
    simp [turnover?, isExternal]

theorem ItemHandler.Aside.state {h : ItemHandler} (ha : h.Aside name list) (n : Nat) :
    (callItems env items activity n h).state.Aside name list := by
  cases h with
  | files other files => exact ⟨ha.1, by rw [(files.follow_frame items).1]; exact ha.2⟩
  | external other => trivial

theorem aside_round {l : List ItemHandler} (ha : ∀ g ∈ l, g.Aside name list) (position : Nat) :
    ∀ g ∈ (callUntilFailure (callItems env items activity) position l).state, g.Aside name list := by
  induction l generalizing position with
  | nil => exact ha
  | cons g rest ih =>
    have hfirst : (callItems env items activity position g).state.Aside name list := (ha g (by simp)).state position
    cases hf : (callItems env items activity position g).failure with
    | some error =>
      rw [callUntilFailure_cons_of_failure hf]
      exact List.forall_mem_cons.2 ⟨hfirst, fun g hg => ha g (by simp [hg])⟩
    | none =>
      rw [callUntilFailure_cons_of_none hf]
      exact List.forall_mem_cons.2 ⟨hfirst, ih (fun g hg => ha g (by simp [hg])) _⟩

/-- The handler as it was made. -/
def ItemFiles.made (f : ItemFiles) : ItemFiles := { f with tracked := ∅ }

theorem ItemFiles.made_list (f : ItemFiles) : f.made.list = f.list := rfl

theorem ItemFiles.made_follow (f : ItemFiles) : (f.follow items).1.made = f.made := by
  obtain ⟨hlist, hdirectory, htype⟩ := f.follow_frame items
  simp only [made, hlist, hdirectory, htype]

/-- Of the handlers of items, this one alone has its name and keeps its list. -/
inductive Keeps (name : String) (f : ItemFiles) : List ItemHandler → Prop
  | here {rest : List ItemHandler} (h : ∀ g ∈ rest, g.Aside name f.list) : Keeps name f (.files name f :: rest)
  | later {g : ItemHandler} {rest : List ItemHandler} (hg : g.Aside name f.list) (h : Keeps name f rest) :
      Keeps name f (g :: rest)

/-- A handler made like this one keeps its list in step with the turnovers it was called with. -/
def Tracking (name : String) (made : ItemFiles) (l : List ItemHandler) (c : Content)
    (turns : List (List String × List String)) : Prop :=
  ∃ f : ItemFiles, f.made = made ∧ Keeps name f l ∧ f.Filed c (Remains made.pathOf turns)

variable {made f : ItemFiles} {l : List ItemHandler} {c c' : Content} {turns : List (List String × List String)}

/-- What passes by leaves the handler in step. -/
theorem PassesBy.filed {effects : List Effect} (hp : PassesBy name f.list effects) {P : String → Prop}
    (h : f.Filed c P) : f.Filed (c.replay (Effect.mutations effects)) P :=
  h.congr (Content.paths_replay hp.mutations c) fun _ => .rfl

/-- A round of items keeps the handler in step, whether or not it gets there. -/
theorem Keeps.round (hk : Keeps name f l) (hs : env.Spares f.list) (items : Listing String Change)
    (activity : Activity) (position : Nat) (h : f.Filed c (Remains f.pathOf turns)) :
    ∃ f' : ItemFiles, f'.made = f.made ∧
      Keeps name f' (callUntilFailure (callItems env items activity) position l).state ∧
      f'.Filed (c.replay (Effect.mutations (callUntilFailure (callItems env items activity) position l).effects))
        (Remains f.pathOf (turns ++ turnoversIn name f.itemType
          (Effect.calls (callUntilFailure (callItems env items activity) position l).effects))) := by
  induction hk generalizing position c with
  | @here rest ha =>
    have hlist := (f.follow_frame items).1
    have hrest : PassesBy name (f.follow items).1.list
        (callUntilFailure (callItems env items activity) (position + 1) rest).effects := by
      rw [hlist]
      exact .round (fun n g hg => (ha g hg).passesBy hs n) _
    have hfiled : (f.follow items).1.Filed (c.replay (f.follow items).2)
        (Remains f.pathOf (turns ++ turnoversIn name f.itemType
          [⟨name, false, position, .items items, activity⟩])) := by
      cases hc : items.get? f.itemType with
      | none =>
        have hnone : turnoversIn name f.itemType [⟨name, false, position, .items items, activity⟩] = [] := by
          simp [turnoversIn, turnover?, hc]
        rw [hnone, List.append_nil, ItemFiles.follow, hc]
        exact h
      | some change =>
        have hone : turnoversIn name f.itemType [⟨name, false, position, .items items, activity⟩] =
            [(change.before.items.keys, change.after.items.keys)] := by
          simp [turnoversIn, turnover?, hc]
        rw [hone]
        exact (h.follow_some hc).congr rfl fun path => remains_concat.symm
    rw [callUntilFailure_cons_of_none (show (callItems env items activity position (.files name f)).failure = none from
      rfl)]
    refine ⟨(f.follow items).1, f.made_follow, ?_, ?_⟩
    · refine .here ?_
      rw [hlist]
      exact aside_round ha _
    · have hcalls : Effect.calls ((callItems env items activity position (.files name f)).effects ++
          (callUntilFailure (callItems env items activity) (position + 1) rest).effects) =
            [⟨name, false, position, .items items, activity⟩] ++
              Effect.calls (callUntilFailure (callItems env items activity) (position + 1) rest).effects := by
        simp [callItems, ItemHandler.name, ItemHandler.isExternal]
      have hmutations : Effect.mutations (callItems env items activity position (.files name f)).effects =
          (f.follow items).2 := by simp [callItems]
      rw [hcalls, turnoversIn_append, hrest.calls, List.append_nil, Effect.mutations_append, hmutations,
        Content.replay_append]
      exact hrest.filed hfiled
  | @later g rest hg hk ih =>
    have hfirst : PassesBy name f.list (callItems env items activity position g).effects := hg.passesBy hs position
    cases hf : (callItems env items activity position g).failure with
    | some error =>
      rw [callUntilFailure_cons_of_failure hf]
      refine ⟨f, rfl, .later (hg.state position) hk, ?_⟩
      dsimp only
      rw [hfirst.calls, List.append_nil]
      exact hfirst.filed h
    | none =>
      rw [callUntilFailure_cons_of_none hf]
      obtain ⟨f', hframe, hkeeps, hfiled⟩ := ih (position + 1) (hfirst.filed h)
      have hlist : f'.list = f.list := by rw [← f'.made_list, hframe, f.made_list]
      refine ⟨f', hframe, .later (hlist ▸ hg.state position) hkeeps, ?_⟩
      dsimp only
      rw [Effect.calls_append, turnoversIn_append, hfirst.calls, List.nil_append, Effect.mutations_append,
        Content.replay_append]
      exact hfiled

theorem Tracking.aside {effects : List Effect} (h : Tracking name made l c turns)
    (hp : PassesBy name made.list effects) :
    Tracking name made l (c.replay (Effect.mutations effects))
      (turns ++ turnoversIn name made.itemType (Effect.calls effects)) := by
  obtain ⟨f, rfl, hkeeps, hfiled⟩ := h
  have hp : PassesBy name f.list effects := hp
  rw [hp.calls, List.append_nil]
  exact ⟨f, rfl, hkeeps, hp.filed hfiled⟩

/-- The rounds of an evaluation keep the handler in step. -/
theorem Tracking.evaluation {s : HandlerSet} (h : Tracking name made s.items c turns) (hs : env.Spares made.list) :
    Tracking name made (s.applyBoth env rules items activity).state.items
      (c.replay (Effect.mutations (s.applyBoth env rules items activity).effects))
      (turns ++ turnoversIn name made.itemType (Effect.calls (s.applyBoth env rules items activity).effects)) := by
  have hfirst : PassesBy name made.list (s.applyEvaluation env rules activity).effects :=
    .round (fun n h _ => passesBy_callEvaluation hs n h) 0
  have h := h.aside hfirst
  cases hf : (s.applyEvaluation env rules activity).failure with
  | some error =>
    rw [HandlerSet.applyBoth_of_failure hf]
    exact h
  | none =>
    obtain ⟨f, rfl, hkeeps, hfiled⟩ := h
    obtain ⟨f', hframe, hkeeps, hfiled⟩ := hkeeps.round hs items activity 0 hfiled
    rw [HandlerSet.applyBoth_of_none hf]
    refine ⟨f', hframe, hkeeps, ?_⟩
    dsimp only
    rw [Effect.mutations_append, Effect.calls_append, turnoversIn_append, Content.replay_append, ← List.append_assoc]
    exact hfiled

/-! ## Handlers just made -/

theorem keeps_of_filter (h : Keeps name f (l.filter (!·.isExternal))) : Keeps name f l := by
  induction l with
  | nil => exact h
  | cons g rest ih =>
    cases hg : g.isExternal with
    | true =>
      rw [List.filter_cons_of_neg (by simp [hg])] at h
      refine .later ?_ (ih h)
      cases g with
      | files => cases hg
      | external => trivial
    | false =>
      rw [List.filter_cons_of_pos (by simp [hg])] at h
      cases h with
      | here ha =>
        refine .here fun k hk => ?_
        cases k with
        | external => trivial
        | files other f' => exact ha _ (List.mem_filter.2 ⟨hk, rfl⟩)
      | later ha hk => exact .later ha (ih hk)

end Handlers

def ItemMaker.isExternal : ItemMaker → Bool
  | .files .. => false
  | .external _ => true

def ArgumentMaker.isExternal : ArgumentMaker → Bool
  | .references .. => false
  | .external _ => true

/-- The standard handlers of items and of argument lists, with others from outside among them. -/
structure Registry.Extended (r : Registry) : Prop where
  items : r.items.filter (!·.maker.isExternal) = standard.items
  arguments : r.arguments.filter (!·.maker.isExternal) = standard.arguments

namespace Registry.Extended

variable {r : Registry} {name itemType : String} {list : PathList}

theorem items_resolve (h : r.Extended) (project : Project) :
    (r.resolve project).items.filter (!·.isExternal) = (standard.resolve project).items := by
  have hmake : ((!·.isExternal) ∘ fun reg : Registration ItemMaker => reg.maker.make project) =
      (!·.maker.isExternal) := by
    funext reg
    cases hm : reg.maker <;> simp [hm, ItemMaker.make, ItemHandler.isExternal, ItemMaker.isExternal]
  simp only [resolve]
  rw [List.filter_map, hmake, List.filter_comm, h.items]

/-- A standard handler of files alone keeps its list. -/
theorem keeps (h : r.Extended) (hm : ⟨.files name itemType list, []⟩ ∈ standard.items) (project : Project) :
    Keeps name { itemType, list, directory := Text.Path.directoryOf project.path } (r.resolve project).items := by
  refine keeps_of_filter ?_
  rw [h.items_resolve]
  rcases List.mem_cons.1 hm with hm | hm
  · cases hm
    refine .here fun g hg => ?_
    rw [List.mem_singleton.1 hg]
    exact ⟨by decide, nofun⟩
  · cases List.mem_singleton.1 hm
    exact .later ⟨by decide, nofun⟩ (.here nofun)

/-- No handler of argument lists keeps a list of files. -/
theorem references_ne (h : r.Extended) (hm : ⟨.files name itemType list, []⟩ ∈ standard.items) (project : Project)
    {other : String} {references : References} (hr : .references other references ∈ (r.resolve project).arguments) :
    references.list ≠ list := by
  obtain ⟨⟨maker, requires⟩, hreg, hmake⟩ := List.mem_map.1 hr
  cases maker with
  | external => cases hmake
  | references other' list' =>
    cases hmake
    have hstandard : ⟨.references other list', requires⟩ ∈ standard.arguments := by
      rw [← h.arguments]
      exact List.mem_filter.2 ⟨(List.mem_filter.1 hreg).1, rfl⟩
    rcases List.mem_cons.1 hm with hm | hm <;> rcases List.mem_cons.1 hstandard with hs | hs
    · cases hm
      cases hs
      decide
    · cases hm
      cases List.mem_singleton.1 hs
      decide
    · cases List.mem_singleton.1 hm
      cases hs
      decide
    · cases List.mem_singleton.1 hm
      cases List.mem_singleton.1 hs
      decide

end Registry.Extended

end SliceSync
