import SliceSync.Proofs.Watches
/-!
# The options of a context

A build that is taken up tells the context its argument list before the handlers are called. In a run of updates in
which nothing fails the context has been told last the list of the build that was committed last
(`World.options_mirrored`). A build is passed over if its list has the members of the one that is held, so that the
context then may keep another list: the same arguments in another order, or another number of times
(`World.options_mirrored`'s `mirror_iff`, `World.not_options_mirrored`).
-/

namespace SliceSync

/-! ## Contexts hear of their own workspace only -/

namespace View

variable {t : Terms} {v v' : View}

/-- What the contexts that are there have heard, they have heard of their workspaces. -/
def Own (v : View) : Prop :=
  ∀ i n, v.serialAt i = some n → v.callsOf n = Event.callsOf n ((v.log.filter (·.workspace = i)).map (·.event))

theorem Sound.own_after (hs : v.Sound t) (ho : v.Own) {me : JobId} {j : Nat} {c : Call} {ws : Workspace} {a : Advance}
    (hw : v.workspaces[j]? = some ws) (ha : c.Steps me v.session ws a) : (v.after me j a).Own := by
  intro i n hi
  rw [serialAt_afterStep hw] at hi
  rw [callsOf_afterStep]
  by_cases hij : j = i
  · subst hij
    rw [if_pos rfl] at hi
    have hown : ((v.after me j a).log.filter (·.workspace = j)).map (·.event) =
        (v.log.filter (·.workspace = j)).map (·.event) ++ a.events := by
      simp [View.after, List.filter_append, List.filter_map, Function.comp_def]
    rw [hown, Event.callsOf_append]
    congr 1
    rcases ha.serial hi with hbefore | ⟨rfl, -⟩
    · exact ho j n ((serialAt_eq hw).trans hbefore)
    · -- nobody has heard of a context that has just come
      have hunborn : Event.callsOf v.session.created (v.log.map (·.event)) = [] := hs.unborn le_rfl
      refine hunborn.trans (Eq.symm ?_)
      rw [Event.callsOf, List.filterMap_eq_nil_iff] at hunborn ⊢
      exact fun e he => hunborn e ((List.filter_sublist.map _).subset he)
  · rw [if_neg hij] at hi
    have hlog : (v.after me j a).log.filter (·.workspace = i) = v.log.filter (·.workspace = i) :=
      filter_log_elsewhere (Ne.symm hij) v.log me a.events
    have hsilent : Event.callsOf n a.events = [] := by
      rcases ha.context with ⟨-, -, he⟩ | ⟨-, -, -, he⟩
      · exact he n fun hj => hij (hs.apart ((serialAt_eq hw).trans hj) hi)
      · exact he n (Nat.ne_of_lt (hs.early hi))
    rw [hlog, hsilent, List.append_nil]
    exact ho i n hi

theorem Sound.own_move (hs : v.Sound t) (ho : v.Own) {ended : List Ending} (hm : Move t v v' ended) : v'.Own := by
  cases hm with
  | adds slices => exact fun i n hi => ho i n (by rwa [serialAt_adding] at hi)
  | activates active => exact ho
  | unloads cause hw => exact fun i n hi => ho i n (by rwa [serialAt_unload hw] at hi)
  | begins => exact ho
  | misses slices =>
    exact fun i n hi => ho i n (by rwa [serialAt_adding, serialAt_withCall] at hi)
  | steps slices he hc hw =>
    exact fun i n hi => hs.own_after ho hw (hs.steps _ hc hw) i n (by rwa [serialAt_adding] at hi)

end View

/-- What the context of a workspace has heard, it has heard of that workspace. -/
theorem World.callsOf_eventsAt {setup : Setup} {acts : List Act} {i : Nat} {w : Workspace} {handle : ContextHandle}
    (hw : (run setup acts).workspace? i = some w) (hc : w.context = some handle) :
    (run setup acts).callsOf handle.serial = Event.callsOf handle.serial ((run setup acts).eventsAt i) := by
  have hown : (run setup acts).view.Own := by
    clear hw
    induction acts using List.reverseRecOn with
    | nil =>
      intro i n hi
      simp [View.serialAt, World.view, run, runFrom, World.initial] at hi
    | append_singleton acts a ih =>
      have hfreely : ∀ a ∈ acts, a.Within (freely setup) := fun a _ => within_freely setup a
      obtain ⟨hk, hs⟩ := sound_run hfreely
      rw [run_concat]
      exact hs.own_move ih (perform_moves hk (within_freely setup a))
  refine hown i handle.serial ?_
  rw [View.serialAt_eq (by rw [view_workspaces]; exact hw), hc]
  rfl

/-! ## What a context is told of options -/

/-- The argument list that a mutation sets. -/
def Mutation.options? : Mutation → Option (List String)
  | .setOptions arguments => some arguments
  | _ => none

theorem Mutation.options?_eq_none {m : Mutation} (h : m.part ≠ .options) : m.options? = none := by
  cases m with
  | setOptions arguments => exact absurd rfl h
  | _ => rfl

/-- The argument list that an event sets in a context. -/
def Event.options? (n : Nat) : Event → Option (List String)
  | .context m (.mutate mutation) => if m = n then mutation.options? else none
  | _ => none

/-- The argument list that a context has been told last. -/
def World.lastOptions (w : World) (n : Nat) : Option (List String) :=
  ((ContextCall.mutations (w.callsOf n)).filterMap Mutation.options?).getLast?

theorem Event.filterMap_options (n : Nat) (l : List Event) :
    l.filterMap (options? n) = (ContextCall.mutations (callsOf n l)).filterMap Mutation.options? := by
  rw [ContextCall.mutations, callsOf, List.filterMap_filterMap, List.filterMap_filterMap]
  congr 1
  funext e
  cases e with
  | context m call => by_cases hm : m = n <;> cases call <;> simp [options?, hm]
  | _ => rfl

namespace HandlerSet

variable {s : HandlerSet} {env : Environment} {activity : Activity} {d : ArgumentDifference}

/-- A handler of argument lists changes its own list, or comes from outside. -/
theorem mem_callArguments {n : Nat} {h : ArgumentHandler} {m : Mutation}
    (hm : .mutate m ∈ (callArguments env d activity n h).effects) :
    (∃ name r, h = .references name r ∧ m.part = .paths r.list) ∨ ∃ call, m ∈ (env.reply call).mutations := by
  cases h with
  | references name r =>
    have hm : m ∈ (r.follow d).2 := by simpa [callArguments] using hm
    exact .inl ⟨name, r, rfl, References.follow_part hm⟩
  | external name => exact .inr ⟨_, mem_callExternal hm⟩

/-- The handlers that follow a build set no options. -/
theorem applyArguments_spares (he : env.SparesOptions) {m : Mutation}
    (hm : .mutate m ∈ (s.applyArguments env d activity).effects) : m.part ≠ .options := by
  obtain ⟨k, h, -, -, hm⟩ := mem_effects hm
  rcases mem_callArguments hm with ⟨name, r, -, hp⟩ | ⟨call, hm⟩
  · rw [hp]
    nofun
  · exact he call m hm

end HandlerSet

/-- The handlers that follow an update set no options. -/
theorem Workspace.roundOf_spares {w : Workspace} (x : Payload) {o : Occasion} {handlers : HandlerSet}
    (he : o.env.SparesOptions) :
    (Effect.mutations (w.roundOf x o handlers).effects).filterMap Mutation.options? = [] := by
  refine List.filterMap_eq_nil_iff.2 fun m hm => Mutation.options?_eq_none ?_
  have hm := Effect.mem_mutations.1 hm
  cases x with
  | evaluation e => exact HandlerSet.applyBoth_spares he hm
  | build b => exact HandlerSet.applyArguments_spares he hm

/-- The terms of a run of updates in which none but the workspaces sets options. -/
def Terms.updating (setup : Setup) : Terms := ⟨setup, False, Environment.SparesOptions⟩

/-- A context is told the argument list of a build when its batch is opened. -/
theorem Workspace.Opens.options {setup : Setup} {env : Environment} {session : Session} {w : Workspace} {u : Update}
    {p : Passage} {batch : OpenBatch} {handle : ContextHandle} (he : env.SparesOptions)
    (h : w.Opens setup env session u p batch handle) :
    (p.events.filterMap (Event.options? handle.serial)).getLast? = batch.commit.arguments? := by
  have hspared : (Effect.mutations (w.roundOf u.payload ⟨env, session, u.versions⟩ handle.handlers).effects).filterMap
      Mutation.options? = [] := Workspace.roundOf_spares u.payload he
  rw [Event.filterMap_options, h.calls, if_pos rfl, ContextCall.mutations_start_cons, ContextCall.mutations_map_mutate,
    List.filterMap_append, h.commit]
  have hnew : (if w.context.isSome then [] else
      [Mutation.setLastBuildSucceeded !setup.settings.suppressDiagnosticsUntilBuild]).filterMap Mutation.options? =
        [] := by
    split <;> rfl
  rw [hnew, List.nil_append, Update.commit]
  cases hu : u.payload with
  | evaluation e =>
    rw [hu] at hspared
    simp only [Payload.tells]
    rw [hspared]
    rfl
  | build b =>
    rw [hu] at hspared
    simp only [Payload.tells, List.filterMap_cons, List.filterMap_append, Mutation.options?, hspared]
    rfl

/-- The options of the context of a serial, as they are told and as they are committed. -/
def Watch.options (setup : Setup) (n : Nat) : Watch (.updating setup) (List String) where
  sees := Event.options? n
  shows := Commit.arguments?
  ready handle := handle.serial = n
  unseen {e} _ hm := by
    cases e with
    | context m call =>
      cases call with
      | mutate mutation => exact absurd rfl (hm m mutation)
      | _ => rfl
    | _ => rfl
  back h := h
  opens he ho _ hn := hn ▸ ho.options he
  writes h := h.elim

/-! ## Builds and options -/

namespace World

variable {setup : Setup} {acts earlier : List Act} {env : Environment} {me : JobId} {i : Nat} {u : Update} {b : Build}
  {activity : Activity} {w : Workspace} {handle : ContextHandle}

/-- A call that has ended was ended by some act. -/
theorem mem_endingsFrom {w : World} {acts : List Act} {e : Ending} (he : e ∈ endingsFrom w acts) :
    ∃ before a after, acts = before ++ a :: after ∧ e ∈ (runFrom w before).endings a := by
  induction acts generalizing w with
  | nil => cases he
  | cons a rest ih =>
    rcases List.mem_append.1 he with he | he
    · exact ⟨[], a, rest, rfl, he⟩
    · obtain ⟨before, b, after, rfl, hends⟩ := ih he
      exact ⟨a :: before, b, after, rfl, hends⟩

/-- A build with some arguments has ended well at the workspace in a place. -/
def HasBuilt (setup : Setup) (acts : List Act) (i : Nat) : Prop :=
  ∃ e ∈ history setup acts, e.place = i ∧ (∃ answer, e.result = .ok answer) ∧
    ∃ u b, e.request = .update u ∧ u.payload = .build b ∧ b.arguments ≠ []

/-- The list that is held has the members of the list of a build that has ended well. -/
theorem EndedWell.members (h : EndedWell setup acts env me i u earlier activity w handle) (hu : u.payload = .build b)
    (x : String) : x ∈ w.baseline.arguments ↔ x ∈ b.arguments := by
  have hknown := h.recalls.known
  rw [hu] at hknown
  exact ArgumentDifference.isEmpty_between_iff.1 (Workspace.KnowsBuild.arguments hknown) x

/-- Once a build with some arguments has ended well, a list has been committed. -/
theorem HasBuilt.committed (h : HasBuilt setup acts i) :
    (lastOf Commit.arguments? (commits setup acts i)).isSome := by
  obtain ⟨e, he, rfl, ⟨answer, hresult⟩, v, x, hrequest, hx, hsome⟩ := h
  obtain ⟨before, a, after, rfl, hends⟩ := mem_endingsFrom he
  cases a with
  | advance env job =>
    obtain ⟨place, request, result⟩ := e
    subst hrequest hresult
    obtain ⟨earlier, activity, w, handle, hended⟩ := ended_well hends
    have hfollows := hended.follows.arguments
    rw [List.append_cons, commits, bringsFrom_append, lastOf_append]
    cases hlast : lastOf Commit.arguments? (commits setup (before ++ [.advance env job]) place) with
    | some l =>
      rw [← commits, hlast]
      cases lastOf Commit.arguments? _ <;> rfl
    | none =>
      -- the list that is held would be empty
      rw [hlast, Option.getD_none] at hfollows
      obtain ⟨y, hy⟩ := List.exists_mem_of_ne_nil _ hsome
      have hmem := (hended.members hx y).2 hy
      rw [hfollows] at hmem
      cases hmem
  | _ => cases hends

/-- What the context has been told of options when a build has ended well with the last act. -/
structure Mirrored (setup : Setup) (acts : List Act) (last : Act) (i : Nat) (b : Build) (w : Workspace)
    (handle : ContextHandle) : Prop where
  /-- The list of the build that was committed last. -/
  told : (run setup (acts ++ [last])).lastOptions handle.serial =
    lastOf Commit.arguments? (commits setup (acts ++ [last]) i)
  held : w.baseline.arguments = ((run setup (acts ++ [last])).lastOptions handle.serial).getD []
  /-- It has the same members. -/
  members : ∀ x, x ∈ w.baseline.arguments ↔ x ∈ b.arguments
  there : HasBuilt setup (acts ++ [last]) i → ((run setup (acts ++ [last])).lastOptions handle.serial).isSome
  /-- It is the same list if this build was committed, or the one before had the same list. -/
  mirror_iff : (run setup (acts ++ [last])).lastOptions handle.serial = some b.arguments ↔
    (run setup acts).commitsOf i last ≠ [] ∨ lastOf Commit.arguments? (commits setup acts i) = some b.arguments
  /-- It is the same list if no list with the same members was committed but this one. -/
  same : HasBuilt setup (acts ++ [last]) i →
    (∀ l ∈ (commits setup (acts ++ [last]) i).filterMap Commit.arguments?, (∀ x, x ∈ l ↔ x ∈ b.arguments) →
      l = b.arguments) → (run setup (acts ++ [last])).lastOptions handle.serial = some b.arguments

/-- In a run of updates in which nothing fails at a workspace, whenever a build has ended well the context has been told
last the list of the build that was committed last. -/
theorem options_mirrored (setup : Setup) (acts : List Act) (env : Environment) (me : JobId) (i : Nat) (u : Update)
    (b : Build) (answer : Answer) (hu : u.payload = .build b)
    (hwithin : ∀ a ∈ acts ++ [.advance env me], a.Within (.updating setup))
    (hunfailing : failures setup (acts ++ [.advance env me]) i = [])
    (hended : ⟨i, .update u, .ok answer⟩ ∈ (run setup acts).endings (.advance env me)) :
    ∃ w handle, (run setup (acts ++ [.advance env me])).workspace? i = some w ∧ w.context = some handle ∧
      Mirrored setup acts (.advance env me) i b w handle := by
  obtain ⟨earlier, activity, w, handle, h⟩ := ended_well hended
  have htold : (run setup (acts ++ [.advance env me])).lastOptions handle.serial =
      lastOf Commit.arguments? (commits setup (acts ++ [.advance env me]) i) := by
    rw [lastOptions, callsOf_eventsAt h.workspace h.context, ← Event.filterMap_options]
    exact EndedWell.told (t := .updating setup) h (.options setup handle.serial) hwithin hunfailing rfl
  have hheld : w.baseline.arguments = ((run setup (acts ++ [.advance env me])).lastOptions handle.serial).getD [] :=
    htold ▸ h.follows.arguments
  refine ⟨w, handle, h.workspace, h.context, htold, hheld, h.members hu, fun hbuilt => ?_, ?_, fun hbuilt hsame => ?_⟩
  · rw [htold]
    exact hbuilt.committed
  · rw [htold, commits_concat, lastOf_append]
    rcases h.commits with hnone | hone
    · rw [hnone]
      simp
    · have hlist : (u.commit activity).arguments? = some b.arguments := by rw [Update.commit, hu]; rfl
      rw [hone, lastOf_singleton, hlist]
      simp
  · obtain ⟨l, hl⟩ := Option.isSome_iff_exists.1 hbuilt.committed
    rw [htold, hl, hsame l (List.mem_of_getLast? hl) fun x => ?_]
    rw [← h.members hu, hheld, htold, hl, Option.getD_some]

end World

namespace Sample

/-- An evaluation and a build, and then a build with the same arguments in another order. -/
def reordered : List Act :=
  [.addWorkspace .empty, .call 0 (.update (evaluation ["a.cs"])), .advance {} 0, .advance {} 0,
    .call 0 (.update (build ["/r:a.dll", "/r:b.dll"])), .advance {} 1, .advance {} 1, .advance {} 1,
    .call 0 (.update (build ["/r:b.dll", "/r:a.dll"])), .advance {} 2, .advance {} 2]

theorem reordered_within : ∀ a ∈ reordered, a.Within (.updating {}) := by
  have hspares : Environment.SparesOptions {} := fun _ o ho => by simp at ho
  have hupdate (u : Update) : Act.Within (.updating {}) (.call 0 (.update u)) := fun h => Bool.false_ne_true h
  simp only [reordered, List.forall_mem_cons]
  exact ⟨trivial, hupdate _, hspares, hspares, hupdate _, hspares, hspares, hspares, hupdate _, hspares, hspares,
    fun _ ha => absurd ha List.not_mem_nil⟩

end Sample

namespace World

set_option maxRecDepth 100000 in
/-- A build comes with the arguments that are held, in another order: the list that is held stays. -/
theorem options_mirrored_permuted :
    let acts := Sample.reordered.dropLast
    ∃ w handle, (run {} (acts ++ [.advance {} 2])).workspace? 0 = some w ∧ w.context = some handle ∧
      Mirrored {} acts (.advance {} 2) 0
        { project := { path := "/src/a.proj" }, arguments := ["/r:b.dll", "/r:a.dll"] } w handle := by
  intro acts
  have hended : ((run {} acts).endings (.advance {} 2)).map (fun e => (e.place, e.request, e.result)) =
      [(0, .update (Sample.build ["/r:b.dll", "/r:a.dll"]), .ok .done)] := by decide +kernel
  have hunfailing : failures {} (acts ++ [.advance {} 2]) 0 = [] := by decide +kernel
  exact options_mirrored {} acts {} 2 0 (Sample.build ["/r:b.dll", "/r:a.dll"]) _ .done rfl Sample.reordered_within
    hunfailing (Ending.mem_of_map_eq hended)

set_option maxRecDepth 100000 in
/-- The arguments come in another order, and the build ends well: the context keeps the old order. -/
theorem not_options_mirrored :
    (∀ a ∈ Sample.reordered, a.Within (.updating {})) ∧
      (history {} Sample.reordered).map (fun e => (e.place, e.request, e.result)) =
        [(0, .update (Sample.evaluation ["a.cs"]), .ok .done),
          (0, .update (Sample.build ["/r:a.dll", "/r:b.dll"]), .ok .done),
          (0, .update (Sample.build ["/r:b.dll", "/r:a.dll"]), .ok .done)] ∧
      ((run {} Sample.reordered).contextAt 0).map (·.serial) = some 0 ∧
      (run {} Sample.reordered).lastOptions 0 ≠ some ["/r:b.dll", "/r:a.dll"] :=
  ⟨Sample.reordered_within, by decide +kernel, by decide +kernel, by decide +kernel⟩

end World

end SliceSync
