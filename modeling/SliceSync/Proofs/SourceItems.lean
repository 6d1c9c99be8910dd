import SliceSync.Proofs.Files
import SliceSync.Proofs.Plain
/-!
# The files of a context

In a run of evaluations and builds the files of a context are those that stand after the lists of items
delivered by the updates that ended well, read from the directory of the project of the first of them.
That is part of what the last list names, and all of it only while no file has been lost: when one of
two items that are read as one file goes, the file goes, though the other item stays.

Main statement: `World.files_mirror_iff`.
-/

namespace SliceSync

open Workspace (rebased)

/-- The names of the items of a type that an update delivers, if it delivers that type. -/
def Update.delivery? (itemType : String) (u : Update) : Option (List String) :=
  match u.payload with
  | .evaluation e => (e.items.get? itemType).map (·.after.items.keys)
  | .build _ => none

/-- The lists of items of a type that updates deliver. -/
def deliveries (itemType : String) (updates : List Update) : List (List String) :=
  updates.filterMap (·.delivery? itemType)

theorem deliveries_concat (itemType : String) (updates : List Update) (u : Update) :
    deliveries itemType (updates ++ [u]) = deliveries itemType updates ++ (u.delivery? itemType).toList := by
  unfold deliveries
  rw [List.filterMap_append]
  cases h : u.delivery? itemType <;> simp [h]

theorem delivery?_of_evaluation {u : Update} {e : Evaluation} (h : u.payload = .evaluation e)
    (itemType : String) : u.delivery? itemType = (e.items.get? itemType).map (·.after.items.keys) := by
  rw [Update.delivery?, h]

theorem delivery?_of_build {u : Update} {b : Build} (h : u.payload = .build b) (itemType : String) :
    u.delivery? itemType = none := by
  rw [Update.delivery?, h]

/-- The lists of files of a context, with the types of the items that they come from. -/
def PathList.files : List (PathList × String) :=
  [(.sourceFiles, WellKnown.compileItems), (.additionalFiles, WellKnown.additionalFileItems)]

theorem Listing.mem_values {β : Type} {m : Listing String β} {key : String} {value : β}
    (h : m.get? key = some value) : value ∈ m.values := by
  obtain ⟨e, he, rfl⟩ := Option.map_eq_some_iff.1 h
  exact List.mem_map_of_mem (List.mem_of_find?_eq_some he)

/-- A change that is none is between snapshots of the same items. -/
theorem Change.mem_keys_of_unchanged {change : Change} (h : change.hasChanges = false) (item : String) :
    item ∈ change.after.items.keys ↔ item ∈ change.before.items.keys := by
  simp only [hasChanges, difference, Difference.between, Difference.isEmpty, Bool.not_eq_false',
    Bool.and_eq_true, List.isEmpty_iff, List.filter_eq_nil_iff, Bool.not_eq_true', Bool.not_eq_false,
    ← Listing.mem_keys_iff] at h
  obtain ⟨⟨⟨hadded, hremoved⟩, -⟩, -⟩ := h
  exact ⟨hadded item, hremoved item⟩

theorem Evaluation.get?_delivered (e : Evaluation) (itemType : String) :
    e.delivered.get? itemType = (e.items.get? itemType).map (·.after) := by
  have hnodup : ((e.items.toList.map fun i => (i.1, i.2.after)).map (·.1)).Nodup := by
    rw [List.map_map]
    exact e.items.nodup
  rw [delivered, NameMap.get?_ofList hnodup, List.find?_map, Option.map_map]
  unfold Listing.get? Listing.find
  rw [Option.map_map]
  rfl

namespace ItemFiles

/-- The handler is in step with the updates: it tracks what stands after the lists that they deliver, and
what is held of its item type are the names of the last one. -/
structure Follows (f : ItemFiles) (c : Content) (held : NameMap Snapshot) (updates : List Update) : Prop where
  held : ∀ item, item ∈ ((held.get? f.itemType).getD .empty).items.keys ↔
    item ∈ (deliveries f.itemType updates).getLastD []
  filed : f.Filed c (Stands f.pathOf (deliveries f.itemType updates))

variable {f : ItemFiles} {c c' : Content} {held : NameMap Snapshot} {updates : List Update} {u : Update}
  {e : Evaluation}

theorem Follows.congr (h : f.Follows c held updates) (hc : c'.paths f.list = c.paths f.list) :
    f.Follows c' held updates :=
  ⟨h.held, h.filed.congr hc fun _ => .rfl⟩

theorem Follows.same {updates' : List Update} (h : f.Follows c held updates)
    (hsame : deliveries f.itemType updates' = deliveries f.itemType updates) : f.Follows c held updates' := by
  constructor
  · rw [hsame]
    exact h.held
  · rw [hsame]
    exact h.filed

theorem Follows.build (h : f.Follows c held updates) {b : Build} (hu : u.payload = .build b) :
    f.Follows c held (updates ++ [u]) := by
  refine h.same ?_
  rw [deliveries_concat, delivery?_of_build hu]
  exact List.append_nil _

/-- Changes that are none deliver the names that are held. -/
theorem Follows.known (h : f.Follows c held updates) (hu : u.payload = .evaluation e)
    (hk : ∀ change ∈ (e.items.mapValues (rebased held)).values, change.hasChanges = false) :
    f.Follows c held (updates ++ [u]) := by
  have hdeliveries := deliveries_concat f.itemType updates u
  rw [delivery?_of_evaluation hu] at hdeliveries
  cases hc : e.items.get? f.itemType with
  | none =>
    refine h.same ?_
    rw [hdeliveries, hc]
    exact List.append_nil _
  | some change =>
    rw [hc] at hdeliveries
    have hunchanged : (rebased held f.itemType change).hasChanges = false := by
      have hget := Listing.get?_mapValues e.items (rebased held) f.itemType
      rw [hc] at hget
      exact hk _ (Listing.mem_values hget)
    have hkeys (item : String) : item ∈ change.after.items.keys ↔
        item ∈ (deliveries f.itemType updates).getLastD [] :=
      (Change.mem_keys_of_unchanged hunchanged item).trans (h.held item)
    constructor
    · intro item
      rw [hdeliveries, Option.map_some, Option.toList_some, List.getLastD_concat, hkeys]
      exact h.held item
    · -- nothing comes and nothing goes, so the same paths stand
      refine h.filed.congr rfl fun path => ?_
      rw [hdeliveries, Option.map_some, Option.toList_some, stands_concat]
      constructor
      · intro hstands
        refine .inr ⟨hstands, ?_⟩
        rintro ⟨name, hname, hgone, -⟩
        exact hgone ((hkeys name).2 hname)
      · rintro (⟨name, hname, hnew, -⟩ | ⟨hstands, -⟩)
        · exact absurd ((hkeys name).1 hname) hnew
        · exact hstands

/-- Following an evaluation, what is held after its batch included. -/
theorem Follows.evaluation (h : f.Follows c held updates) (hu : u.payload = .evaluation e) :
    (f.follow (e.items.mapValues (rebased held))).1.Follows
      (c.replay (f.follow (e.items.mapValues (rebased held))).2) (held.insertAll e.delivered.toList)
      (updates ++ [u]) := by
  have hdeliveries := deliveries_concat f.itemType updates u
  rw [delivery?_of_evaluation hu] at hdeliveries
  have htype := (f.follow_frame (e.items.mapValues (rebased held))).2.2
  have hget : (e.items.mapValues (rebased held)).get? f.itemType =
      (e.items.get? f.itemType).map (rebased held f.itemType) := Listing.get?_mapValues _ _ _
  constructor
  · rw [htype, hdeliveries, NameMap.get?_insertAll_toList, e.get?_delivered]
    cases e.items.get? f.itemType with
    | none =>
      rw [Option.map_none, Option.map_none, Option.toList_none, List.append_nil]
      exact h.held
    | some change =>
      intro item
      rw [Option.map_some, Option.map_some, Option.toList_some, List.getLastD_concat]
      rfl
  · have hbefore : ∀ change, (e.items.mapValues (rebased held)).get? f.itemType = some change →
        ∀ item, item ∈ change.before.items.keys ↔ item ∈ (deliveries f.itemType updates).getLastD [] := by
      intro change hchange item
      rw [hget] at hchange
      obtain ⟨arrived, -, rfl⟩ := Option.map_eq_some_iff.1 hchange
      exact h.held item
    have hfollow := h.filed.follow hbefore
    rw [hget, Option.map_map] at hfollow
    rw [htype, hdeliveries, pathOf_follow]
    exact hfollow

end ItemFiles

namespace Kept

/-- What is tracked for the files. -/
def files (k : Kept) : List ItemFiles := [k.sources, k.additional]

variable {k : Kept} {c : Content} {held : NameMap Snapshot} {updates : List Update} {u : Update} {e : Evaluation}

theorem Listed.sources_ne (h : k.Listed) : k.sources.list ≠ k.additional.list := by
  rw [h.sources.1, h.additional.1]
  decide

theorem Listed.exists_file (h : k.Listed) {l : PathList × String} (hl : l ∈ PathList.files) :
    ∃ f ∈ k.files, f.list = l.1 ∧ f.itemType = l.2 := by
  rcases List.mem_cons.1 hl with rfl | hl
  · exact ⟨k.sources, by simp [files], h.sources⟩
  · rw [List.mem_singleton.1 hl]
    exact ⟨k.additional, by simp [files], h.additional⟩

theorem forall_files {P : ItemFiles → Prop} : (∀ f ∈ k.files, P f) ↔ P k.sources ∧ P k.additional := by
  simp [files]

/-- Both handlers of files follow an evaluation. -/
theorem Listed.follows_evaluation (h : k.Listed) (hk : ∀ f ∈ k.files, f.Follows c held updates)
    (hu : u.payload = .evaluation e) (rules : NameMap Change) :
    ∀ f ∈ (k.withItems (e.items.mapValues (rebased held))).files,
      f.Follows (c.replay (k.evaluationMutations rules (e.items.mapValues (rebased held))))
        (held.insertAll e.delivered.toList) (updates ++ [u]) := by
  have hproperties (list : PathList) : (c.replay (k.propertyMutations rules)).paths list = c.paths list := by
    refine Content.paths_replay (fun m hm => ?_) c
    rcases propertyMutations_part hm with hm | hm <;> simp [hm]
  obtain ⟨hsources, hadditional⟩ := forall_files.1 hk
  have hsources := (hsources.congr (hproperties _)).evaluation hu
  -- the additional files are followed in the content that the source files leave
  have hadditional := (hadditional.congr
    ((ItemFiles.paths_follow_of_ne k.sources (e.items.mapValues (rebased held)) _ h.sources_ne).trans
      (hproperties _))).evaluation hu
  rw [evaluationMutations, Content.replay_append, Content.replay_append, forall_files]
  constructor
  · refine ItemFiles.Follows.congr hsources ?_
    have hlist : (k.withItems (e.items.mapValues (rebased held))).sources.list = k.sources.list :=
      (k.sources.follow_frame _).1
    rw [hlist]
    exact ItemFiles.paths_follow_of_ne _ _ _ h.sources_ne.symm
  · exact hadditional

/-- What a build tells a context. -/
theorem Listed.part_of_build (h : k.Listed) {b : Build} {d : ArgumentDifference} {m : Mutation}
    (hm : m ∈ Mutation.setOptions b.arguments ::
      (k.referenceMutations d ++ [.setLastBuildSucceeded b.producedItems])) :
    m.part = .options ∨ m.part = .outcome ∨ m.part = .paths .metadataReferences ∨
      m.part = .paths .analyzerReferences := by
  rcases List.mem_cons.1 hm with rfl | hm
  · exact .inl rfl
  · rcases List.mem_append.1 hm with hm | hm
    · have := referenceMutations_part hm
      rw [h.metadata, h.analyzers] at this
      exact .inr (.inr this)
    · rw [List.mem_singleton.1 hm]
      exact .inr (.inl rfl)

/-- What a build tells a context is not about files. -/
theorem Listed.build_aside (h : k.Listed) {f : ItemFiles} (hf : f ∈ k.files) {b : Build} {d : ArgumentDifference}
    {m : Mutation} (hm : m ∈ Mutation.setOptions b.arguments ::
      (k.referenceMutations d ++ [.setLastBuildSucceeded b.producedItems])) : m.part ≠ .paths f.list := by
  have hlist : f.list = .sourceFiles ∨ f.list = .additionalFiles := by
    revert f
    rw [forall_files]
    exact ⟨.inl h.sources.1, .inr h.additional.1⟩
  rcases hlist with hlist | hlist <;> rcases h.part_of_build hm with hpart | hpart | hpart | hpart <;>
    simp [hlist, hpart]

/-- Handlers just made are in step with no update. -/
theorem follows_ofProject (project : Project) {c : Content} (hc : ∀ f ∈ PathList.files, c.paths f.1 = ∅) :
    ∀ f ∈ (ofProject project).files, f.Follows c ∅ [] := by
  have hblank : ∀ f ∈ (ofProject project).files, f.tracked = ∅ ∧ c.paths f.list = ∅ :=
    forall_files.2 ⟨⟨rfl, hc (.sourceFiles, WellKnown.compileItems) (by simp [PathList.files])⟩,
      ⟨rfl, hc (.additionalFiles, WellKnown.additionalFileItems) (by simp [PathList.files])⟩⟩
  intro f hf
  refine ⟨fun item => ?_, fun path => ?_, fun path => ?_⟩
  · exact iff_of_false List.not_mem_nil List.not_mem_nil
  · rw [(hblank f hf).1]
    exact iff_of_false (by simp [NameMap.contains]) not_stands_nil
  · rw [(hblank f hf).2]
    exact iff_of_false (by simp [NameMap.contains]) not_stands_nil

theorem files_directory (k : Kept) (items : Listing String Change) {directory : String}
    (h : ∀ f ∈ k.files, f.directory = directory) : ∀ f ∈ (k.withItems items).files, f.directory = directory := by
  obtain ⟨hsources, hadditional⟩ := forall_files.1 h
  rw [forall_files]
  exact ⟨(k.sources.follow_frame items).2.1.trans hsources,
    (k.additional.follow_frame items).2.1.trans hadditional⟩

end Kept

namespace Place

/-- The handlers of files are in step with the updates that ended well and the one whose batch is open;
they read items from the directory of the project of the first one, an evaluation. -/
structure Filed (p : Place) (past : List Update) : Prop where
  blank : p.workspace.context = none → past = [] ∨ p.workspace.status = .disposed
  files : ∀ handle k, p.workspace.context = some handle → handle.handlers = .standard k →
    ∃ first opened rest, past ++ p.pending = first :: rest ∧ first.payload = .evaluation opened ∧
      ∀ f ∈ k.files, f.directory = Text.Path.directoryOf opened.project.path ∧
        f.Follows p.content p.settled.items (past ++ p.pending)

theorem filed_fresh (slice : Slice) : (fresh slice).Filed [] :=
  ⟨fun _ => .inl rfl, fun _ _ h => (by cases h)⟩

variable {setup : Setup} {p p' : Place} {past updates : List Update}

/-- A place with a context whose handlers are these. -/
theorem filed_of_context {handle : ContextHandle} {k : Kept} {first : Update} {opened : Evaluation} {rest : List Update}
    (hc : p.workspace.context = some { handle with handlers := .standard k }) (hpast : past ++ p.pending = first :: rest)
    (hfirst : first.payload = .evaluation opened)
    (hfiles : ∀ f ∈ k.files, f.directory = Text.Path.directoryOf opened.project.path ∧
      f.Follows p.content p.settled.items (past ++ p.pending)) : p.Filed past := by
  constructor
  · intro hn
    cases hn.symm.trans hc
  · intro handle' k' ho' hk'
    cases hc.symm.trans ho'
    obtain rfl := HandlerSet.standard_injective hk'
    exact ⟨first, opened, rest, hpast, hfirst, hfiles⟩

/-- Every deed keeps the handlers of files in step. -/
theorem Filed.next (h : p.Filed past) (hu : p.Upshot setup p' updates) : p'.Filed (past ++ updates) := by
  cases hu with
  | same hc hcontent hs hall hn =>
    constructor
    · intro ho
      obtain ⟨rfl, hd⟩ := hn ho
      rw [List.append_nil]
      exact (h.blank (hc ▸ ho)).imp_right hd
    · -- closing a batch well moves its update to those that ended well
      rw [hc, hcontent, hs, List.append_assoc, hall]
      exact h.files
  | @skips u activity handle ho hk hb hc hcontent hs hi hi' =>
    constructor
    · intro hn
      rw [hc, ho] at hn
      cases hn
    · intro handle' k ho' hk'
      obtain ⟨first, opened, rest, hpast, hfirst, hfiles⟩ := h.files handle' k (hc ▸ ho') hk'
      rw [hi, List.append_nil] at hpast hfiles
      rw [hi', List.append_nil, hcontent, hs]
      refine ⟨first, opened, rest ++ [u], by rw [hpast]; rfl, hfirst, fun f hf => ⟨(hfiles f hf).1, ?_⟩⟩
      cases hu : u.payload with
      | evaluation e =>
        rw [hu] at hk
        refine (hfiles f hf).2.known hu ?_
        rw [hb]
        exact hk.items
      | build b => exact (hfiles f hf).2.build hu
  | @creates u e activity handle hu ha ho hi hi' hc hcontent hs =>
    obtain rfl : past = [] := (h.blank ho).resolve_right ha
    refine filed_of_context hc (by rw [hi']; rfl) hu fun f hf => ⟨?_, ?_⟩
    · exact Kept.files_directory _ _ (Kept.forall_files.2 ⟨rfl, rfl⟩) f hf
    · have hnew := Kept.follows_ofProject e.project
        (c := Content.apply {} (.setLastBuildSucceeded !setup.settings.suppressDiagnosticsUntilBuild))
        fun f _ => (by cases f.1 <;> rfl)
      rw [hi', hcontent, hs]
      exact (Kept.listed_ofProject e.project).follows_evaluation hnew hu _ f hf
  | @evaluates u e activity handle k hu ho hk hl hi hi' hc hcontent hs =>
    obtain ⟨first, opened, rest, hpast, hfirst, hfiles⟩ := h.files handle k ho hk
    rw [hi, List.append_nil] at hpast hfiles
    have hpast' : past ++ p'.pending = first :: (rest ++ [u]) := by rw [hi', hpast, List.cons_append]
    rw [List.append_nil]
    refine filed_of_context hc hpast' hfirst fun f hf => ⟨?_, ?_⟩
    · exact Kept.files_directory _ _ (fun f hf => (hfiles f hf).1) f hf
    · rw [hi', hcontent, hs]
      exact hl.follows_evaluation (fun f hf => (hfiles f hf).2) hu _ f hf
  | @builds u b activity handle k hu ho hk hl hi hi' hc hcontent hs =>
    obtain ⟨first, opened, rest, hpast, hfirst, hfiles⟩ := h.files handle k ho hk
    rw [hi, List.append_nil] at hpast hfiles
    have hpast' : past ++ p'.pending = first :: (rest ++ [u]) := by rw [hi', hpast, List.cons_append]
    rw [List.append_nil]
    refine filed_of_context hc hpast' hfirst fun f hf => ⟨(hfiles f hf).1, ?_⟩
    rw [hi', hs]
    refine ((hfiles f hf).2.build hu).congr ?_
    rw [hcontent]
    exact Content.paths_replay (fun m hm => hl.build_aside hf hm) _
  | parts hc hd =>
    constructor
    · exact fun _ => .inr hd
    · intro handle k ho
      rw [hc] at ho
      cases ho

end Place

namespace World

variable {setup : Setup} {i : Nat} {acts : List Act} {last : Act}

/-- When an update ends well, the context holds the files that stand after the lists delivered since the
first update, an evaluation, read from the directory of its project. So its files are those that the last
list names exactly if each of these stands: none of them went with another name since it last came. Where
different names are read as different paths that is always so. -/
theorem files_mirror_iff (hr : setup.registry = .standard)
    (ha : ∀ a ∈ acts ++ [last], a.Within (.plain setup)) {u : Update}
    (hu : u ∈ (run setup acts).integrates i [last]) :
    ∃ handle first opened rest, (run setup (acts ++ [last])).contextAt i = some handle ∧
      (World.initial setup).integrates i (acts ++ [last]) = first :: rest ∧
      first.payload = .evaluation opened ∧
      ∀ l ∈ PathList.files,
        let resolve := Text.Path.resolveIn (Text.Path.directoryOf opened.project.path)
        let lists := deliveries l.2 (first :: rest)
        let paths := ((run setup (acts ++ [last])).contentOf handle.serial).paths l.1
        (∀ path, paths.contains path = true ↔ Stands resolve lists path) ∧
          ((∀ path, paths.contains path = true ↔ ∃ item ∈ lists.getLastD [], resolve item = path) ↔
            ∀ item ∈ lists.getLastD [], Stands resolve lists (resolve item)) ∧
          ((∀ a ∈ lists.flatten, ∀ b ∈ lists.flatten, resolve a = resolve b → a = b) →
            ∀ path, paths.contains path = true ↔ ∃ item ∈ lists.getLastD [], resolve item = path) := by
  have hacts : ∀ a ∈ acts, a.Within (.plain setup) := fun a h => ha a (List.mem_append_left _ h)
  obtain ⟨hk, hs, hstands⟩ := stands_plain (P := Place.Filed) (i := i) hr Place.filed_fresh
    (fun hq hp h hd => h.next (hd.upshot hq hp)) hacts
  obtain ⟨p, p', hshows, hp, hfiled, hd, hshows', hone⟩ := plain_last hr ⟨hk, hs⟩ hstands (ha last (by simp)) hu
  obtain ⟨⟨handle, hhandle⟩, hinside⟩ := hd.leaves hp
  obtain ⟨k, hstandard, hlisted⟩ := (hp.next hd).standard handle hhandle
  obtain ⟨first, opened, rest, hall, hfirst, hfiles⟩ :=
    (hfiled.next (hd.upshot hshows.quiet hp)).files handle k hhandle hstandard
  rw [Place.pending_of_idle (Place.idle_of_none hinside), List.append_nil] at hall hfiles
  rw [hall] at hfiles
  rw [← run_concat] at hshows'
  have hupdates : (World.initial setup).integrates i (acts ++ [last]) = first :: rest := by
    rw [integrates_append]
    exact (congrArg _ hone).trans hall
  refine ⟨handle, first, opened, rest, (contextAt_of_shows hshows').trans hhandle, hupdates, hfirst, ?_⟩
  intro l hl resolve lists paths
  have hstanding : ∀ path, paths.contains path = true ↔ Stands resolve lists path := by
    intro path
    obtain ⟨f, hf, hlist, htype⟩ := hlisted.exists_file hl
    obtain ⟨hdirectory, hfollows⟩ := hfiles f hf
    have hpath : f.pathOf = resolve := by
      funext item
      rw [ItemFiles.pathOf, hdirectory]
    have := hfollows.filed.paths path
    rwa [hlist, htype, hpath, ← contentOf_of_shows hshows' hhandle] at this
  have hmirror : (∀ path, paths.contains path = true ↔ ∃ item ∈ lists.getLastD [], resolve item = path) ↔
      ∀ item ∈ lists.getLastD [], Stands resolve lists (resolve item) := by
    constructor
    · intro h item hitem
      exact (hstanding _).1 ((h _).2 ⟨item, hitem, rfl⟩)
    · intro h path
      rw [hstanding]
      constructor
      · exact Stands.named
      · rintro ⟨item, hitem, rfl⟩
        exact h item hitem
  exact ⟨hstanding, hmirror, fun h => hmirror.2 fun item hitem => stands_of_distinct h hitem⟩

set_option maxRecDepth 100000 in
/-- Two names of one file, of which one goes: the file does not stand any more. -/
theorem files_mirror_iff_respelled :
    let acts := Sample.twoCalls (Sample.evaluation ["a.cs", "/src/a.cs"]) (Sample.evaluation ["a.cs"])
    ∃ handle, (run {} (acts ++ [Sample.closing 1])).contextAt 0 = some handle ∧
      ∀ path, ((run {} (acts ++ [Sample.closing 1])).contentOf handle.serial).sourceFiles.contains path = true ↔
        Stands (Text.Path.resolveIn "/src") [["a.cs", "/src/a.cs"], ["a.cs"]] path := by
  intro acts
  have hwithin : ∀ a ∈ acts ++ [Sample.closing 1], a.Within (.plain {}) := by
    intro a ha
    rcases List.mem_append.1 ha with ha | ha
    · exact Sample.twoCalls_within rfl _ _ a ha
    · rw [List.mem_singleton.1 ha]
      exact Sample.closing_within rfl 1
  have hsecond : Sample.evaluation ["a.cs"] ∈ (run {} acts).integrates 0 [Sample.closing 1] := by
    decide +kernel
  have hall : (World.initial {}).integrates 0 (acts ++ [Sample.closing 1]) =
      [Sample.evaluation ["a.cs", "/src/a.cs"], Sample.evaluation ["a.cs"]] := by decide +kernel
  obtain ⟨handle, first, opened, rest, hcontext, hupdates, hfirst, hfiles⟩ :=
    files_mirror_iff rfl hwithin hsecond
  cases hall.symm.trans hupdates
  cases hfirst
  exact ⟨handle, hcontext, (hfiles (.sourceFiles, WellKnown.compileItems) (by decide)).1⟩

set_option maxRecDepth 100000 in
/-- The file of an item that is there is missing after an evaluation that ended well: another item of the
same file went. -/
theorem not_files_mirror :
    let acts := Sample.twoCalls (Sample.evaluation ["a.cs", "/src/a.cs"]) (Sample.evaluation ["a.cs"])
    let w := run {} (acts ++ [Sample.closing 1])
    (∀ a ∈ acts ++ [Sample.closing 1], a.Within (.plain {})) ∧
      Sample.evaluation ["a.cs"] ∈ (run {} acts).integrates 0 [Sample.closing 1] ∧
      (w.contextAt 0).map (·.serial) = some 0 ∧
      ¬∀ path, (w.contentOf 0).sourceFiles.contains path = true ↔
        ∃ item ∈ ["a.cs"], Text.Path.resolveIn (Text.Path.directoryOf "/src/a.proj") item = path := by
  refine ⟨fun a ha => ?_, by decide +kernel, by decide +kernel, fun h => ?_⟩
  · rcases List.mem_append.1 ha with ha | ha
    · exact Sample.twoCalls_within rfl _ _ a ha
    · rw [List.mem_singleton.1 ha]
      exact Sample.closing_within rfl 1
  · have hmissing := (h "/src/a.cs").2 ⟨"a.cs", by simp, by decide +kernel⟩
    revert hmissing
    decide +kernel

end World

end SliceSync
