import SliceSync.Proofs.Deeds
import SliceSync.Proofs.Standard
/-!
# Runs of evaluations and builds

With the standard handlers, without writes and rejected batches nothing fails, and every open batch is
that of an update. `Plain` is what a place keeps to then; the deeds left are those of `PlainDeed`, told in
terms of what the handlers remember.
-/

namespace SliceSync

/-- The lists and item types that the standard handlers are made for. -/
structure Kept.Listed (k : Kept) : Prop where
  metadata : k.metadata.list = .metadataReferences
  analyzers : k.analyzers.list = .analyzerReferences
  sources : k.sources.list = .sourceFiles ∧ k.sources.itemType = WellKnown.compileItems
  additional : k.additional.list = .additionalFiles ∧ k.additional.itemType = WellKnown.additionalFileItems

namespace Kept

theorem listed_ofProject (project : Project) : (ofProject project).Listed := ⟨rfl, rfl, ⟨rfl, rfl⟩, ⟨rfl, rfl⟩⟩

variable {k : Kept}

theorem Listed.withItems (h : k.Listed) (items : Listing String Change) : (k.withItems items).Listed := by
  obtain ⟨hl, -, ht⟩ := k.sources.follow_frame items
  obtain ⟨hl', -, ht'⟩ := k.additional.follow_frame items
  exact ⟨h.metadata, h.analyzers, ⟨hl.trans h.sources.1, ht.trans h.sources.2⟩,
    ⟨hl'.trans h.additional.1, ht'.trans h.additional.2⟩⟩

theorem Listed.withArguments (h : k.Listed) (d : ArgumentDifference) : (k.withArguments d).Listed :=
  ⟨(References.follow_list _ d).trans h.metadata, (References.follow_list _ d).trans h.analyzers, h.sources,
    h.additional⟩

end Kept

theorem HandlerSet.standard_injective {k k' : Kept} (h : standard k = standard k') : k = k' := by
  cases k
  cases k'
  simp only [standard, HandlerSet.mk.injEq, List.cons.injEq, Prod.mk.injEq,
    EvaluationHandler.projectProperties.injEq, ArgumentHandler.references.injEq, ItemHandler.files.injEq] at h
  simp [h]

/-- What the commit of an update's batch carries. -/
def Commit.Of (u : Update) (c : Commit) : Prop :=
  match u.payload with
  | .evaluation e => ∃ activity, c = .ofEvaluation u.versions e activity
  | .build b => ∃ activity, c = .build u.versions b.arguments activity

theorem Commit.of_evaluation {u : Update} {e : Evaluation} (hu : u.payload = .evaluation e)
    (activity : Activity) : (Commit.ofEvaluation u.versions e activity).Of u := by
  unfold Of
  rw [hu]
  exact ⟨activity, rfl⟩

theorem Commit.of_build {u : Update} {b : Build} (hu : u.payload = .build b) (activity : Activity) :
    (Commit.build u.versions b.arguments activity).Of u := by
  unfold Of
  rw [hu]
  exact ⟨activity, rfl⟩

/-- What a place keeps to in a run of evaluations and builds. -/
structure Place.Plain (p : Place) : Prop where
  /-- Nothing is held for a context before it comes. -/
  blank : p.workspace.context = none → p.workspace.baseline = {} ∨ p.workspace.status = .disposed
  standard : ∀ handle, p.workspace.context = some handle →
    ∃ k : Kept, handle.handlers = .standard k ∧ k.Listed
  /-- An open batch is that of an update, and nothing has failed in it. -/
  batch : ∀ request batch, p.inside = some ⟨request, .closing batch⟩ →
    batch.failure = none ∧ (∃ handle, p.workspace.context = some handle ∧ handle.serial = batch.serial) ∧
      ∃ u, request = .update u ∧ batch.commit.Of u

/-- What a turn does to a place in a run of evaluations and builds, with the updates that end well. -/
inductive PlainDeed (setup : Setup) (p p' : Place) : List Update → Prop
  | nothing (hc : p'.workspace.context = p.workspace.context)
      (hb : p'.workspace.baseline = p.workspace.baseline) (hr : p'.received = p.received)
      (hi : p'.inside = p.inside ∨ p.Idle ∧ p'.Idle)
      (hd : p.workspace.status = .disposed → p'.workspace.status = .disposed) : PlainDeed setup p p' []
  | skips {u : Update} {activity : Activity} {handle : ContextHandle}
      (ho : p.workspace.context = some handle)
      (hk : match u.payload with
        | .evaluation e => p.workspace.Knows e activity
        | .build b => p.workspace.KnowsBuild b activity)
      (hc : p'.workspace.context = p.workspace.context)
      (hb : p'.workspace.baseline = p.workspace.baseline) (hr : p'.received = p.received)
      (hi : p.inside = none) (hi' : p'.inside = none) : PlainDeed setup p p' [u]
  /-- An evaluation opens its batch, in the context that it creates. -/
  | creates {u : Update} {e : Evaluation} {activity : Activity} {handle : ContextHandle}
      (hu : u.payload = .evaluation e) (ha : p.workspace.status ≠ .disposed)
      (ho : p.workspace.context = none) (hblank : p.workspace.baseline = {}) (hi : p.inside = none)
      (hc : p'.workspace.context = some { handle with
        handlers := .standard ((Kept.ofProject e.project).withItems (p.workspace.seenItems e)) })
      (hb : p'.workspace.baseline =
        { p.workspace.baseline with
          lastBuildSucceeded := some !setup.settings.suppressDiagnosticsUntilBuild })
      (hr : p'.received = p.received ++ .startBatch ::
        ((Mutation.setLastBuildSucceeded (!setup.settings.suppressDiagnosticsUntilBuild) ::
          (Kept.ofProject e.project).evaluationMutations (p.workspace.seenRules e)
            (p.workspace.seenItems e)).map .mutate))
      (hi' : p'.inside = some ⟨.update u, .closing
        { serial := handle.serial, failure := none, commit := .ofEvaluation u.versions e activity }⟩) :
      PlainDeed setup p p' []
  /-- An evaluation opens its batch in the context that is there. -/
  | evaluates {u : Update} {e : Evaluation} {activity : Activity} {handle : ContextHandle} {k : Kept}
      (hu : u.payload = .evaluation e) (ho : p.workspace.context = some handle)
      (hk : handle.handlers = .standard k) (hi : p.inside = none)
      (hc : p'.workspace.context = some { handle with
        handlers := .standard (k.withItems (p.workspace.seenItems e)) })
      (hb : p'.workspace.baseline = p.workspace.baseline)
      (hr : p'.received = p.received ++ .startBatch ::
        ((k.evaluationMutations (p.workspace.seenRules e) (p.workspace.seenItems e)).map .mutate))
      (hi' : p'.inside = some ⟨.update u, .closing
        { serial := handle.serial, failure := none, commit := .ofEvaluation u.versions e activity }⟩) :
      PlainDeed setup p p' []
  /-- A build opens its batch. -/
  | builds {u : Update} {b : Build} {activity : Activity} {handle : ContextHandle} {k : Kept}
      (hu : u.payload = .build b) (ho : p.workspace.context = some handle)
      (hk : handle.handlers = .standard k) (hi : p.inside = none)
      (hc : p'.workspace.context = some { handle with
        handlers := .standard (k.withArguments (.between p.workspace.baseline.arguments b.arguments)) })
      (hb : p'.workspace.baseline = p.workspace.baseline)
      (hr : p'.received = p.received ++ .startBatch :: ((Mutation.setOptions b.arguments ::
        (k.referenceMutations (.between p.workspace.baseline.arguments b.arguments) ++
          [.setLastBuildSucceeded b.producedItems])).map .mutate))
      (hi' : p'.inside = some ⟨.update u, .closing
        { serial := handle.serial, failure := none, commit := .build u.versions b.arguments activity }⟩) :
      PlainDeed setup p p' []
  /-- The batch of an update closes. -/
  | commits {u : Update} {batch : OpenBatch} (hi : p.inside = some ⟨.update u, .closing batch⟩)
      (hof : batch.commit.Of u) (hc : p'.workspace.context = p.workspace.context)
      (hb : p'.workspace.baseline = (p.workspace.commit batch.commit).1.baseline)
      (hr : p'.received = p.received ++ [.endBatch]) (hi' : p'.inside = none) : PlainDeed setup p p' [u]
  /-- The context goes. -/
  | parts (hi : p.inside = none) (hc : p'.workspace.context = none) (hs : p'.workspace.status = .disposed)
      (hr : p'.received = []) (hi' : p'.Idle) : PlainDeed setup p p' []

namespace Place

/-- What the context holds. -/
def content (p : Place) : Content := Content.replay {} (ContextCall.mutations p.received)

/-- What the context will have been given last once the open batch has closed. -/
def settled (p : Place) : Baseline :=
  match p.inside with
  | some ⟨_, .closing batch⟩ => (p.workspace.commit batch.commit).1.baseline
  | _ => p.workspace.baseline

theorem content_eq_replay {p p' : Place} {l : List ContextCall} (h : p'.received = p.received ++ l) :
    p'.content = p.content.replay (ContextCall.mutations l) := by
  unfold content
  rw [h, ContextCall.mutations_append, Content.replay_append]

theorem content_of_received_nil {p : Place} (h : p.received = []) : p.content = {} := by
  unfold content
  rw [h]
  rfl

theorem settled_of_idle {p : Place} (h : p.Idle) : p.settled = p.workspace.baseline := by
  unfold settled
  split
  · exact absurd (by assumption) (h _ _)
  · rfl

theorem settled_of_closing {p : Place} {request : Request} {batch : OpenBatch}
    (h : p.inside = some ⟨request, .closing batch⟩) :
    p.settled = (p.workspace.commit batch.commit).1.baseline := by
  unfold settled
  rw [h]

/-- Idle or not, what is settled hangs on the baseline and the open batch only. -/
theorem settled_congr {p p' : Place} (hb : p'.workspace.baseline = p.workspace.baseline)
    (hi : p'.inside = p.inside ∨ p.Idle ∧ p'.Idle) : p'.settled = p.settled := by
  rcases hi with hi | ⟨hi, hi'⟩
  · unfold settled
    rw [hi]
    split
    · rename_i batch _
      cases batch.commit <;> simp [Workspace.commit, hb]
    · exact hb
  · rw [settled_of_idle hi, settled_of_idle hi', hb]

/-- The update whose batch is open. -/
def pending (p : Place) : List Update :=
  match p.inside with
  | some ⟨.update u, .closing _⟩ => [u]
  | _ => []

theorem pending_of_idle {p : Place} (h : p.Idle) : p.pending = [] := by
  unfold pending
  split
  · exact absurd (by assumption) (h _ _)
  · rfl

theorem pending_of_closing {p : Place} {u : Update} {batch : OpenBatch}
    (h : p.inside = some ⟨.update u, .closing batch⟩) : p.pending = [u] := by
  unfold pending
  rw [h]

theorem pending_congr {p p' : Place} (hi : p'.inside = p.inside ∨ p.Idle ∧ p'.Idle) : p'.pending = p.pending := by
  rcases hi with hi | ⟨hi, hi'⟩
  · rw [pending, pending, hi]
  · rw [pending_of_idle hi, pending_of_idle hi']

theorem plain_fresh (slice : Slice) : (fresh slice).Plain :=
  ⟨fun _ => .inl rfl, fun _ h => (by cases h), fun _ _ h => (by cases h)⟩

variable {setup : Setup} {p p' : Place} {updates : List Update}

/-- The deeds in a run of evaluations and builds. -/
theorem Plain.deed (h : p.Plain) (hr : setup.registry = .standard)
    (hd : Deed (.plain setup) p p' updates) : PlainDeed setup p p' updates := by
  cases hd with
  | nothing hc hb hr hi hd => exact .nothing hc hb hr hi hd
  | @skips u activity ha hk hc hb hr hi hi' =>
    cases ho : p.workspace.context with
    | some handle =>
      refine @PlainDeed.skips setup p p' u activity handle ho ?_ hc hb hr hi hi'
      cases hu : u.payload with
      | evaluation e =>
        rw [hu] at hk
        exact hk.2
      | build b =>
        rw [hu] at hk
        exact hk
    | none =>
      -- without a context nothing is held, so nothing is skipped
      have hblank := (h.blank ho).resolve_right ha
      cases hu : u.payload with
      | evaluation e =>
        rw [hu, ho] at hk
        cases hk.1
      | build b =>
        rw [hu] at hk
        have := hk.activity
        rw [hblank] at this
        cases this
  | @evaluates env u e activity handle fresh hu ha ho hi hc hb hr' hi' =>
    cases fresh with
    | true =>
      simp only [if_true] at ho hb hr'
      obtain ⟨ho, hhandlers⟩ := ho
      have hs : handle.handlers = .standard (.ofProject e.project) := by
        rw [hhandlers]
        exact congrArg (·.resolve e.project) hr
      obtain ⟨hstate, hfailure, heffects⟩ := HandlerSet.standard_applyBoth (.ofProject e.project) env activity
        (p.workspace.seenRules e) (p.workspace.seenItems e)
      rw [hs, hstate] at hc
      rw [hs, heffects] at hr'
      rw [hs, hfailure] at hi'
      exact .creates hu ha ho ((h.blank ho).resolve_right ha) hi hc hb hr' hi'
    | false =>
      simp only [Bool.false_eq_true, if_false, List.nil_append] at ho hb hr'
      obtain ⟨k, hk, -⟩ := h.standard handle ho
      obtain ⟨hstate, hfailure, heffects⟩ := HandlerSet.standard_applyBoth k env activity
        (p.workspace.seenRules e) (p.workspace.seenItems e)
      rw [hk, hstate] at hc
      rw [hk, heffects] at hr'
      rw [hk, hfailure] at hi'
      exact .evaluates hu ho hk hi hc hb hr' hi'
  | @builds env u b activity handle hu ho hi hc hb hr' hi' =>
    obtain ⟨k, hk, -⟩ := h.standard handle ho
    obtain ⟨hstate, hfailure, heffects⟩ := HandlerSet.standard_applyArguments k env activity
      (.between p.workspace.baseline.arguments b.arguments)
    rw [hk, hstate] at hc
    rw [hk, heffects] at hr'
    rw [hk, hfailure] at hi'
    exact .builds hu ho hk hi hc hb hr' hi'
  | writes hw => exact hw.elim
  | @commits request batch hf hi hc hb hr' hi' =>
    obtain ⟨-, ⟨handle, hhandle, hserial⟩, u, rfl, hof⟩ := h.batch _ _ hi
    exact .commits hi hof hc hb (hr' handle hhandle hserial) hi'
  | fails he hf hi =>
    obtain ⟨hnone, -, -⟩ := h.batch _ _ hi
    rcases hf with hf | hf
    · exact absurd hnone hf
    · exact absurd he hf
  | parts hi hc hs hr' hi' => exact .parts hi hc hs hr' hi'

/-- A place where an update has just opened its batch. -/
theorem plain_of_opened {handle : ContextHandle} {k : Kept} {u : Update} {commit : Commit}
    (hc : p.workspace.context = some { handle with handlers := .standard k }) (hl : k.Listed)
    (hi : p.inside = some ⟨.update u, .closing { serial := handle.serial, failure := none, commit }⟩)
    (hof : commit.Of u) : p.Plain := by
  constructor
  case blank =>
    intro hn
    rw [hc] at hn
    cases hn
  case standard =>
    intro handle' hhandle
    cases hc.symm.trans hhandle
    exact ⟨k, rfl, hl⟩
  case batch =>
    intro request batch hin
    cases hi.symm.trans hin
    exact ⟨rfl, ⟨_, hc, rfl⟩, u, rfl, hof⟩

/-- A place that only sees evaluations and builds goes on so. -/
theorem Plain.next (h : p.Plain) (hd : PlainDeed setup p p' updates) : p'.Plain := by
  have idle {q : Place} (hi : q.Idle) : ∀ request batch, q.inside = some ⟨request, .closing batch⟩ →
      batch.failure = none ∧ (∃ handle, q.workspace.context = some handle ∧ handle.serial = batch.serial) ∧
        ∃ u, request = .update u ∧ batch.commit.Of u := fun _ _ hin => absurd hin (hi _ _)
  cases hd with
  | nothing hc hb hr hi hd =>
    refine ⟨fun hn => ?_, fun handle hhandle => h.standard handle (hc ▸ hhandle), ?_⟩
    · rw [hb]
      exact (h.blank (hc ▸ hn)).imp_right hd
    · rcases hi with hi | ⟨-, hi⟩
      · rw [hi, hc]
        exact h.batch
      · exact idle hi
  | skips ho hk hc hb hr hi hi' =>
    refine ⟨fun hn => ?_, fun handle hhandle => h.standard handle (hc ▸ hhandle), idle (idle_of_none hi')⟩
    rw [hc, ho] at hn
    cases hn
  | @creates u e activity handle hu ha ho hblank hi hc hb hr hi' =>
    exact plain_of_opened hc ((Kept.listed_ofProject e.project).withItems _) hi' (Commit.of_evaluation hu _)
  | @evaluates u e activity handle k hu ho hk hi hc hb hr hi' =>
    obtain ⟨k', hk', hlisted⟩ := h.standard handle ho
    obtain rfl := HandlerSet.standard_injective (hk.symm.trans hk')
    exact plain_of_opened hc (hlisted.withItems _) hi' (Commit.of_evaluation hu _)
  | @builds u b activity handle k hu ho hk hi hc hb hr hi' =>
    obtain ⟨k', hk', hlisted⟩ := h.standard handle ho
    obtain rfl := HandlerSet.standard_injective (hk.symm.trans hk')
    exact plain_of_opened hc (hlisted.withArguments _) hi' (Commit.of_build hu _)
  | commits hi hof hc hb hr hi' =>
    obtain ⟨-, ⟨handle, hhandle, -⟩, -⟩ := h.batch _ _ hi
    refine ⟨fun hn => ?_, fun handle hhandle => h.standard handle (hc ▸ hhandle), idle (idle_of_none hi')⟩
    rw [hc, hhandle] at hn
    cases hn
  | parts hi hc hs hr hi' =>
    refine ⟨fun _ => .inr hs, fun handle hhandle => ?_, idle hi'⟩
    rw [hc] at hhandle
    cases hhandle

end Place

/-- An update that ends well leaves a context, and nobody inside. -/
theorem PlainDeed.leaves {setup : Setup} {p p' : Place} {u : Update} (hp : p.Plain)
    (hd : PlainDeed setup p p' [u]) :
    (∃ handle, p'.workspace.context = some handle) ∧ p'.inside = none := by
  cases hd with
  | skips ho hk hc hb hr hi hi' => exact ⟨⟨_, hc.trans ho⟩, hi'⟩
  | commits hi hof hc hb hr hi' =>
    obtain ⟨-, ⟨handle, hhandle, -⟩, -⟩ := hp.batch _ _ hi
    exact ⟨⟨handle, hc.trans hhandle⟩, hi'⟩

/-- A context that is gone stays gone. -/
theorem PlainDeed.stays_gone {setup : Setup} {p p' : Place} {updates : List Update} (hp : p.Plain)
    (hd : PlainDeed setup p p' updates) (hnone : p.workspace.context = none)
    (hdisposed : p.workspace.status = .disposed) :
    p'.workspace.context = none ∧ p'.workspace.status = .disposed := by
  have absent {handle : ContextHandle} (ho : p.workspace.context = some handle) : False := by
    rw [hnone] at ho
    cases ho
  cases hd with
  | nothing hc hb hr hi hd => exact ⟨hc.trans hnone, hd hdisposed⟩
  | skips ho => exact (absent ho).elim
  | creates hu ha => exact absurd hdisposed ha
  | evaluates hu ho => exact (absent ho).elim
  | builds hu ho => exact (absent ho).elim
  | commits hi =>
    obtain ⟨-, ⟨handle, ho, -⟩, -⟩ := hp.batch _ _ hi
    exact (absent ho).elim
  | parts hi hc hs => exact ⟨hc, hs⟩

/-! ## What deeds come to -/

/-- What an evaluation's items leave in the baseline. -/
def Evaluation.delivered (e : Evaluation) : NameMap Snapshot :=
  NameMap.ofList (e.items.toList.map fun i => (i.1, i.2.after))

/-- What was given last, after an evaluation. -/
def Baseline.evaluated (b : Baseline) (e : Evaluation) (activity : Activity) : Baseline :=
  { b with
    rules := b.rules.insertAll (e.rules.mapValues fun _ c => c.after).toList
    items := b.items.insertAll e.delivered.toList
    activity := some activity }

/-- What was given last, after a build. -/
def Baseline.built (b : Baseline) (x : Build) (activity : Activity) : Baseline :=
  { b with arguments := x.arguments, lastBuildSucceeded := some x.producedItems, activity := some activity }

namespace Place

/-- What a deed comes to for the memory of the handlers, for what the context holds and for what is
settled, with the updates that end well. An update is news when its batch opens. -/
inductive Upshot (setup : Setup) (p p' : Place) : List Update → Prop
  | same {updates : List Update} (hc : p'.workspace.context = p.workspace.context)
      (hcontent : p'.content = p.content) (hs : p'.settled = p.settled)
      (hall : updates ++ p'.pending = p.pending)
      (hn : p'.workspace.context = none →
        updates = [] ∧ (p.workspace.status = .disposed → p'.workspace.status = .disposed)) :
      Upshot setup p p' updates
  | skips {u : Update} {activity : Activity} {handle : ContextHandle}
      (ho : p.workspace.context = some handle)
      (hk : match u.payload with
        | .evaluation e => p.workspace.Knows e activity
        | .build b => p.workspace.KnowsBuild b activity)
      (hb : p.settled = p.workspace.baseline) (hc : p'.workspace.context = p.workspace.context)
      (hcontent : p'.content = p.content) (hs : p'.settled = p.settled) (hi : p.pending = []) (hi' : p'.pending = []) : Upshot setup p p' [u]
  | creates {u : Update} {e : Evaluation} (activity : Activity) {handle : ContextHandle}
      (hu : u.payload = .evaluation e) (ha : p.workspace.status ≠ .disposed)
      (ho : p.workspace.context = none) (hi : p.pending = []) (hi' : p'.pending = [u])
      (hc : p'.workspace.context = some { handle with
        handlers := .standard ((Kept.ofProject e.project).withItems
          (e.items.mapValues (Workspace.rebased ∅))) })
      (hcontent : p'.content =
        (Content.apply {} (.setLastBuildSucceeded !setup.settings.suppressDiagnosticsUntilBuild)).replay
          ((Kept.ofProject e.project).evaluationMutations (e.rules.mapValues (Workspace.rebased ∅))
            (e.items.mapValues (Workspace.rebased ∅))))
      (hs : p'.settled = Baseline.evaluated
        { lastBuildSucceeded := some !setup.settings.suppressDiagnosticsUntilBuild } e activity) :
      Upshot setup p p' []
  | evaluates {u : Update} {e : Evaluation} (activity : Activity) {handle : ContextHandle} {k : Kept}
      (hu : u.payload = .evaluation e) (ho : p.workspace.context = some handle)
      (hk : handle.handlers = .standard k) (hl : k.Listed) (hi : p.pending = []) (hi' : p'.pending = [u])
      (hc : p'.workspace.context = some { handle with
        handlers := .standard (k.withItems (e.items.mapValues (Workspace.rebased p.settled.items))) })
      (hcontent : p'.content = p.content.replay
        (k.evaluationMutations (e.rules.mapValues (Workspace.rebased p.settled.rules))
          (e.items.mapValues (Workspace.rebased p.settled.items))))
      (hs : p'.settled = p.settled.evaluated e activity) : Upshot setup p p' []
  | builds {u : Update} {b : Build} (activity : Activity) {handle : ContextHandle} {k : Kept}
      (hu : u.payload = .build b) (ho : p.workspace.context = some handle)
      (hk : handle.handlers = .standard k) (hl : k.Listed) (hi : p.pending = []) (hi' : p'.pending = [u])
      (hc : p'.workspace.context = some { handle with
        handlers := .standard (k.withArguments (.between p.settled.arguments b.arguments)) })
      (hcontent : p'.content = p.content.replay (.setOptions b.arguments ::
        (k.referenceMutations (.between p.settled.arguments b.arguments) ++
          [.setLastBuildSucceeded b.producedItems])))
      (hs : p'.settled = p.settled.built b activity) : Upshot setup p p' []
  | parts (hc : p'.workspace.context = none) (hd : p'.workspace.status = .disposed) : Upshot setup p p' []

end Place

open Place in
theorem PlainDeed.upshot {setup : Setup} {p p' : Place} {updates : List Update}
    (hd : PlainDeed setup p p' updates) (hq : p.Quiet) (hp : p.Plain) : p.Upshot setup p' updates := by
  cases hd with
  | nothing hc hb hr hi hd =>
    refine .same hc (by rw [content, content, hr]) (settled_congr hb hi) (pending_congr hi) fun _ => ⟨rfl, hd⟩
  | @skips u activity handle ho hk hc hb hr hi hi' =>
    exact .skips ho hk (settled_of_idle (idle_of_none hi)) hc (by rw [content, content, hr])
      (settled_congr hb (.inl (hi'.trans hi.symm))) (pending_of_idle (idle_of_none hi))
      (pending_of_idle (idle_of_none hi'))
  | @creates u e activity handle hu ha ho hblank hi hc hb hr hi' =>
    have hcontent := content_eq_replay hr
    rw [content_of_received_nil (hq ho), ContextCall.mutations_start_cons, ContextCall.mutations_map_mutate,
      Content.replay_cons] at hcontent
    rw [Workspace.seenRules, Workspace.seenItems, hblank] at hcontent
    rw [Workspace.seenItems, hblank] at hc
    refine .creates activity hu ha ho (pending_of_idle (idle_of_none hi)) (pending_of_closing hi') hc hcontent ?_
    rw [settled_of_closing hi', Commit.ofEvaluation, Workspace.commit, hb, hblank]
    rfl
  | @evaluates u e activity handle k hu ho hk hi hc hb hr hi' =>
    obtain ⟨k', hk', hlisted⟩ := hp.standard handle ho
    obtain rfl := HandlerSet.standard_injective (hk.symm.trans hk')
    have hsettled := settled_of_idle (idle_of_none hi)
    have hcontent := content_eq_replay hr
    rw [ContextCall.mutations_start_cons, ContextCall.mutations_map_mutate, Workspace.seenRules,
      Workspace.seenItems, ← hsettled] at hcontent
    rw [Workspace.seenItems, ← hsettled] at hc
    refine .evaluates activity hu ho hk hlisted (pending_of_idle (idle_of_none hi)) (pending_of_closing hi') hc
      hcontent ?_
    rw [settled_of_closing hi', hsettled, ← hb]
    rfl
  | @builds u b activity handle k hu ho hk hi hc hb hr hi' =>
    obtain ⟨k', hk', hlisted⟩ := hp.standard handle ho
    obtain rfl := HandlerSet.standard_injective (hk.symm.trans hk')
    have hsettled := settled_of_idle (idle_of_none hi)
    have hcontent := content_eq_replay hr
    rw [ContextCall.mutations_start_cons, ContextCall.mutations_map_mutate, ← hsettled] at hcontent
    rw [← hsettled] at hc
    refine .builds activity hu ho hk hlisted (pending_of_idle (idle_of_none hi)) (pending_of_closing hi') hc
      hcontent ?_
    rw [settled_of_closing hi', hsettled, ← hb]
    rfl
  | @commits u batch hi hof hc hb hr hi' =>
    refine .same hc ?_ ?_ ?_ fun hn => ?_
    · rw [content_eq_replay hr]
      rfl
    · rw [settled_of_idle (idle_of_none hi'), settled_of_closing hi, hb]
    · rw [pending_of_idle (idle_of_none hi'), pending_of_closing hi]
      rfl
    · obtain ⟨-, ⟨handle, hhandle, -⟩, -⟩ := hp.batch _ _ hi
      rw [hc, hhandle] at hn
      cases hn
  | parts hi hc hs hr hi' => exact .parts hc hs

/-! ## Runs -/

namespace World

/-- The context of the workspace in a place. -/
def contextAt (w : World) (i : Nat) : Option ContextHandle := (w.workspace? i).bind (·.context)

/-- What a context holds. -/
def contentOf (w : World) (n : Nat) : Content := Content.replay {} (ContextCall.mutations (w.callsOf n))

theorem contextAt_of_shows {w : World} {i : Nat} {p : Place} (h : w.view.Shows i p) :
    w.contextAt i = p.workspace.context := by
  have hw : w.workspace? i = some p.workspace := by
    have := h.workspace
    unfold view at this
    rwa [List.getElem?_map] at this
  rw [contextAt, hw]
  rfl

theorem callsOf_of_shows {w : World} {i : Nat} {p : Place} {handle : ContextHandle} (h : w.view.Shows i p)
    (ho : p.workspace.context = some handle) : w.callsOf handle.serial = p.received := by
  rw [h.received, View.heardAt, View.serialAt_eq h.workspace, ho]
  rfl

theorem contentOf_of_shows {w : World} {i : Nat} {p : Place} {handle : ContextHandle} (h : w.view.Shows i p)
    (ho : p.workspace.context = some handle) : w.contentOf handle.serial = p.content := by
  rw [contentOf, callsOf_of_shows h ho]
  rfl

/-- The updates on the workspace in a place that end well during some acts. -/
def integrates (w : World) (i : Nat) (acts : List Act) : List Update :=
  SliceSync.integrated ((endingsFrom w acts).filter (·.place = i))

variable {setup : Setup} {w : World} {i : Nat} {acts : List Act} {P : Place → List Update → Prop}

theorem integrates_append (w : World) (i : Nat) (l m : List Act) :
    w.integrates i (l ++ m) = w.integrates i l ++ (runFrom w l).integrates i m := by
  induction l generalizing w with
  | nil => rfl
  | cons a rest ih =>
    have h := ih (w.perform a)
    unfold integrates at h ⊢
    rw [List.cons_append, endingsFrom_cons, endingsFrom_cons, List.filter_append, List.filter_append,
      integrated_append, integrated_append, h, List.append_assoc]
    rfl

/-- What holds of a fresh workspace and is kept by every deed holds after a run of evaluations and
builds. -/
theorem stands_plain (hr : setup.registry = .standard) (start : ∀ slice, P (.fresh slice) [])
    (deed : ∀ {p p' past updates}, p.Quiet → p.Plain → P p past → PlainDeed setup p p' updates →
      P p' (past ++ updates))
    (ha : ∀ a ∈ acts, a.Within (.plain setup)) :
    (run setup acts).Keeps (.plain setup) ∧ (run setup acts).view.Sound (.plain setup) ∧
      (run setup acts).view.Stands i (fun p past => p.Plain ∧ P p (SliceSync.integrated past))
        ((history setup acts).filter (·.place = i)) := by
  refine stands_run (t := .plain setup) (fun slice past hpast => ?_) (fun hq h ht => ?_) ha
  · rw [integrated_of_errors fun e he u _ => hpast e he]
    exact ⟨Place.plain_fresh slice, start slice⟩
  · have hd := h.1.deed hr (ht.deed hq)
    rw [integrated_append]
    exact ⟨h.1.next hd, deed hq h.1 h.2 hd⟩

/-- What a workspace shows, and every deed keeps, it shows after more evaluations and builds. -/
theorem shows_plain (hr : setup.registry = .standard)
    (deed : ∀ {p p' past updates}, p.Quiet → p.Plain → P p past → PlainDeed setup p p' updates →
      P p' (past ++ updates))
    (hw : w.Keeps (.plain setup) ∧ w.view.Sound (.plain setup)) {p : Place} (hshows : w.view.Shows i p)
    (hp : p.Plain) (hP : P p []) (ha : ∀ a ∈ acts, a.Within (.plain setup)) :
    ∃ p', (runFrom w acts).view.Shows i p' ∧ p'.Plain ∧ P p' (w.integrates i acts) := by
  have start : p.Plain ∧ P p (SliceSync.integrated []) := ⟨hp, hP⟩
  have turn {q q' : Place} {past ended : List Ending} (hq : q.Quiet)
      (h : q.Plain ∧ P q (SliceSync.integrated past)) (ht : Turn (.plain setup) i q q' ended) :
      q'.Plain ∧ P q' (SliceSync.integrated (past ++ ended)) := by
    have hd := h.1.deed hr (ht.deed hq)
    rw [integrated_append]
    exact ⟨h.1.next hd, deed hq h.1 h.2 hd⟩
  exact (shows_runFrom (P := fun q past => q.Plain ∧ P q (SliceSync.integrated past)) hw.1 hw.2 turn hshows
    start ha).2.2

/-- The deed by which an update ends well. -/
theorem plain_last {last : Act} {u : Update} (hr : setup.registry = .standard)
    (hw : w.Keeps (.plain setup) ∧ w.view.Sound (.plain setup)) {past : List Ending}
    (hs : w.view.Stands i (fun p past => p.Plain ∧ P p (SliceSync.integrated past)) past)
    (ha : last.Within (.plain setup)) (hu : u ∈ w.integrates i [last]) :
    ∃ p p', w.view.Shows i p ∧ p.Plain ∧ P p (SliceSync.integrated past) ∧
      PlainDeed setup p p' [u] ∧ (w.perform last).view.Shows i p' ∧ w.integrates i [last] = [u] := by
  have hm := perform_moves hw.1 ha
  have hends : w.integrates i [last] = SliceSync.integrated ((w.endings last).filter (·.place = i)) := by
    simp [integrates, endingsFrom]
  rw [hends] at hu ⊢
  obtain ⟨hn, -⟩ | ⟨p, hp, hplain, hP⟩ := hs
  · rw [integrated_of_errors fun e he u _ => View.error_of_absent hm hn e he] at hu
    cases hu
  · obtain ⟨p', hp', ht⟩ := hw.2.turn hp hm
    have hd := hplain.deed hr (ht.deed hp.quiet)
    generalize SliceSync.integrated ((w.endings last).filter (·.place = i)) = updates at hu hd
    have hone : updates = [u] := by
      cases hd with
      | skips => exact congrArg (fun u => [u]) (List.mem_singleton.1 hu).symm
      | commits => exact congrArg (fun u => [u]) (List.mem_singleton.1 hu).symm
      | _ => cases hu
    exact ⟨p, p', hp, hplain, hP, hone ▸ hd, hp', hone⟩

end World

/-! ## A sample project -/

namespace Sample

/-- An evaluation of the project with these source files. -/
def evaluation (sources : List String) : Update where
  versions := .empty
  payload := .evaluation
    { project := { path := "/src/a.proj" }
      rules := .ofList
        [(WellKnown.generalRule,
          { after :=
              { properties := .ofList
                  [(WellKnown.language, "C#"), (WellKnown.projectFullPath, "/src/a.proj"),
                    (WellKnown.targetPath, "/src/out/a.dll")] } })]
      items := .ofList [(WellKnown.compileItems, { after := { items := .ofList (sources.map (·, ∅)) } })] }

/-- A build of the project with these arguments. -/
def build (arguments : List String) : Update where
  versions := .empty
  payload := .build { project := { path := "/src/a.proj" }, arguments }

/-- A call with an update, up to the closing of its batch. -/
def opening (me : JobId) (u : Update) : List Act :=
  .call 0 (.update u) :: List.replicate (match u.kind with | .evaluation => 1 | .build => 2) (.advance {} me)

/-- The closing of its batch. -/
def closing (me : JobId) : Act := .advance {} me

/-- Two calls, the second one up to the closing of its batch. -/
def twoCalls (u v : Update) : List Act := .addWorkspace .empty :: (opening 0 u ++ closing 0 :: opening 1 v)

section

variable {t : Terms} (he : t.fits {})
include he

theorem closing_within (me : JobId) : (closing me).Within t := he

theorem opening_within (me : JobId) (u : Update) : ∀ a ∈ opening me u, a.Within t := by
  intro a ha
  rcases List.mem_cons.1 ha with rfl | ha
  · exact fun hw => (by cases hw)
  · rw [List.eq_of_mem_replicate ha]
    exact closing_within he me

theorem twoCalls_within (u v : Update) : ∀ a ∈ twoCalls u v, a.Within t := by
  intro a ha
  rcases List.mem_cons.1 ha with rfl | ha
  · trivial
  · rcases List.mem_append.1 ha with ha | ha
    · exact opening_within he 0 _ a ha
    · rcases List.mem_cons.1 ha with rfl | ha
      · exact closing_within he 0
      · exact opening_within he 1 _ a ha

end

end Sample

end SliceSync
