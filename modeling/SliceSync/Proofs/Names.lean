import SliceSync.Proofs.Creations
import SliceSync.Proofs.Labels
/-!
# The names of a context

In a run of evaluations and builds in which nothing fails, the display name and the output path of a context are those
that the snapshots delivered so far give, though the first come with the context and the later ones from a handler
that sees changes only.

Main statement: `World.labels_mirror`.
-/

namespace SliceSync

open Workspace (rebased)

/-! ## Creation -/

/-- A property of the general rule that an evaluation has is given by it. -/
theorem property?_general {u : Update} {e : Evaluation} (hu : u.payload = .evaluation e) (property : String) :
    e.property? WellKnown.generalRule property = u.general?.bind (·.property? property) := by
  rw [general?_of_evaluation hu, Evaluation.property?]
  cases e.rules.get? WellKnown.generalRule <;> rfl

theorem lastGiven_eq_none {property : String} {updates : List Update} :
    lastGiven property updates = none ↔ ∀ u ∈ updates, u.general?.bind (·.property? property) = none := by
  rw [lastGiven, List.getLast?_eq_none_iff, List.filterMap_eq_nil_iff, generals]
  simp only [List.mem_filterMap, forall_exists_index, and_imp, Option.bind_eq_none_iff]
  exact ⟨fun h u hu snapshot hs => h snapshot u hu hs, fun h snapshot u hu hs => h u hu snapshot hs⟩

namespace Labels

variable {slice : Slice} {mutations : List Mutation} {held : NameMap Snapshot} {first : Update} {rest : List Update}
  {opened : Evaluation} {params : CreationParams}

/-- The output path of a context created with its first update. -/
theorem outputPath (h : Labels slice mutations held (first :: rest)) (hu : first.payload = .evaluation opened)
    (hp : opened.creationParams = .ok params) :
    lastGiven WellKnown.targetPath (first :: rest) = some ((Content.ofParams params).replay mutations).outputPath := by
  have hset : ((Content.ofParams params).replay mutations).outputPath =
      ((lastGiven WellKnown.targetPath (first :: rest)).map id).getD params.outputPath :=
    (Label.on_replay .output _ _).trans (congrArg (Option.getD · params.outputPath) (h.set .output))
  have hcreated := (property?_general hu _).symm.trans (Evaluation.describes_of_creationParams hp).outputPath
  rw [hset]
  cases hlast : lastGiven WellKnown.targetPath (first :: rest) with
  | none =>
    -- the first update has given one, or the context would not be there
    exact absurd (hcreated.symm.trans (lastGiven_eq_none.1 hlast first List.mem_cons_self)) nofun
  | some value => rfl

/-- The display name of a context created with its first update. -/
theorem displayName (h : Labels slice mutations held (first :: rest)) (hu : first.payload = .evaluation opened)
    (hp : opened.creationParams = .ok params) (hs : slice = opened.project.slice) :
    ((Content.ofParams params).replay mutations).displayName =
      SliceSync.displayName ((lastGiven WellKnown.projectName (first :: rest)).getD
        (Text.Path.stemOf params.projectFilePath)) opened.project.slice := by
  have hset : ((Content.ofParams params).replay mutations).displayName =
      ((lastGiven WellKnown.projectName (first :: rest)).map (SliceSync.displayName · slice)).getD
        params.displayName :=
    (Label.on_replay .name _ _).trans (congrArg (Option.getD · params.displayName) (h.set .name))
  have hcreated := (Evaluation.describes_of_creationParams hp).displayName
  rw [property?_general hu] at hcreated
  rw [hset]
  cases hlast : lastGiven WellKnown.projectName (first :: rest) with
  | none => rwa [lastGiven_eq_none.1 hlast first List.mem_cons_self] at hcreated
  | some value => rw [hs]; rfl

end Labels

namespace Place

/-- What the context has been told of its labels is what the updates give that ended well and the one whose batch is
open; its slice is that of the project of the first one, an evaluation. -/
structure Named (p : Place) (past : List Update) : Prop where
  blank : p.workspace.context = none → past = [] ∨ p.workspace.status = .disposed
  labels : ∀ handle k, p.workspace.context = some handle → handle.handlers = .standard k →
    (∃ first opened, (past ++ p.pending).head? = some first ∧ first.payload = .evaluation opened ∧
      k.slice = opened.project.slice) ∧
    Labels k.slice (ContextCall.mutations p.received) p.settled.rules (past ++ p.pending)

theorem named_fresh (slice : Slice) : (fresh slice).Named [] :=
  ⟨fun _ => .inl rfl, fun _ _ h => (by cases h)⟩

variable {setup : Setup} {p p' : Place} {past updates : List Update} {handle : ContextHandle} {k : Kept}

/-- A place with a context whose handlers are these. -/
theorem named_of_context (hc : p.workspace.context = some { handle with handlers := .standard k })
    (hfirst : ∃ first opened, (past ++ p.pending).head? = some first ∧ first.payload = .evaluation opened ∧
      k.slice = opened.project.slice)
    (hlabels : Labels k.slice (ContextCall.mutations p.received) p.settled.rules (past ++ p.pending)) :
    p.Named past := by
  constructor
  · intro hn
    cases hn.symm.trans hc
  · intro handle' k' ho' hk'
    cases hc.symm.trans ho'
    obtain rfl := HandlerSet.standard_injective hk'
    exact ⟨hfirst, hlabels⟩

/-- Every deed keeps what the context has been told in step with the updates. -/
theorem Named.next (h : p.Named past) (hq : p.Quiet) (hp : p.Plain) (hd : PlainDeed setup p p' updates) :
    p'.Named (past ++ updates) := by
  have head_concat {u : Update} {k : Kept} (hfirst : ∃ first opened, past.head? = some first ∧
      first.payload = .evaluation opened ∧ k.slice = opened.project.slice) :
      ∃ first opened, (past ++ [u]).head? = some first ∧ first.payload = .evaluation opened ∧
        k.slice = opened.project.slice := by
    obtain ⟨first, opened, hhead, hrest⟩ := hfirst
    exact ⟨first, opened, by rw [List.head?_append, hhead, Option.some_or], hrest⟩
  cases hd with
  | nothing hc hb hr hi hd =>
    constructor
    · intro hn
      rw [List.append_nil]
      exact (h.blank (hc ▸ hn)).imp_right hd
    · rw [hc, hr, settled_congr hb hi, pending_congr hi, List.append_nil]
      exact h.labels
  | @skips u activity handle ho hk hc hb hr hi hi' =>
    constructor
    · intro hn
      cases hn.symm.trans (hc.trans ho)
    · intro handle' k ho' hk'
      obtain ⟨hfirst, hlabels⟩ := h.labels handle' k (hc ▸ ho') hk'
      have hidle := idle_of_none hi
      rw [pending_of_idle hidle, List.append_nil] at hfirst hlabels
      rw [pending_of_idle (idle_of_none hi'), List.append_nil, hr, settled_congr hb (.inl (hi'.trans hi.symm))]
      refine ⟨head_concat hfirst, ?_⟩
      cases hu : u.payload with
      | evaluation e =>
        rw [hu] at hk
        refine hlabels.known hu ?_
        rw [settled_of_idle hidle]
        exact hk.rules
      | build b => exact hlabels.build hu
  | @creates u e activity handle hu ha ho hblank hi hc hb hr hi' =>
    obtain rfl : past = [] := (h.blank ho).resolve_right ha
    refine named_of_context hc ⟨u, e, by rw [pending_of_closing hi']; rfl, hu, rfl⟩ ?_
    have hstart : Labels e.project.slice
        ([] ++ [.setLastBuildSucceeded !setup.settings.suppressDiagnosticsUntilBuild]) ∅ [] := by
      refine (Labels.nothing e.project.slice).aside fun m hm l => ?_
      rw [List.mem_singleton.1 hm]
      cases l <;> rintro ⟨⟩
    rw [pending_of_closing hi', hr, hq ho, Workspace.seenRules, Workspace.seenItems, hblank, settled_of_closing hi',
      Commit.ofEvaluation, Workspace.commit, hb, hblank, List.nil_append, ContextCall.mutations_start_cons,
      ContextCall.mutations_map_mutate]
    exact hstart.evaluation hu (k := .ofProject e.project) rfl _
  | @evaluates u e activity handle k hu ho hk hi hc hb hr hi' =>
    obtain ⟨hfirst, hlabels⟩ := h.labels handle k ho hk
    have hsettled := settled_of_idle (idle_of_none hi)
    rw [pending_of_idle (idle_of_none hi), List.append_nil] at hfirst hlabels
    rw [List.append_nil]
    refine named_of_context hc ?_ ?_
    · rw [pending_of_closing hi']
      exact head_concat hfirst
    · rw [pending_of_closing hi', hr, ContextCall.mutations_append, ContextCall.mutations_start_cons,
        ContextCall.mutations_map_mutate, settled_of_closing hi', Commit.ofEvaluation, Workspace.commit, hb,
        Workspace.seenRules, Workspace.seenItems, ← hsettled]
      exact hlabels.evaluation hu rfl _
  | @builds u b activity handle k hu ho hk hi hc hb hr hi' =>
    obtain ⟨hfirst, hlabels⟩ := h.labels handle k ho hk
    obtain ⟨k', hk', hlisted⟩ := hp.standard handle ho
    obtain rfl := HandlerSet.standard_injective (hk.symm.trans hk')
    have hsettled := settled_of_idle (idle_of_none hi)
    rw [pending_of_idle (idle_of_none hi), List.append_nil] at hfirst hlabels
    rw [List.append_nil]
    refine named_of_context hc ?_ ?_
    · rw [pending_of_closing hi']
      exact head_concat hfirst
    · rw [pending_of_closing hi', hr, ContextCall.mutations_append, ContextCall.mutations_start_cons,
        ContextCall.mutations_map_mutate, settled_of_closing hi', Workspace.commit, hb, ← hsettled]
      refine (hlabels.aside fun m hm l => ?_).build hu
      rcases hlisted.part_of_build hm with hpart | hpart | hpart | hpart <;> rw [hpart] <;> cases l <;> rintro ⟨⟩
  | @commits u batch hi hof hc hb hr hi' =>
    constructor
    · obtain ⟨-, ⟨handle, hhandle, -⟩, -⟩ := hp.batch _ _ hi
      intro hn
      cases hn.symm.trans (hc.trans hhandle)
    · -- closing a batch well moves its update to those that ended well
      rw [hc, hr, settled_of_idle (idle_of_none hi'), hb, pending_of_idle (idle_of_none hi'), List.append_nil,
        ContextCall.mutations_append, ContextCall.mutations_end_cons, ContextCall.mutations_nil, List.append_nil,
        ← settled_of_closing hi, ← pending_of_closing hi]
      exact h.labels
  | parts hi hc hs hr hi' =>
    constructor
    · exact fun _ => .inr hs
    · intro handle k ho
      cases hc.symm.trans ho

end Place

/-- An evaluation of the sample project with these properties. -/
def Sample.described (properties : List (String × String)) : Update where
  versions := .empty
  payload := .evaluation
    { project := { path := "/src/a.proj" }
      rules := .ofList
        [(WellKnown.generalRule, { after := { properties := .ofList ((WellKnown.language, "C#") ::
          (WellKnown.projectFullPath, "/src/a.proj") :: properties) } })]
      items := .ofList [] }

namespace World

variable {setup : Setup} {i : Nat} {acts : List Act} {last : Act}

/-- When an update ends well, the output path of the context is the last that has been given since the first update,
an evaluation, which has created the context; and its display name goes with the last project name that has been
given, or with the project's file if there has been none, and with the slice of its first project. -/
theorem labels_mirror (hr : setup.registry = .standard) (ha : ∀ a ∈ acts ++ [last], a.Within (.plain setup))
    {u : Update} (hu : u ∈ (run setup acts).integrates i [last]) :
    ∃ handle params first opened rest, (run setup (acts ++ [last])).contextAt i = some handle ∧
      (∀ serial params', .created serial params' ∈ (run setup (acts ++ [last])).eventsAt i ↔
        serial = handle.serial ∧ params' = params) ∧
      (World.initial setup).integrates i (acts ++ [last]) = first :: rest ∧
      first.payload = .evaluation opened ∧ opened.creationParams = .ok params ∧
      let c := (Content.ofParams params).replay
        (ContextCall.mutations ((run setup (acts ++ [last])).callsOf handle.serial))
      lastGiven WellKnown.targetPath (first :: rest) = some c.outputPath ∧
        c.displayName = displayName ((lastGiven WellKnown.projectName (first :: rest)).getD
          (Text.Path.stemOf params.projectFilePath)) opened.project.slice := by
  have hacts : ∀ a ∈ acts, a.Within (.plain setup) := fun a h => ha a (List.mem_append_left _ h)
  obtain ⟨hk, hs, hstands⟩ := stands_plain (P := Place.Named) (i := i) hr Place.named_fresh
    (fun hq hp h hd => h.next hq hp hd) hacts
  obtain ⟨p, p', hshows, hp, hnamed, hd, hshows', hone⟩ := plain_last hr ⟨hk, hs⟩ hstands (ha last (by simp)) hu
  obtain ⟨⟨handle, hhandle⟩, hinside⟩ := hd.leaves hp
  obtain ⟨k, hstandard, -⟩ := (hp.next hd).standard handle hhandle
  obtain ⟨⟨first, opened, hhead, hfirst, hslice⟩, hlabels⟩ :=
    (hnamed.next hshows.quiet hp hd).labels handle k hhandle hstandard
  rw [← run_concat] at hshows'
  have hcontext := (contextAt_of_shows hshows').trans hhandle
  obtain ⟨params, first', opened', hcreated, hparams, hfirst', hhead'⟩ := created_from hr ha hcontext
  obtain ⟨s, hscene, hsame⟩ := View.exists_scene hshows'.workspace
  have haudited := audited_run hscene
  obtain ⟨params', honly⟩ := Scene.created_iff haudited.told haudited.toOrderly ((congrArg _ hsame).trans hhandle)
  -- the parameters and the first update that the log and the invariant speak of are the same
  rw [eventsAt_of_scene hscene] at hcreated ⊢
  obtain rfl := ((honly _ _).1 hcreated).2
  have hall : (World.initial setup).integrates i (acts ++ [last]) =
      SliceSync.integrated ((history setup acts).filter (·.place = i)) ++ [u] := by
    rw [integrates_append]
    exact congrArg _ hone
  have hhead' := hhead' p' hshows'
  have hpending := Place.pending_of_idle (Place.idle_of_none hinside)
  rw [hall, hhead] at hhead'
  cases hhead'
  cases hfirst.symm.trans hfirst'
  rw [hpending, List.append_nil, ← hall] at hhead hlabels
  obtain ⟨rest, hupdates⟩ := List.head?_eq_some_iff.1 hhead
  rw [hupdates] at hlabels
  refine ⟨handle, params, first, opened, rest, hcontext, honly, hupdates, hfirst, hparams, ?_⟩
  rw [callsOf_of_shows hshows' hhandle]
  exact ⟨hlabels.outputPath hfirst hparams, hlabels.displayName hfirst hparams hslice⟩

set_option maxRecDepth 100000 in
/-- The second evaluation blanks the output path out, which stays, and gives the project a name. -/
theorem labels_mirror_blanked :
    let created := Sample.described [(WellKnown.targetPath, " /src/out/a.dll")]
    let blanked := Sample.described [(WellKnown.targetPath, "  "), (WellKnown.projectName, "B ")]
    let acts := Sample.twoCalls created blanked
    ∃ handle params, (run {} (acts ++ [Sample.closing 1])).contextAt 0 = some handle ∧
      .created handle.serial params ∈ (run {} (acts ++ [Sample.closing 1])).eventsAt 0 ∧
      let c := (Content.ofParams params).replay
        (ContextCall.mutations ((run {} (acts ++ [Sample.closing 1])).callsOf handle.serial))
      c.outputPath = "/src/out/a.dll" ∧ c.displayName = "B" := by
  intro created blanked acts
  have hwithin : ∀ a ∈ acts ++ [Sample.closing 1], a.Within (.plain {}) := by
    intro a ha
    rcases List.mem_append.1 ha with ha | ha
    · exact Sample.twoCalls_within rfl _ _ a ha
    · rw [List.mem_singleton.1 ha]
      exact Sample.closing_within rfl 1
  have hsecond : blanked ∈ (run {} acts).integrates 0 [Sample.closing 1] := by decide +kernel
  have hall : (World.initial {}).integrates 0 (acts ++ [Sample.closing 1]) = [created, blanked] := by decide +kernel
  have houtput : lastGiven WellKnown.targetPath [created, blanked] = some "/src/out/a.dll" := by decide +kernel
  have hname : lastGiven WellKnown.projectName [created, blanked] = some "B" := by decide +kernel
  obtain ⟨handle, params, first, opened, rest, hcontext, hcreated, hupdates, hfirst, hparams, hpath, hdisplay⟩ :=
    labels_mirror rfl hwithin hsecond
  cases hall.symm.trans hupdates
  cases hfirst
  rw [hname, Option.getD_some] at hdisplay
  exact ⟨handle, params, hcontext, (hcreated _ _).2 ⟨rfl, rfl⟩, Option.some.inj (hpath.symm.trans houtput),
    hdisplay.trans (by decide +kernel)⟩

end World

end SliceSync
