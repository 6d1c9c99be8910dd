import SliceSync.Proofs.Commits
import SliceSync.Proofs.SourceItems
/-!
# Where a context comes from

A context is created once, from the evaluation that brings it. In a run of evaluations and builds in which nothing
fails that evaluation is the first update that ends well.

Main statement: `World.created_from`.
-/

namespace SliceSync

/-! ## The step that creates a context -/

/-- A context comes with an evaluation, whose batch it opens. -/
theorem Workspace.Receives.brings {setup : Setup} {env : Environment} {session : Session} {w : Workspace} {u : Update}
    {p : Passage} {handle : ContextHandle} (h : w.Receives setup env session u p) (hn : w.context = none)
    (hc : p.workspace.context = some handle) :
    ∃ e params batch, u.payload = .evaluation e ∧ e.creationParams = .ok params ∧
      .created handle.serial params ∈ p.events ∧ p.held = .closing batch := by
  cases h with
  | refused => exact absurd (hn.symm.trans hc) nofun
  | uncreated | skipsBuild | misses => exact absurd ((enroll_context u).symm.trans hc) (by rw [hn]; nofun)
  | skips _ _ ho | applies _ _ ho | appliesBuild _ _ ho => exact absurd (hn.symm.trans ho) nofun
  | @creates e session' created events ha hu ho hs =>
    obtain ⟨params, hparams, -, rfl⟩ := Session.create_params hs
    cases hc
    exact ⟨e, params, _, hu, hparams, by simp [Passage.after], rfl⟩

namespace Scene.Shift

variable {t : Terms} {s s' : Scene} {failed : List SyncError} {commits : List Commit} {handle : ContextHandle}

/-- What has happened is not forgotten. -/
theorem log_prefix (h : Shift t s s' failed commits) : s.log <+: s'.log := by
  cases h with
  | waits _ hl =>
    obtain ⟨faults, hlog, -⟩ := hl
    exact ⟨faults, hlog.symm⟩
  | enters | closes | parts => exact List.prefix_append _ _

/-- A context comes with an evaluation, whose batch is open then. -/
theorem brings (h : Shift t s s' failed commits) (hn : s.workspace.context = none)
    (hc : s'.workspace.context = some handle) :
    ∃ me u e params batch, s'.calls me = some ⟨.update u, .closing batch⟩ ∧ u.payload = .evaluation e ∧
      e.creationParams = .ok params ∧ .created handle.serial params ∈ s'.log := by
  cases h with
  | waits hw =>
    obtain ⟨lock, unload, hw⟩ := hw
    rw [hw] at hc
    exact absurd (hn.symm.trans hc) nofun
  | @enters env me c session lock unload =>
    obtain ⟨last, hw⟩ := s.workspace_after_conclude t.setup me c
      (c.request.passage t.setup env session { s.workspace with lock, unload })
    rw [hw] at hc
    have henters := c.request.enters t.setup env session { s.workspace with lock, unload }
    obtain ⟨request, phase⟩ := c
    generalize hp : request.passage t.setup env session { s.workspace with lock, unload } = p at henters hc ⊢
    -- of all requests only an evaluation brings a context
    cases henters with
    | @receives u p h =>
      obtain ⟨e, params, batch, hu, hparams, hmem, hheld⟩ := h.brings hn hc
      obtain ⟨hgoing, hevents⟩ := Call.conclude_closing t.setup ⟨.update u, phase⟩ hheld
      refine ⟨me, u, e, params, batch, after_calls_self.2 hgoing, hu, hparams, List.mem_append_right _ ?_⟩
      rwa [hevents]
    | releases => cases hc
    | refuses | lacks | writes | gone | departs | answers => exact absurd (hn.symm.trans hc) nofun
  | @closes env me c session batch =>
    obtain ⟨last, hw⟩ := s.workspace_after_conclude t.setup me c (s.workspace.close env session batch)
    rw [hw] at hc
    exact absurd (((Workspace.close_heard env session s.workspace batch).2.1.trans hn).symm.trans hc) nofun
  | @parts me c session gone =>
    obtain ⟨last, hw⟩ := s.workspace_after_conclude t.setup me c (s.workspace.finishDispose session gone)
    rw [hw] at hc
    exact absurd (((Workspace.finishDispose_heard session s.workspace gone).2.1.trans hn).symm.trans hc) nofun

end Scene.Shift

/-- The log has one creation, that of the context that is there. -/
theorem Scene.created_iff {setup : Setup} {s : Scene} {past : List Ending} {handle : ContextHandle}
    (h : s.Told setup.registry) (ho : s.Orderly past) (hc : s.workspace.context = some handle) :
    ∃ params, ∀ serial params',
      .created serial params' ∈ s.log ↔ serial = handle.serial ∧ params' = params := by
  obtain ⟨parting, -, hstory⟩ := h
  have hmilestone (serial : Nat) (params : CreationParams) :
      .created serial params ∈ s.log ↔ .created serial params ∈ Event.milestones s.log := by
    rw [Event.mem_milestones]
    exact (and_iff_left rfl).symm
  simp only [hmilestone]
  generalize Event.milestones s.log = l at hstory
  cases hstory with
  | early hs => exact absurd ((ho.regular.uninitialized hs).2.1.symm.trans hc) nofun
  | bare _ hn => exact absurd (hn.symm.trans hc) nofun
  | @housed _ params _ hhandle =>
    cases hc.symm.trans hhandle
    refine ⟨params, fun serial params' => ?_⟩
    rw [List.mem_append, List.mem_singleton, Event.created.injEq]
    refine or_iff_right fun hfollowing => ?_
    obtain ⟨owner, -, howner⟩ := Option.map_eq_some_iff.1 (Option.mem_toList.1 hfollowing)
    cases howner
  | parting hs | past hs | gone hs => exact absurd ((ho.regular.disposed hs).symm.trans hc) nofun

/-! ## Runs of evaluations and builds -/

/-- A deed keeps the context, and who is inside stays first in line; or it creates one. -/
theorem PlainDeed.keeps_or_creates {setup : Setup} {p p' : Place} {updates : List Update} {handle : ContextHandle}
    (h : PlainDeed setup p p' updates) (hc : p'.workspace.context = some handle) :
    (∃ before more, p.workspace.context = some before ∧ before.serial = handle.serial ∧
      updates ++ p'.pending = p.pending ++ more) ∨
    p.workspace.context = none ∧ p.workspace.status ≠ .disposed ∧ updates = [] ∧
      ∃ u e batch, u.payload = .evaluation e ∧ p'.inside = some ⟨.update u, .closing batch⟩ := by
  cases h with
  | nothing ho hb hr hi =>
    exact .inl ⟨handle, [], ho.symm.trans hc, rfl, by rw [Place.pending_congr hi, List.append_nil, List.nil_append]⟩
  | @skips u activity before ho hk hsame hb hr hi hi' =>
    refine .inl ⟨handle, [u], hsame.symm.trans hc, rfl, ?_⟩
    rw [Place.pending_of_idle (Place.idle_of_none hi), Place.pending_of_idle (Place.idle_of_none hi')]
    rfl
  | creates hu ha ho hblank hi hc' hb hr hi' => exact .inr ⟨ho, ha, rfl, _, _, _, hu, hi'⟩
  | evaluates hu ho hk hi hc' hb hr hi' | builds hu ho hk hi hc' hb hr hi' =>
    cases hc.symm.trans hc'
    exact .inl ⟨_, p'.pending, ho, rfl, by rw [Place.pending_of_idle (Place.idle_of_none hi)]⟩
  | @commits u batch hi hof hc' hb hr hi' =>
    refine .inl ⟨handle, [], hc'.symm.trans hc, rfl, ?_⟩
    rw [Place.pending_of_idle (Place.idle_of_none hi'), Place.pending_of_closing hi]
  | parts hi hnone => exact absurd (hnone.symm.trans hc) nofun

namespace World

variable {setup : Setup} {i : Nat} {acts : List Act} {handle : ContextHandle}

/-- The context that is there was created from the update that ended well first, or whose batch is open. -/
theorem created_from (hr : setup.registry = .standard) (ha : ∀ a ∈ acts, a.Within (.plain setup))
    (hc : (run setup acts).contextAt i = some handle) :
    ∃ params first opened, .created handle.serial params ∈ (run setup acts).eventsAt i ∧
      opened.creationParams = .ok params ∧ first.payload = .evaluation opened ∧
      ∀ p, (run setup acts).view.Shows i p →
        ((World.initial setup).integrates i acts ++ p.pending).head? = some first := by
  induction acts using List.reverseRecOn generalizing handle with
  | nil => cases hc
  | append_singleton acts a ih =>
    have hacts : ∀ a ∈ acts, a.Within (.plain setup) := fun b hb => ha b (List.mem_append_left _ hb)
    have hwithin : a.Within (.plain setup) := ha a (by simp)
    obtain ⟨hk, hsound, hstands⟩ := stands_plain (P := Place.Filed) (i := i) hr Place.filed_fresh
      (fun hq hp h hd => h.next (hd.upshot hq hp)) hacts
    have hm := perform_moves hk hwithin
    rcases hstands with ⟨hvacant, -⟩ | ⟨p, hshows, hplain, hfiled⟩
    · -- a workspace that has just come has no context
      obtain ⟨ws, hws, hcontext⟩ := Option.bind_eq_some_iff.1 hc
      rw [← view_workspaces, run_concat] at hws
      obtain ⟨slice, hfresh⟩ := hsound.shows_fresh hm hvacant hws
      cases hfresh.workspace.symm.trans hws
      cases hcontext
    · obtain ⟨p', hshows', hturn⟩ := hsound.turn hshows hm
      have hd := hplain.deed hr (hturn.deed hshows.quiet)
      generalize hupdates : SliceSync.integrated (((run setup acts).endings a).filter (·.place = i)) = updates at hd
      have hall : (World.initial setup).integrates i (acts ++ [a]) =
          (World.initial setup).integrates i acts ++ updates := by
        rw [integrates_append, ← hupdates]
        simp [integrates, endingsFrom, run]
      rw [← run_concat] at hshows'
      have hcontext : p'.workspace.context = some handle := (contextAt_of_shows hshows').symm.trans hc
      obtain ⟨s, hs, hsame⟩ := View.exists_scene hshows.workspace
      obtain ⟨s', hs', hshift⟩ := shift_concat hacts hs hwithin
      have hsame' : s'.workspace = p'.workspace := Option.some.inj (hs'.workspace.symm.trans hshows'.workspace)
      have hlog : (run setup (acts ++ [a])).eventsAt i = s'.log := eventsAt_of_scene hs'
      rcases hd.keeps_or_creates hcontext with
        ⟨before, more, hbefore, hserial, hmore⟩ | ⟨hnone, hlive, rfl, u, e, batch, hu, hinside⟩
      · obtain ⟨params, first, opened, hcreated, hparams, hfirst, hhead⟩ :=
          ih hacts ((contextAt_of_shows hshows).trans hbefore)
        refine ⟨params, first, opened, ?_, hparams, hfirst, fun q hq => ?_⟩
        · rw [eventsAt_of_scene hs] at hcreated
          rw [hlog, ← hserial]
          exact hshift.log_prefix.subset hcreated
        · cases hq.unique hshows'
          rw [hall, List.append_assoc, hmore, ← List.append_assoc, List.head?_append, hhead p hshows, Option.some_or]
      · obtain ⟨me, u', opened, params, batch', hcall, hu', hparams, hcreated⟩ :=
          hshift.brings (hsame ▸ hnone) (hsame' ▸ hcontext)
        -- the update that has brought it is the one inside
        cases hinside.symm.trans (hshows'.inside_of_holds ((hs'.calls me _).1 hcall) rfl)
        refine ⟨params, u, opened, hlog ▸ hcreated, hparams, hu', fun q hq => ?_⟩
        cases hq.unique hshows'
        have hpast : (World.initial setup).integrates i acts = [] := (hfiled.blank hnone).resolve_right hlive
        rw [hall, hpast, Place.pending_of_closing hinside]
        rfl

end World

end SliceSync
