import SliceSync.Proofs.Causes
import SliceSync.Proofs.Diaries
import SliceSync.Proofs.Outcomes
/-!
# Drivers from their beginning to their end

A driver is at work until it ends, and how it ends is what its diary calls for (`World.Drives`), unless an update fails
with an error of teardown where nobody has requested unload (`World.Unasked`). What it hands over is in order, builds
find the first evaluation integrated, and what is handed over once unload has been requested is cut short.
-/

namespace SliceSync

/-! ## Diaries in order -/

/-- Updates are handed over one at a time, as far as the holdback has let them pass. -/
structure Diary.Sound (l : Diary) : Prop where
  turns : l.InTurn
  passed : ∃ threshold, l.handed <+: Holdback.passed { threshold } l.received

namespace Diary.Sound

variable {l : Diary} {u : Update} {rest : List Update}

/-- What is handed over first is the first evaluation. -/
theorem first (h : l.Sound) (hl : l.handed = u :: rest) :
    u.kind = .evaluation ∧ ∃ others, l.received.filter (·.kind = .evaluation) = u :: others := by
  obtain ⟨threshold, more, hmore⟩ := h.passed
  rw [hl] at hmore
  exact Holdback.passed_first hmore.symm

/-- Where anything is handed over an evaluation has been received. -/
theorem exists_evaluation (h : l.Sound) (hl : l.handed = u :: rest) : ∃ v ∈ l.received, v.kind = .evaluation := by
  obtain ⟨hu, others, hevaluations⟩ := h.first hl
  have hmem : u ∈ l.received.filter (·.kind = .evaluation) := by simp [hevaluations]
  exact ⟨u, (List.mem_filter.1 hmem).1, hu⟩

/-- Nothing is handed over twice. -/
theorem once (h : l.Sound) : l.handed.Subperm l.received := by
  cases hl : l.handed with
  | nil => exact List.nil_subperm
  | cons u rest =>
    obtain ⟨threshold, hprefix⟩ := h.passed
    rw [hl] at hprefix
    have hperm : (Holdback.passed { threshold } l.received).Perm l.received :=
      perm_of_kinds (Holdback.filter_passed (h.exists_evaluation hl))
    exact hprefix.sublist.subperm.trans hperm.subperm

/-- Updates of a kind are handed over in the order in which they were received. -/
theorem order (h : l.Sound) (kind : UpdateKind) :
    l.handed.filter (·.kind = kind) <+: l.received.filter (·.kind = kind) := by
  cases hl : l.handed with
  | nil => exact List.nil_prefix
  | cons u rest =>
    obtain ⟨threshold, hprefix⟩ := h.passed
    rw [← @Holdback.filter_passed threshold _ (h.exists_evaluation hl) kind, ← hl]
    exact hprefix.filter _

end Diary.Sound

/-- What an exit says of what the driver has done, and of the unload of its workspace. -/
def DriverExit.Suits (unload : Option DisposeCause) (l : Diary) : DriverExit → Prop
  | completed =>
    l.Settled ∧ (∀ kind, .ended kind ∈ l) ∧ ∃ threshold, l.handed = Holdback.passed { threshold } l.received
  | unloaded cause => unload = some cause
  | faulted error =>
    error.isCancellation = false ∧ ∃ (before : Diary) (u : Update), l = before ++ [.handed u, .returned (.error error)]

/-! ## Steps -/

namespace Driver

variable {d d' : Driver} {l : Diary} {w : World} {env : Environment} {me : JobId} {event : Option DriverEvent}
  {r : World × Onward Driver DriverExit} {exit : DriverExit}

theorem Tells.sound (h : d.Tells l) : l.Sound := by
  obtain ⟨threshold, -, hpassed⟩ := h.passed
  refine ⟨?_, threshold, d.passed, hpassed⟩
  cases hh : d.handing with
  | none => exact (h.idle hh).inTurn
  | some c =>
    obtain ⟨before, u, rfl, hs, -⟩ := h.busy c hh
    exact hs.inTurn_append (Diary.inTurn_handed u)

/-- A driver ends as its diary calls for, or on an error of teardown that nobody has requested. -/
theorem Tells.exits (h : d.Tells l) (hp : d.Paths w env me event r) (hg : r.2 = .done exit) :
    Diary.Sound (l ++ event.toList) ∧
      (exit.Suits (r.1.unloadOf d.workspace) (l ++ event.toList) ∨
        exit = .unloaded .unload ∧ r.1.unloadOf d.workspace = none ∧ ∃ c error w', d.handing = some c ∧
          w.advanceCall env me d.workspace c = (w', .done (.error error)) ∧ error.isCancellation = true) ∧
      ∀ kind, .ended kind ∈ l ++ event.toList → .ended kind ∈ l := by
  have unload (w : World) (exit : DriverExit) : (w.endDriver d exit).1.unloadOf d.workspace = w.unloadOf d.workspace := by
    unfold World.endDriver World.unloadOf World.workspace? World.modifyHosted
    cases hw : w.hosted[d.workspace]? <;> simp [hw]
  cases hp with
  | @fails c error w' hh hd =>
    obtain ⟨before, u, rfl, hs, -⟩ := h.busy c hh
    obtain ⟨threshold, -, hpassed⟩ := h.passed
    have hreturned : Diary.received (before ++ [.handed u] ++ [.returned (.error error)]) =
        Diary.received (before ++ [.handed u]) := by simp [DriverEvent.received?]
    have hhanded : Diary.handed (before ++ [.handed u] ++ [.returned (.error error)]) =
        Diary.handed (before ++ [.handed u]) := by simp [DriverEvent.handed?]
    refine ⟨?_, ?_, fun kind hk => by simpa using hk⟩
    · refine ⟨?_, threshold, d.passed, ?_⟩
      · rw [List.append_assoc]
        exact hs.inTurn_append (Diary.inTurn_failed u error)
      · rw [Option.toList_some, hreturned, hhanded]
        exact hpassed
    · cases hg
      rw [unload]
      unfold exitAfter
      split
      · rename_i hcancellation
        cases hcause : w'.unloadOf d.workspace with
        | some cause => exact .inl rfl
        | none => exact .inr ⟨rfl, rfl, c, error, w', hh, hd, hcancellation⟩
      · rename_i hcancellation
        exact .inl ⟨by simpa using hcancellation, before, u, by simp⟩
  | completes hh hp he hb =>
    cases hg
    rw [Option.toList_none, List.append_nil]
    refine ⟨h.sound, .inl ⟨h.idle hh, fun kind => h.closed kind ?_, ?_⟩, fun _ => id⟩
    · cases kind
      · exact he
      · exact hb
    · obtain ⟨threshold, -, hpassed⟩ := h.passed
      rw [hp, List.append_nil] at hpassed
      exact ⟨threshold, hpassed⟩
  | unloads hh hp ho hu =>
    cases hg
    rw [Option.toList_none, List.append_nil]
    exact ⟨h.sound, .inl ((unload ..).trans hu), fun _ => id⟩
  | works | succeeds | hands | waits | receives | closes => cases hg

end Driver

/-! ## Runs -/

namespace World

variable {setup : Setup} {acts more : List Act} {w : World} {a : Act} {me : JobId} {d : Driver} {i pair : Nat}
  {env : Environment} {cause : DisposeCause}

/-- The cause of an unload stays. -/
theorem unloadOf_stays (h : (run setup acts).unloadOf i = some cause) (more : List Act) :
    (run setup (acts ++ more)).unloadOf i = some cause := by
  obtain ⟨w, hw, hcause⟩ := Option.bind_eq_some_iff.1 h
  obtain ⟨w', hw', hstays⟩ := later_run
    (R := fun w w' => w.unload.cause = some cause → w'.unload.cause = some cause) (fun _ => id)
    (fun h h' => h' ∘ h) (fun h hst => h.keeps_cause hst) hw more
  exact Option.bind_eq_some_iff.2 ⟨w', hw', hstays hcause⟩

/-- An update has failed with an error of teardown at the workspace in a place, where no unload was requested. -/
def Unasked (setup : Setup) (acts : List Act) (me : JobId) (i : Nat) : Prop :=
  ∃ before env after u error, acts = before ++ .advance env me :: after ∧
    ⟨i, .update u, .error error⟩ ∈ (run setup before).endings (.advance env me) ∧ error.isCancellation = true ∧
    (run setup (before ++ [.advance env me])).unloadOf i = none

theorem Unasked.concat (h : Unasked setup acts me i) (a : Act) : Unasked setup (acts ++ [a]) me i := by
  obtain ⟨before, env, after, u, error, rfl, h⟩ := h
  exact ⟨before, env, after ++ [a], u, error, by simp, h⟩

/-- A number whose job has ended is not given again. -/
theorem job?_gone {t : Terms} (hk : w.Keeps t) (ha : a.Within t) (hj : w.job? me = none) (hn : me < w.nextJob) :
    (w.perform a).job? me = none := by
  rcases a.step_or_not me with hne | ⟨env, rfl⟩
  · rcases job?_perform hk ha hne with hsame | ⟨hme, -⟩
    · exact hsame.trans hj
    · exact absurd hme (Nat.ne_of_lt hn)
  · simp [perform, advance, hj]

/-- What a driver notes of a stream was so. -/
theorem ended_run (hd : (run setup acts).job? me = some (.drive d)) {kind : UpdateKind}
    (h : .ended kind ∈ diary setup acts me) :
    ∃ first rest, acts = first ++ rest ∧ (run setup first).source.HasEnded d.pair kind := by
  revert h
  refine driver_induction (P := fun acts d => .ended kind ∈ diary setup acts me →
    ∃ first rest, acts = first ++ rest ∧ (run setup first).source.HasEnded d.pair kind) ?_ ?_ ?_ acts hd
  · intro acts d hnew hdiary h
    simp [hdiary] at h
  · intro acts a d hdiary ih h
    obtain ⟨first, rest, rfl, hended⟩ := ih (hdiary ▸ h)
    exact ⟨first, rest ++ [a], by simp, hended⟩
  · intro acts env d d' event r hd hp hg hdiary ih h
    rw [(hp.same hg).2]
    rw [hdiary, List.mem_append] at h
    rcases h with h | h
    · obtain ⟨first, rest, rfl, hended⟩ := ih h
      exact ⟨first, rest ++ [.advance env me], by simp, hended⟩
    · cases hp with
      | closes _ _ _ _ hr =>
        simp only [Option.toList_some, List.mem_singleton, DriverEvent.ended.injEq] at h
        exact ⟨acts, [.advance env me], rfl, h ▸ hr⟩
      | works | completes | unloads | waits => cases h
      | succeeds | fails | hands | receives => simp at h

/-- What a driver is told of the end of an update is how the call ended. -/
theorem endings_of_returned (hd : (run setup acts).job? me = some (.drive d)) {c : Call} {w' : World}
    {result : Except SyncError Answer} (hh : d.handing = some c)
    (hdone : (run setup acts).advanceCall env me d.workspace c = (w', .done result)) :
    (run setup acts).endings (.advance env me) = [⟨d.workspace, c.request, result⟩] := by
  simp [endings, callAt_driver hd, hh, hdone]

/-- Where a driver stands: it is at work on its workspace, or it has ended as its diary calls for, or on an error of
teardown that nobody has requested. -/
inductive Drives (setup : Setup) (acts : List Act) (me : JobId) (i pair : Nat) : Prop
  | works {d : Driver} (hd : (run setup acts).job? me = some (.drive d)) (hi : d.workspace = i) (hp : d.pair = pair)
  | exited (exit : DriverExit) (hj : (run setup acts).job? me = none) (hn : me < (run setup acts).nextJob)
      (ho : (run setup acts).outcome? me = some (.drove exit)) (hs : (diary setup acts me).Sound)
      (he : exit.Suits ((run setup acts).unloadOf i) (diary setup acts me) ∨
        exit = .unloaded .unload ∧ Unasked setup acts me i)
      (hc : exit = .completed → ∀ kind, ∃ first rest, acts = first ++ rest ∧
        (run setup first).source.HasEnded pair kind)

theorem Drives.sound (h : Drives setup acts me i pair) : (diary setup acts me).Sound := by
  cases h with
  | works hd => exact (driver_tells setup acts hd).sound
  | exited _ _ _ _ hs => exact hs

theorem Drives.step (h : Drives setup acts me i pair) (a : Act) : Drives setup (acts ++ [a]) me i pair := by
  obtain ⟨hk, hnumbered⟩ := numbered_run setup acts
  have ha : a.Within (freely setup) := within_freely setup a
  cases h with
  | @works d hd hi hp =>
    rcases driver_perform hk ha hd with ⟨-, hsame⟩ | ⟨env, rfl, hstep⟩
    · exact .works (by rw [run_concat, hsame]) hi hp
    · obtain ⟨event, hevent, hpaths⟩ := (run setup acts).advanceDriver_paths env me d
      cases hg : ((run setup acts).advanceDriver env me d).2 with
      | going d' =>
        obtain ⟨hworkspace, hpair⟩ := hpaths.same hg
        refine .works (d := d') ?_ (hworkspace.trans hi) (hpair.trans hp)
        rw [run_concat, hstep, hg]
        rfl
      | done exit =>
        obtain ⟨hsound, hsuits, hold⟩ := (driver_tells setup acts hd).exits hpaths hg
        have hdiary : diary setup (acts ++ [.advance env me]) me = diary setup acts me ++ event.toList := by
          rw [diary_concat, told_driver env hd, hevent]
        have hunload : (run setup (acts ++ [.advance env me])).unloadOf i =
            ((run setup acts).advanceDriver env me d).1.unloadOf i := by
          rw [run_concat]
          show ((run setup acts).advance env me).unloadOf i = _
          obtain ⟨jobs, outcomes, hadvance⟩ := advance_eq env hd
          rw [hadvance, advanceJob_drive]
          rfl
        refine .exited exit ?_ ?_ ?_ (hdiary ▸ hsound) ?_ ?_
        · rw [run_concat, hstep, hg]
          rfl
        · rw [run_concat]
          exact Nat.lt_of_lt_of_le (job?_lt hk.fresh hd) (nextJob_perform hk ha)
        · rw [run_concat]
          exact outcome?_driver hnumbered hd hg
        · rw [hdiary, hunload, ← hi]
          refine hsuits.imp_right ?_
          rintro ⟨rfl, hnone, c, error, w', hh, hdone, he⟩
          obtain ⟨before, u, -, -, hr⟩ := (driver_tells setup acts hd).busy c hh
          refine ⟨rfl, acts, env, [], u, error, rfl, ?_, he, ?_⟩
          · rw [endings_of_returned hd hh hdone, hr]
            exact List.mem_singleton_self _
          · rw [hi, hunload, ← hi]
            exact hnone
        · rintro rfl kind
          obtain ⟨-, hended, -⟩ := hsuits.resolve_right nofun
          obtain ⟨first, rest, rfl, hfirst⟩ := ended_run hd (hold kind (hended kind))
          exact ⟨first, rest ++ [.advance env me], by simp, hp ▸ hfirst⟩
  | exited exit hj hn ho hs he hc =>
    have hdiary : diary setup (acts ++ [a]) me = diary setup acts me := by
      rw [diary_concat, told_of_no_driver, List.append_nil]
      intro d hd
      exact absurd (hj.symm.trans hd) nofun
    refine .exited exit ?_ ?_ ?_ (hdiary ▸ hs) ?_ ?_
    · rw [run_concat]
      exact job?_gone hk ha hj hn
    · rw [run_concat]
      exact Nat.lt_of_lt_of_le hn (nextJob_perform hk ha)
    · rw [run_concat]
      exact outcome?_perform ho a
    · rw [hdiary]
      refine he.imp (fun he => ?_) fun he => ⟨he.1, he.2.concat a⟩
      cases exit with
      | unloaded cause => exact unloadOf_stays he [a]
      | completed | faulted => exact he
    · intro hexit kind
      obtain ⟨first, rest, rfl, hended⟩ := hc hexit kind
      exact ⟨first, rest ++ [a], by simp, hended⟩

/-- A driver is at work, or has ended as its diary calls for. -/
theorem drives_run (hd : (run setup acts).job? me = some (.drive d)) (more : List Act) :
    Drives setup (acts ++ more) me d.workspace d.pair := by
  induction more using List.reverseRecOn with
  | nil => exact .works (by rwa [List.append_nil]) rfl rfl
  | append_singleton more a ih =>
    rw [← List.append_assoc]
    exact ih.step a

/-! ## What becomes of what is handed over -/

/-- What a driver is told of the end of an update with a step is an ending of the step, if it was not told before. -/
theorem returned_step (hd : (run setup acts).job? me = some (.drive d)) {event : Option DriverEvent}
    {r : World × Onward Driver DriverExit} (hp : d.Paths (run setup acts) env me event r) {before after : Diary}
    {u : Update} {result : Except SyncError Answer}
    (hl : diary setup acts me ++ event.toList = before ++ .handed u :: .returned result :: after) :
    (∃ rest, diary setup acts me = before ++ .handed u :: .returned result :: rest) ∨
      (run setup acts).endings (.advance env me) = [⟨d.workspace, .update u, result⟩] := by
  have ends {c : Call} {w' : World} (hh : d.handing = some c)
      (hdone : (run setup acts).advanceCall env me d.workspace c = (w', .done result))
      (hbefore : diary setup acts me = before ++ [.handed u]) :
      (run setup acts).endings (.advance env me) = [⟨d.workspace, .update u, result⟩] := by
    obtain ⟨before', u', hl', -, hr⟩ := (driver_tells setup acts hd).busy c hh
    have hu : u' = u := by
      have := congrArg List.getLast? (hl'.symm.trans hbefore)
      simpa using this
    rw [endings_of_returned hd hh hdone, hr, hu]
  rcases Diary.split_returned hl with hbefore | ⟨hbefore, rfl⟩
  · exact .inl hbefore
  · right
    cases hp with
    | succeeds hh hdone => exact ends hh hdone hbefore
    | fails hh hdone => exact ends hh hdone hbefore

/-- What a driver has been told of the end of an update is in the history of its workspace. -/
theorem returned_run (hd : (run setup acts).job? me = some (.drive d)) {before after : Diary} {u : Update}
    {result : Except SyncError Answer} (hl : diary setup acts me = before ++ .handed u :: .returned result :: after) :
    ⟨d.workspace, .update u, result⟩ ∈ history setup acts := by
  revert before u result after
  refine driver_induction (P := fun acts d => ∀ {before after : Diary} {u : Update} {result : Except SyncError Answer},
    diary setup acts me = before ++ .handed u :: .returned result :: after →
      ⟨d.workspace, .update u, result⟩ ∈ history setup acts) ?_ ?_ ?_ acts hd
  · intro acts d hnew hdiary before after u result hl
    simp [hdiary] at hl
  · intro acts a d hdiary ih before after u result hl
    rw [history_concat]
    exact List.mem_append_left _ (ih (hdiary ▸ hl))
  · intro acts env d d' event r hd hp hg hdiary ih before after u result hl
    rw [history_concat, (hp.same hg).1]
    rcases returned_step hd hp (hdiary ▸ hl) with ⟨rest, hbefore⟩ | hends
    · exact List.mem_append_left _ (ih hbefore)
    · exact List.mem_append_right _ (hends ▸ List.mem_singleton_self _)

/-- It stays there when the driver has ended. -/
theorem answered_run (hd : (run setup acts).job? me = some (.drive d)) (more : List Act) {before after : Diary}
    {u : Update} {result : Except SyncError Answer}
    (hl : diary setup (acts ++ more) me = before ++ .handed u :: .returned result :: after) :
    ⟨d.workspace, .update u, result⟩ ∈ history setup (acts ++ more) := by
  induction more using List.reverseRecOn generalizing after with
  | nil =>
    rw [List.append_nil] at hl ⊢
    exact returned_run hd hl
  | append_singleton more a ih =>
    rw [← List.append_assoc] at hl ⊢
    rw [history_concat]
    rw [diary_concat] at hl
    have known (hnothing : (run setup (acts ++ more)).told me a = []) :
        ⟨d.workspace, .update u, result⟩ ∈ history setup (acts ++ more) ++ (run setup (acts ++ more)).endings a := by
      rw [hnothing, List.append_nil] at hl
      exact List.mem_append_left _ (ih hl)
    cases drives_run hd more with
    | exited _ hj => exact known (told_of_no_driver fun d hd => absurd (hj.symm.trans hd) nofun)
    | @works d' hd' hi =>
      rcases a.step_or_not me with hne | ⟨env, rfl⟩
      · exact known (told_of_ne _ hne)
      · obtain ⟨event, hevent, hp⟩ := (run setup (acts ++ more)).advanceDriver_paths env me d'
        rw [told_driver env hd', hevent] at hl
        rcases returned_step hd' hp hl with ⟨rest, hbefore⟩ | hends
        · exact List.mem_append_left _ (ih hbefore)
        · exact List.mem_append_right _ (by rw [hends, hi]; exact List.mem_singleton_self _)

/-- A build in hand finds the first evaluation integrated. -/
theorem integrated_of_handing (hd : (run setup acts).job? me = some (.drive d)) {c : Call} {u : Update} {ws : Workspace}
    (hh : d.handing = some c) (hr : c.request = .update u) (hu : u.kind = .build)
    (hw : (run setup acts).workspace? d.workspace = some ws) : ws.evaluation = .integrated := by
  have htells := driver_tells setup acts hd
  obtain ⟨before, v, hl, hs, hv⟩ := htells.busy c hh
  cases hr.symm.trans hv
  -- what was handed over first is an evaluation, and so not this update
  cases hbefore : before.handed with
  | nil =>
    have hhanded : (diary setup acts me).handed = [u] := by simp [hl, hbefore, DriverEvent.handed?]
    have hkind := (htells.sound.first hhanded).1
    rw [hu] at hkind
    cases hkind
  | cons first rest =>
    have hhanded : (diary setup acts me).handed = first :: (rest ++ [u]) := by
      simp [hl, hbefore, DriverEvent.handed?]
    obtain ⟨earlier, later, rfl⟩ := Diary.exists_split (u := first) (l := before) (by simp [hbefore])
    obtain ⟨answer, later, rfl⟩ := hs earlier first later rfl
    have hdiary : diary setup acts me = earlier ++ .handed first :: .returned (.ok answer) :: (later ++ [.handed u]) := by
      simpa using hl
    have hmem : ⟨d.workspace, .update first, .ok answer⟩ ∈ history setup acts := returned_run hd hdiary
    obtain ⟨s, -, rfl, h⟩ := orderly_run setup acts (i := d.workspace) (by rwa [view_workspaces])
    refine h.evaluated.2 ⟨_, List.mem_filter.2 ⟨hmem, by simp⟩, ?_, answer, rfl⟩
    simpa [Request.isEvaluation] using (htells.sound.first hhanded).1

/-! ## Once unload has been requested -/

/-- Nothing has been done to the workspaces that were there, nor told of them. -/
structure Untouched (w w' : World) : Prop where
  session : w'.session = w.session
  workspaces : ∀ i ws, w.workspace? i = some ws → w'.workspace? i = some ws
  log : w'.log = w.log

/-- An update whose turn comes after unload has been requested fails at once, with the cause of the unload, and
leaves no trace. -/
theorem cut_of_start {u : Update} (hc : (run setup acts).callAt me = some (i, .start (.update u)))
    (hu : (run setup acts).unloadOf i = some cause) (env : Environment) :
    (∃ w', (run setup acts).advanceCall env me i (.start (.update u)) = (w', .done (.error cause.error))) ∧
      (run setup acts).Untouched ((run setup acts).advance env me) := by
  obtain ⟨ws, hw, hcause⟩ := Option.bind_eq_some_iff.1 hu
  obtain ⟨h, hh, hws⟩ := Option.map_eq_some_iff.1 hw
  obtain ⟨hk, -⟩ := plays_orderly setup acts i
  obtain ⟨s, hs, hsame, horderly⟩ := orderly_run setup acts (i := i) (by rwa [view_workspaces])
  have hcall : s.calls me = some (.start (.update u)) := (hs.calls me _).2 hc
  have hpaths := Call.paths (run setup acts).setup env me (run setup acts).session s.workspace (horderly.fit hcall)
  obtain ⟨lock, ha, hlock⟩ := hpaths.yielded (hsame ▸ hcause) rfl (Call.start_holds _)
  obtain ⟨-, rfl⟩ := hlock.resolve_left fun hq => Call.start_not_queued _ hq.1
  have hevents : (Call.start (.update u)).report (run setup acts).setup (.error cause.error) = [] := by
    rw [Call.report_update rfl, (DisposeCause.error_isCancellation cause).2.1]
    rfl
  rw [hsame] at ha
  constructor
  · refine ⟨_, Prod.ext rfl ?_⟩
    rw [advanceCall_progress hh, hws, ha]
    rfl
  · obtain ⟨slices, hview⟩ := advance_view hk (show (freely setup).fits env from trivial) hc hs.workspace
    rw [hsame, ha] at hview
    refine ⟨congrArg View.session hview, fun j ws' hj => ?_, ?_⟩
    · obtain ⟨hi, hget⟩ := List.getElem?_eq_some_iff.1 hs.workspace
      have hset : (run setup acts).view.workspaces.set i ws = (run setup acts).view.workspaces := by
        rw [← hsame, ← hget]
        exact List.set_getElem_self hi
      have hworkspaces : ((run setup acts).advance env me).view.workspaces =
          (run setup acts).view.workspaces.set i ws ++ slices.map fun slice => ({ slice } : Workspace) :=
        congrArg View.workspaces hview
      rw [← view_workspaces] at hj ⊢
      rw [hworkspaces, hset, List.getElem?_append_left (List.getElem?_eq_some_iff.1 hj).1, hj]
    · refine (congrArg View.log hview).trans ?_
      simp [View.adding, View.after, Call.finish, hevents, view]

/-- Where a driver stands that was at work, or had ended, when unload was requested. -/
inductive Cut (setup : Setup) (acts more : List Act) (me : JobId) (i : Nat) (cause : DisposeCause) : Prop
  /-- It has handed nothing over since. -/
  | idle (hl : ((run setup acts).diaryFrom me more).handed = [])
  | hands {before : Diary} {u : Update} {d : Driver} (hd : (run setup (acts ++ more)).job? me = some (.drive d))
      (hi : d.workspace = i) (hh : d.handing = some (.start (.update u)))
      (hl : (run setup acts).diaryFrom me more = before ++ [.handed u]) (hb : before.handed = [])
  /-- It has handed an update over, and ended with it. -/
  | past {before : Diary} {u : Update} (hj : (run setup (acts ++ more)).job? me = none)
      (hn : me < (run setup (acts ++ more)).nextJob)
      (hl : (run setup acts).diaryFrom me more = before ++ [.handed u, .returned (.error cause.error)])
      (hb : before.handed = [])

theorem Cut.step (h : Cut setup acts more me i cause) (hs : Drives setup (acts ++ more) me i pair)
    (hu : (run setup acts).unloadOf i = some cause) (a : Act) : Cut setup acts (more ++ [a]) me i cause := by
  have hk := (plays_orderly setup (acts ++ more) 0).1
  have ha : a.Within (freely setup) := within_freely setup a
  have hdiary : (run setup acts).diaryFrom me (more ++ [a]) =
      (run setup acts).diaryFrom me more ++ (run setup (acts ++ more)).told me a := by
    have hrun : run setup (acts ++ more) = runFrom (run setup acts) more := runFrom_append ..
    rw [diaryFrom_append, hrun]
    exact congrArg ((run setup acts).diaryFrom me more ++ ·) (List.append_nil _)
  have hrun : run setup (acts ++ (more ++ [a])) = (run setup (acts ++ more)).perform a := by
    rw [← List.append_assoc, run_concat]
  cases h with
  | idle hl =>
    cases hs with
    | @works d hd hi _ =>
      rcases driver_perform hk ha hd with ⟨hne, -⟩ | ⟨env, rfl, hstep⟩
      · refine .idle ?_
        rw [hdiary, told_of_ne _ hne, List.append_nil, hl]
      · obtain ⟨event, hevent, hpaths⟩ := (run setup (acts ++ more)).advanceDriver_paths env me d
        rw [told_driver env hd, hevent] at hdiary
        generalize (run setup (acts ++ more)).advanceDriver env me d = r at hpaths hstep
        cases hpaths with
        | @hands u rest hh hp =>
          refine .hands (d := { d with passed := rest, handing := some (.start (.update u)) }) ?_ hi rfl hdiary hl
          rw [hrun, hstep]
          rfl
        | _ =>
          refine .idle ?_
          rw [hdiary]
          simp [hl, DriverEvent.handed?]
    | exited _ hj =>
      refine .idle ?_
      rw [hdiary, told_of_no_driver, List.append_nil, hl]
      intro d hd
      cases hj.symm.trans hd
  | @hands before u d hd hi hh hl hb =>
    rcases driver_perform hk ha hd with ⟨hne, hsame⟩ | ⟨env, rfl, hstep⟩
    · refine .hands (hrun ▸ hsame) hi hh ?_ hb
      rw [hdiary, told_of_ne _ hne, List.append_nil, hl]
    · obtain ⟨event, hevent, hpaths⟩ := (run setup (acts ++ more)).advanceDriver_paths env me d
      rw [told_driver env hd, hevent] at hdiary
      have hcall : (run setup (acts ++ more)).callAt me = some (i, .start (.update u)) := by
        simp [callAt_driver hd, hh, hi]
      obtain ⟨⟨w', hcut⟩, -⟩ := cut_of_start hcall (unloadOf_stays hu more) env
      generalize (run setup (acts ++ more)).advanceDriver env me d = r at hpaths hstep
      cases hpaths with
      | @fails c error w'' hh' hd' =>
        cases hh.symm.trans hh'
        rw [hi, hcut] at hd'
        cases hd'
        refine .past (u := u) ?_ ?_ ?_ hb
        · rw [hrun, hstep]
          rfl
        · exact hrun ▸ Nat.lt_of_lt_of_le (job?_lt hk.fresh hd) (nextJob_perform hk ha)
        · rw [hdiary, hl]
          simp
      | works hh' hd' | succeeds hh' hd' =>
        cases hh.symm.trans hh'
        rw [hi, hcut] at hd'
        cases hd'
      | hands hh' | completes hh' | unloads hh' | waits hh' | receives hh' | closes hh' =>
        cases hh.symm.trans hh'
  | @past before u hj hn hl hb =>
    refine .past (u := u) (hrun ▸ job?_gone hk ha hj hn) (hrun ▸ Nat.lt_of_lt_of_le hn (nextJob_perform hk ha)) ?_ hb
    rw [hdiary, told_of_no_driver, List.append_nil, hl]
    intro d hd
    cases hj.symm.trans hd

theorem cut_run (hd : (run setup acts).job? me = some (.drive d)) (hu : (run setup acts).unloadOf d.workspace = some cause)
    (more : List Act) : Cut setup acts more me d.workspace cause := by
  induction more using List.reverseRecOn with
  | nil => exact .idle rfl
  | append_singleton more a ih => exact ih.step (drives_run hd more) hu a

end World

end SliceSync
