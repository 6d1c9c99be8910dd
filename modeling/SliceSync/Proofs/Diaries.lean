import SliceSync.Proofs.DriverSteps
import SliceSync.Proofs.Owing
import SliceSync.Proofs.Streams
/-!
# Diaries of drivers

All that a driver has done in the course of a run is its diary. It hands updates over one at a time
(`Diary.InTurn`), and what it has handed over and what it has before it is what the holdback lets pass of what it
has received (`Driver.Tells`).

Main statement: `World.driver_tells`.
-/

namespace SliceSync

/-! ## Diaries -/

namespace DriverEvent

/-- The update that is taken out of a stream. -/
def received? : DriverEvent → Option Update
  | received u => some u
  | _ => none

/-- The update that is handed over. -/
def handed? : DriverEvent → Option Update
  | handed u => some u
  | _ => none

end DriverEvent

/-- What a driver has done, in order. -/
abbrev Diary : Type := List DriverEvent

namespace Diary

variable {l m before after : Diary} {event : DriverEvent} {u v : Update}

/-- The updates that have been taken out of the streams. -/
def received (l : Diary) : List Update := l.filterMap DriverEvent.received?

/-- The updates that have been handed over. -/
def handed (l : Diary) : List Update := l.filterMap DriverEvent.handed?

@[simp] theorem received_nil : received [] = [] := rfl

@[simp] theorem handed_nil : handed [] = [] := rfl

@[simp] theorem received_cons (event : DriverEvent) (l : Diary) :
    received (event :: l) = event.received?.toList ++ received l := by
  cases h : event.received? <;> simp [received, h]

@[simp] theorem handed_cons (event : DriverEvent) (l : Diary) :
    handed (event :: l) = event.handed?.toList ++ handed l := by
  cases h : event.handed? <;> simp [handed, h]

@[simp] theorem received_append (l m : Diary) : received (l ++ m) = received l ++ received m := List.filterMap_append

@[simp] theorem handed_append (l m : Diary) : handed (l ++ m) = handed l ++ handed m := List.filterMap_append

/-- What has been handed over was so at some time. -/
theorem exists_split (h : u ∈ l.handed) : ∃ before after, l = before ++ .handed u :: after := by
  obtain ⟨event, hevent, hu⟩ := List.mem_filterMap.1 h
  obtain ⟨before, after, rfl⟩ := List.append_of_mem hevent
  cases event with
  | handed v =>
    cases hu
    exact ⟨before, after, rfl⟩
  | _ => cases hu

/-- Every update that was handed over has ended well, before anything else was done. -/
def Settled (l : Diary) : Prop :=
  ∀ before u after, l = before ++ .handed u :: after → ∃ answer rest, after = .returned (.ok answer) :: rest

/-- Updates are handed over one at a time: nothing is done until the one handed over has ended, and nothing after one
that has failed. -/
def InTurn (l : Diary) : Prop :=
  ∀ before u after, l = before ++ .handed u :: after →
    after = [] ∨ (∃ answer rest, after = .returned (.ok answer) :: rest) ∨
      ∃ error, after = [.returned (.error error)]

/-- An event of a diary in two parts is one of the first or of the second. -/
theorem split_append (h : l ++ m = before ++ event :: after) :
    (∃ rest, l = before ++ event :: rest ∧ after = rest ++ m) ∨
      ∃ between, before = l ++ between ∧ m = between ++ event :: after := by
  rcases List.append_eq_append_iff.1 h with ⟨between, rfl, hm⟩ | ⟨rest, rfl, hrest⟩
  · exact .inr ⟨between, rfl, hm⟩
  · cases rest with
    | nil => exact .inr ⟨[], by simp, hrest.symm⟩
    | cons first rest =>
      cases hrest
      exact .inl ⟨rest, rfl, rfl⟩

/-- The end of an update is told with the last event, or was told before. -/
theorem split_returned {event : Option DriverEvent} {result : Except SyncError Answer}
    (h : l ++ event.toList = before ++ .handed u :: .returned result :: after) :
    (∃ rest, l = before ++ .handed u :: .returned result :: rest) ∨
      l = before ++ [.handed u] ∧ event = some (.returned result) := by
  cases event with
  | none => exact .inl ⟨after, by simpa using h⟩
  | some event =>
    rcases split_append h with ⟨rest, hl, hrest⟩ | ⟨between, -, hlast⟩
    · rcases List.cons_eq_append_iff.1 hrest with ⟨rfl, hlast⟩ | ⟨rest, rfl, -⟩
      · cases hlast
        exact .inr ⟨hl, rfl⟩
      · exact .inl ⟨rest, hl⟩
    · rcases between with - | ⟨first, between⟩ <;> simp at hlast

theorem settled_nil : Settled [] := by
  intro before u after h
  simp at h

theorem Settled.append (hl : l.Settled) (hm : m.Settled) : Settled (l ++ m) := by
  intro before u after h
  rcases split_append h with ⟨rest, hl', rfl⟩ | ⟨between, -, hm'⟩
  · obtain ⟨answer, rest, rfl⟩ := hl before u rest hl'
    exact ⟨answer, rest ++ m, rfl⟩
  · exact hm between u after hm'

/-- Where nothing is handed over there is nothing to settle. -/
theorem settled_of_handed_nil (h : l.handed = []) : l.Settled := by
  rintro before u after rfl
  simp [DriverEvent.handed?] at h

/-- Of two events only the first hands an update over. -/
theorem eq_of_turn (h : [.handed u, event] = before ++ .handed v :: after) (hn : event.handed? = none) :
    after = [event] := by
  rcases List.cons_eq_append_iff.1 h with ⟨rfl, htail⟩ | ⟨rest, rfl, htail⟩
  · cases htail
    rfl
  · have hmem : DriverEvent.handed v ∈ [event] := by
      rw [htail]
      simp
    rw [← List.mem_singleton.1 hmem] at hn
    cases hn

theorem settled_turn (u : Update) (answer : Answer) : Settled [.handed u, .returned (.ok answer)] :=
  fun _ _ _ h => ⟨answer, [], eq_of_turn h rfl⟩

/-- After what is settled the next update has its turn. -/
theorem Settled.inTurn_append (hl : l.Settled) (hm : m.InTurn) : InTurn (l ++ m) := by
  intro before u after h
  rcases split_append h with ⟨rest, hl', rfl⟩ | ⟨between, -, hm'⟩
  · obtain ⟨answer, rest, rfl⟩ := hl before u rest hl'
    exact .inr (.inl ⟨answer, rest ++ m, rfl⟩)
  · exact hm between u after hm'

theorem Settled.inTurn (hl : l.Settled) : l.InTurn :=
  fun before u after h => .inr (.inl (hl before u after h))

theorem inTurn_handed (u : Update) : InTurn [.handed u] := by
  intro before v after h
  left
  rcases List.cons_eq_append_iff.1 h with ⟨rfl, htail⟩ | ⟨rest, rfl, htail⟩
  · cases htail
    rfl
  · simp at htail

theorem inTurn_failed (u : Update) (error : SyncError) : InTurn [.handed u, .returned (.error error)] :=
  fun _ _ _ h => .inr (.inr ⟨error, eq_of_turn h rfl⟩)

end Diary

/-! ## What passes the holdback -/

namespace Holdback

/-- The holdback after updates have been taken in. -/
def after (h : Holdback) (updates : List Update) : Holdback :=
  (runAll (fun h u => ((push h u).1, (push h u).2.1)) h updates).1

theorem after_concat (h : Holdback) (updates : List Update) (u : Update) :
    h.after (updates ++ [u]) = ((h.after updates).push u).1 := by
  rw [after, runAll_append]
  rfl

theorem passed_concat (h : Holdback) (updates : List Update) (u : Update) :
    h.passed (updates ++ [u]) = h.passed updates ++ ((h.after updates).push u).2.1 := by
  rw [passed, runAll_append, runAll_cons]
  exact congrArg (h.passed updates ++ ·) (List.append_nil _)

end Holdback

/-! ## What a driver has before it -/

/-- What a driver has before it, and in hand, follows from what it has done. -/
structure Driver.Tells (d : Driver) (l : Diary) : Prop where
  passed : ∃ threshold, d.holdback = Holdback.after { threshold } l.received ∧
    l.handed ++ d.passed = Holdback.passed { threshold } l.received
  idle : d.handing = none → l.Settled
  busy : ∀ c, d.handing = some c → ∃ (before : Diary) (u : Update), l = before ++ [.handed u] ∧ before.Settled ∧ c.request = .update u
  closed : ∀ kind, d.isOpen kind = false → .ended kind ∈ l

namespace Driver

variable {d d' : Driver} {l : Diary} {w : World} {env : Environment} {me : JobId} {event : Option DriverEvent}
  {r : World × Onward Driver DriverExit}

/-- A new driver has done nothing. -/
theorem IsNew.tells (h : d.IsNew) : d.Tells [] := by
  obtain ⟨workspace, pair, threshold, rfl⟩ := h
  refine ⟨⟨threshold, rfl, rfl⟩, fun _ => Diary.settled_nil, fun c hc => ?_, fun kind hk => ?_⟩
  · cases hc
  · cases kind <;> cases hk

/-- What is not handed over does not change what has been received or handed over. -/
theorem Tells.quiet (h : d.Tells l) (hh : d'.holdback = d.holdback) (hp : d'.passed = d.passed)
    {event : DriverEvent} (hr : event.received? = none) (hn : event.handed? = none) :
    ∃ threshold, d'.holdback = Holdback.after { threshold } (Diary.received (l ++ [event])) ∧
      Diary.handed (l ++ [event]) ++ d'.passed = Holdback.passed { threshold } (Diary.received (l ++ [event])) := by
  obtain ⟨threshold, hheld, hpassed⟩ := h.passed
  refine ⟨threshold, ?_⟩
  have hreceived : Diary.received (l ++ [event]) = l.received := by simp [hr]
  have hhanded : Diary.handed (l ++ [event]) = l.handed := by simp [hn]
  rw [hreceived, hhanded, hh, hp]
  exact ⟨hheld, hpassed⟩

theorem isOpen_closeStream {kind other : UpdateKind} (h : (d.closeStream kind).isOpen other = false) :
    d.isOpen other = false ∨ other = kind := by
  cases kind <;> cases other <;> simp_all [closeStream, isOpen]

/-- A step of a driver adds to its diary what leads to what it has before it then. -/
theorem Tells.step (h : d.Tells l) (hp : d.Paths w env me event r)
    (hsame : ∀ c c' w', d.handing = some c → w.advanceCall env me d.workspace c = (w', .going c') →
      c'.request = c.request) (hg : r.2 = .going d') : d'.Tells (l ++ event.toList) := by
  have kept {kind : UpdateKind} {m : Diary} (hk : d.isOpen kind = false) : .ended kind ∈ l ++ m :=
    List.mem_append_left _ (h.closed kind hk)
  cases hp with
  | works hh hgo =>
    cases hg
    obtain ⟨before, u, hl, hs, hr⟩ := h.busy _ hh
    rw [Option.toList_none, List.append_nil]
    refine ⟨h.passed, nofun, fun c' hc' => ?_, h.closed⟩
    cases hc'
    exact ⟨before, u, hl, hs, (hsame _ _ _ hh hgo).trans hr⟩
  | @succeeds c answer w' hh hd =>
    cases hg
    obtain ⟨before, u, rfl, hs, -⟩ := h.busy _ hh
    refine ⟨h.quiet rfl rfl rfl rfl, fun _ => ?_, fun c hc => ?_, fun kind hk => kept hk⟩
    · rw [Option.toList_some, List.append_assoc]
      exact hs.append (Diary.settled_turn u answer)
    · cases hc
  | @hands u rest hh hpassed =>
    cases hg
    obtain ⟨threshold, hheld, hall⟩ := h.passed
    refine ⟨⟨threshold, ?_⟩, nofun, fun c hc => ?_, fun kind hk => kept hk⟩
    · have hreceived : Diary.received (l ++ [.handed u]) = l.received := by simp [DriverEvent.received?]
      have hhanded : Diary.handed (l ++ [.handed u]) = l.handed ++ [u] := by simp [DriverEvent.handed?]
      rw [hpassed] at hall
      rw [Option.toList_some, hreceived, hhanded, List.append_assoc]
      exact ⟨hheld, hall⟩
    · cases hc
      exact ⟨l, u, rfl, h.idle hh, rfl⟩
  | waits hh =>
    cases hg
    rw [Option.toList_none, List.append_nil]
    exact h
  | @receives kind source u hh hpassed =>
    cases hg
    obtain ⟨threshold, hheld, hall⟩ := h.passed
    have hreceived : Diary.received (l ++ [.received u]) = l.received ++ [u] := by
      simp [DriverEvent.received?]
    have hhanded : Diary.handed (l ++ [.received u]) = l.handed := by simp [DriverEvent.handed?]
    refine ⟨⟨threshold, ?_⟩, fun _ => ?_, fun c hc => ?_, fun kind hk => kept ?_⟩
    · rw [Option.toList_some, hreceived, hhanded, Holdback.after_concat, Holdback.passed_concat, ← hall, ← hheld,
        List.append_assoc]
      exact ⟨rfl, rfl⟩
    · exact (h.idle hh).append (Diary.settled_of_handed_nil rfl)
    · exact absurd (hh.symm.trans hc) nofun
    · cases kind <;> exact hk
  | @closes kind hh hpassed =>
    cases hg
    have hbusy : (d.closeStream kind).handing = none := by cases kind <;> exact hh
    refine ⟨h.quiet ?_ ?_ rfl rfl, fun _ => ?_, fun c hc => ?_, fun other hk => ?_⟩
    · cases kind <;> rfl
    · cases kind <;> rfl
    · exact (h.idle hh).append (Diary.settled_of_handed_nil rfl)
    · exact absurd (hbusy.symm.trans hc) nofun
    · rcases isOpen_closeStream hk with hk | rfl
      · exact kept hk
      · simp
  | fails | completes | unloads => cases hg

end Driver

/-! ## Runs -/

namespace World

variable {t : Terms} {setup : Setup} {acts : List Act} {w : World} {a : Act} {me : JobId} {d : Driver}

/-- What a driver does during an act. -/
def told (w : World) (me : JobId) : Act → Diary
  | .advance env job =>
    if job = me then
      match w.job? me with
      | some (.drive d) => (w.driverEvent? env me d).toList
      | _ => []
    else []
  | _ => []

/-- What a driver does during some acts, in order. -/
def diaryFrom (w : World) (me : JobId) : List Act → Diary
  | [] => []
  | a :: rest => w.told me a ++ (w.perform a).diaryFrom me rest

/-- What a driver has done. -/
def diary (setup : Setup) (acts : List Act) (me : JobId) : Diary := (initial setup).diaryFrom me acts

theorem diaryFrom_append (w : World) (me : JobId) (l m : List Act) :
    w.diaryFrom me (l ++ m) = w.diaryFrom me l ++ (runFrom w l).diaryFrom me m := by
  induction l generalizing w with
  | nil => rfl
  | cons a rest ih => simp only [List.cons_append, diaryFrom, ih, List.append_assoc, runFrom_cons]

theorem diary_append (setup : Setup) (acts more : List Act) (me : JobId) :
    diary setup (acts ++ more) me = diary setup acts me ++ (run setup acts).diaryFrom me more :=
  diaryFrom_append ..

theorem diary_concat (setup : Setup) (acts : List Act) (a : Act) (me : JobId) :
    diary setup (acts ++ [a]) me = diary setup acts me ++ (run setup acts).told me a := by
  rw [diary_append]
  exact congrArg (diary setup acts me ++ ·) (List.append_nil _)

/-- Only a step of its own is told of a driver. -/
theorem told_of_ne (w : World) (hne : ∀ env, a ≠ .advance env me) : w.told me a = [] := by
  cases a with
  | advance env job =>
    refine if_neg ?_
    rintro rfl
    exact hne env rfl
  | _ => rfl

theorem told_of_no_driver (hn : ∀ d, w.job? me ≠ some (.drive d)) : w.told me a = [] := by
  cases a with
  | advance env job =>
    unfold told
    dsimp only
    split
    · split
      · rename_i d hd
        exact absurd hd (hn d)
      · rfl
    · rfl
  | _ => rfl

theorem told_driver (env : Environment) (hd : w.job? me = some (.drive d)) :
    w.told me (.advance env me) = (w.driverEvent? env me d).toList := by
  simp [told, hd]

/-- A driver that takes a step. -/
theorem job?_advance_driver (hk : w.Keeps t) {env : Environment} (he : t.fits env)
    (hd : w.job? me = some (.drive d)) :
    (w.advance env me).job? me = (w.advanceDriver env me d).2.state?.map .drive := by
  rw [job?_advance_self hk he hd, advanceJob_drive, Onward.state?_bimap]

/-- What becomes of a driver with an act: nothing, if it is no step of its own. -/
theorem driver_perform (hk : w.Keeps t) (ha : a.Within t) (hd : w.job? me = some (.drive d)) :
    (∀ env, a ≠ .advance env me) ∧ (w.perform a).job? me = some (.drive d) ∨
      ∃ env, a = .advance env me ∧ (w.perform a).job? me = (w.advanceDriver env me d).2.state?.map .drive := by
  rcases a.step_or_not me with hne | ⟨env, rfl⟩
  · left
    refine ⟨hne, ?_⟩
    rcases job?_perform hk ha hne with hsame | ⟨hme, -⟩
    · exact hsame.trans hd
    · exact absurd hme (Nat.ne_of_lt (job?_lt hk.fresh hd))
  · right
    exact ⟨env, rfl, job?_advance_driver hk ha hd⟩

/-- A driver that was not there is new. -/
theorem driver_new (hk : w.Keeps t) (ha : a.Within t) (hn : ∀ d, w.job? me ≠ some (.drive d))
    (hd : (w.perform a).job? me = some (.drive d)) : me = w.nextJob ∧ d.IsNew := by
  rcases a.step_or_not me with hne | ⟨env, rfl⟩
  · rcases job?_perform hk ha hne with hsame | ⟨hme, job, hj, hjob⟩
    · exact absurd (hsame.symm.trans hd) (hn d)
    · cases hj.symm.trans hd
      rcases hjob with hbegins | ⟨d', hnew, heq⟩
      · cases a <;> cases hbegins
      · cases heq
        exact ⟨hme, hnew⟩
  · -- a job goes on as what it was
    change (w.advance env me).job? me = _ at hd
    cases hj : w.job? me with
    | none => simp [advance, hj] at hd
    | some job =>
      rw [job?_advance_self hk ha hj] at hd
      have hg := Onward.state?_eq_some_iff.1 hd
      cases job with
      | drive d' => exact absurd hj (hn d')
      | _ => cases kind_of_going hg

/-- A driver makes a call while it has an update in hand. -/
theorem callAt_driver (hd : w.job? me = some (.drive d)) : w.callAt me = d.handing.map (d.workspace, ·) := by
  simp [callAt, hd, Job.call?]

/-- The update in hand goes on as what it was. -/
theorem request_of_handing (hd : (run setup acts).job? me = some (.drive d)) {env : Environment} {c c' : Call} {w' : World}
    (hh : d.handing = some c) (hg : (run setup acts).advanceCall env me d.workspace c = (w', .going c')) :
    c'.request = c.request := by
  have hcall : (run setup acts).callAt me = some (d.workspace, c) := by simp [callAt_driver hd, hh]
  exact request_of_going hcall (by rw [hg])

/-- Who has not begun has done nothing. -/
theorem diary_of_unborn (h : (run setup acts).nextJob ≤ me) : diary setup acts me = [] := by
  induction acts using List.reverseRecOn with
  | nil => rfl
  | append_singleton acts a ih =>
    have hk := (plays_orderly setup acts 0).1
    rw [run_concat] at h
    have hbefore := Nat.le_trans (nextJob_perform hk (within_freely setup a)) h
    rw [diary_concat, ih hbefore, told_of_no_driver, List.append_nil]
    intro d hd
    exact Nat.not_lt_of_le hbefore (job?_lt hk.fresh hd)

/-- What holds of a new driver, and is kept whenever a driver takes a step and whenever it does not, holds of every
driver. -/
theorem driver_induction {P : List Act → Driver → Prop}
    (new : ∀ acts d, d.IsNew → diary setup acts me = [] → P acts d)
    (aside : ∀ acts a d, diary setup (acts ++ [a]) me = diary setup acts me → P acts d → P (acts ++ [a]) d)
    (step : ∀ acts env d d' event r, (run setup acts).job? me = some (.drive d) →
      d.Paths (run setup acts) env me event r → r.2 = .going d' →
      diary setup (acts ++ [.advance env me]) me = diary setup acts me ++ event.toList → P acts d →
      P (acts ++ [.advance env me]) d')
    (acts : List Act) (hd : (run setup acts).job? me = some (.drive d)) : P acts d := by
  induction acts using List.reverseRecOn generalizing d with
  | nil => cases hd
  | append_singleton acts a ih =>
    have hk := (plays_orderly setup acts 0).1
    have ha : a.Within (freely setup) := within_freely setup a
    rw [run_concat] at hd
    by_cases hdriver : ∃ d, (run setup acts).job? me = some (.drive d)
    · obtain ⟨before, hbefore⟩ := hdriver
      rcases driver_perform hk ha hbefore with ⟨hne, hsame⟩ | ⟨env, rfl, hstep⟩
      · cases hsame.symm.trans hd
        refine aside acts a d ?_ (ih hbefore)
        rw [diary_concat, told_of_ne _ hne, List.append_nil]
      · obtain ⟨event, hevent, hp⟩ := (run setup acts).advanceDriver_paths env me before
        rw [hstep, Option.map_eq_some_iff] at hd
        obtain ⟨d', hgoing, heq⟩ := hd
        cases heq
        refine step acts env before d event _ hbefore hp (Onward.state?_eq_some_iff.1 hgoing) ?_ (ih hbefore)
        rw [diary_concat, told_driver env hbefore, hevent]
    · have hn : ∀ d, (run setup acts).job? me ≠ some (.drive d) := fun d hd => hdriver ⟨d, hd⟩
      obtain ⟨hme, hnew⟩ := driver_new hk ha hn hd
      refine new _ _ hnew ?_
      rw [diary_concat, told_of_no_driver hn, diary_of_unborn (Nat.le_of_eq hme.symm)]
      rfl

/-- In every run a driver has before it what follows from its diary. -/
theorem driver_tells (setup : Setup) (acts : List Act) (hd : (run setup acts).job? me = some (.drive d)) :
    d.Tells (diary setup acts me) := by
  refine driver_induction (P := fun acts d => d.Tells (diary setup acts me)) ?_ ?_ ?_ acts hd
  · intro acts d hnew hdiary
    rw [hdiary]
    exact hnew.tells
  · intro acts a d hdiary h
    rwa [hdiary]
  · intro acts env d d' event r hd hp hg hdiary h
    rw [hdiary]
    exact h.step hp (fun c c' w' hh hgo => request_of_handing hd hh hgo) hg

end World

end SliceSync
