import SliceSync.Proofs.Failures
import SliceSync.Proofs.Owing
/-!
# What has been committed

A batch that closes well commits what it carries: `World.commits` lists this for a workspace, in order, as
`World.failures` lists the errors of those that do not. The ways a step can go are told again with what it commits and
how it fails (`Scene.Shift`), and what every such step keeps holds of whole runs (`World.shifts_run`): the baseline says
what was committed last (`World.follows_run`). An update that has ended well has been committed, or was passed over
(`World.ended_well`).
-/

namespace SliceSync

/-- What the closing of a batch commits: what the batch carries, unless something has failed. -/
def OpenBatch.commits (batch : OpenBatch) (env : Environment) : List Commit :=
  match batch.failure.or env.rejected with
  | some _ => []
  | none => [batch.commit]

/-- The error with which the closing of a batch fails, if it does. -/
def OpenBatch.failures (batch : OpenBatch) (env : Environment) : List SyncError := (batch.failure.or env.rejected).toList

namespace Call

variable {β : Type} {f : OpenBatch → Environment → List β} {c : Call} {env : Environment} {batch : OpenBatch}

/-- What the next step of a call brings by closing its batch. -/
def brings (f : OpenBatch → Environment → List β) (c : Call) (env : Environment) : List β :=
  match c.phase with
  | .closing batch => if env.gateOpen then f batch env else []
  | _ => []

theorem brings_of_closing (hp : c.phase = .closing batch) (hg : env.gateOpen = true) : c.brings f env = f batch env := by
  simp only [brings, hp, hg, if_true]

/-- Nothing is brought but by closing a batch. -/
theorem brings_eq_nil (h : ∀ batch, c.phase = .closing batch → env.gateOpen ≠ true) : c.brings f env = [] := by
  unfold brings
  split
  · rename_i batch hp
    exact if_neg (h batch hp)
  · rfl

/-- Without the lock nothing is brought. -/
theorem brings_of_waiting (h : c.phase.holds = false) (env : Environment) : c.brings f env = [] :=
  brings_eq_nil fun batch hp => absurd hp (Phase.not_closing h batch)

end Call

namespace Commit

/-- The kind of update that a commit makes the baseline; a write makes none. -/
def kind? : Commit → Option UpdateKind
  | .evaluation .. => some .evaluation
  | .build .. => some .build
  | .write _ => none

/-- The activity under which what is committed was taken up. -/
def activity? : Commit → Option Activity
  | .evaluation _ _ _ activity | .build _ _ activity => some activity
  | .write _ => none

/-- The argument list that a build commits. -/
def arguments? : Commit → Option (List String)
  | .build _ arguments _ => some arguments
  | _ => none

end Commit

/-- The last that some commits say of something. -/
def lastOf {β : Type} (shows : Commit → Option β) (commits : List Commit) : Option β :=
  (commits.filterMap shows).getLast?

section LastOf

variable {β : Type} {shows : Commit → Option β} {commits more : List Commit} {commit : Commit}

@[simp] theorem lastOf_nil : lastOf shows [] = none := rfl

@[simp] theorem lastOf_append : lastOf shows (commits ++ more) = (lastOf shows more).or (lastOf shows commits) := by
  rw [lastOf, List.filterMap_append, List.getLast?_append, lastOf, lastOf]

@[simp] theorem lastOf_singleton : lastOf shows [commit] = shows commit := by
  cases h : shows commit <;> simp [lastOf, h]

end LastOf

namespace World

section Brings

variable {β : Type} (f : OpenBatch → Environment → List β)

/-- What an act brings by closing a batch of the workspace in a place. -/
def bringsOf (w : World) (i : Nat) : Act → List β
  | .advance env me =>
    match w.callAt me with
    | some (j, c) => if j = i then c.brings f env else []
    | none => []
  | _ => []

/-- What some acts bring by closing batches of the workspace in a place, in order. -/
def bringsFrom (w : World) (i : Nat) : List Act → List β
  | [] => []
  | a :: rest => w.bringsOf f i a ++ bringsFrom (w.perform a) i rest

theorem bringsFrom_append (w : World) (i : Nat) (l m : List Act) :
    bringsFrom f w i (l ++ m) = bringsFrom f w i l ++ bringsFrom f (runFrom w l) i m := by
  induction l generalizing w with
  | nil => rfl
  | cons a rest ih => simp [bringsFrom, ih, runFrom]

end Brings

/-- What an act commits at the workspace in a place. -/
def commitsOf (w : World) (i : Nat) (a : Act) : List Commit := w.bringsOf OpenBatch.commits i a

/-- What has been committed at the workspace in a place, in order. -/
def commits (setup : Setup) (acts : List Act) (i : Nat) : List Commit :=
  bringsFrom OpenBatch.commits (.initial setup) i acts

/-- The errors with which batches of the workspace in a place have closed, of a handler or of the context, in order. -/
def failures (setup : Setup) (acts : List Act) (i : Nat) : List SyncError :=
  bringsFrom OpenBatch.failures (.initial setup) i acts

theorem commits_concat (setup : Setup) (acts : List Act) (i : Nat) (a : Act) :
    commits setup (acts ++ [a]) i = commits setup acts i ++ (run setup acts).commitsOf i a := by
  rw [commits, bringsFrom_append]
  simp [commits, commitsOf, run, bringsFrom]

theorem failures_concat (setup : Setup) (acts : List Act) (i : Nat) (a : Act) :
    failures setup (acts ++ [a]) i = failures setup acts i ++ (run setup acts).bringsOf OpenBatch.failures i a := by
  rw [failures, bringsFrom_append]
  simp [failures, run, bringsFrom]

end World

/-! ## Steps, with what they commit -/

/-- Who opens a batch takes up an update, or writes to the context that is there. -/
theorem Request.opening {setup : Setup} {env : Environment} {session : Session} {w : Workspace}
    {request : Request} {batch : OpenBatch} (hh : (request.passage setup env session w).held = .closing batch) :
    (∃ u handle, request = .update u ∧
      w.Opens setup env session u (request.passage setup env session w) batch handle) ∨
    ∃ mutations handle, request = .write mutations ∧ w.admits = .ok () ∧ w.context = some handle ∧
      request.passage setup env session w =
        ⟨session, w, .context handle.serial .startBatch :: .acted handle.id ::
          mutations.map (fun m => .context handle.serial (.mutate m)), .closing batch⟩ ∧
      batch.failure = none ∧ batch.commit = .write handle.id := by
  have hp := request.enters setup env session w
  generalize request.passage setup env session w = p at hh hp ⊢
  cases hp with
  | @receives u p hp =>
    obtain ⟨handle, hopens⟩ := hp.opens hh
    exact .inl ⟨u, handle, rfl, hopens⟩
  | @writes mutations handle ha hc =>
    cases hh
    exact .inr ⟨mutations, handle, rfl, ha, hc, rfl, rfl, rfl⟩
  | refuses | lacks | gone | releases | departs | answers => cases hh

namespace Scene

/-- The ways a step can concern a workspace, with how its batch fails and what is committed. -/
inductive Shift (t : Terms) (s : Scene) : Scene → List SyncError → List Commit → Prop
  /-- Others come, wait or are cut short. -/
  | waits {s' : Scene} (hw : ∃ lock unload, s'.workspace = { s.workspace with lock, unload })
      (hl : ∃ faults, s'.log = s.log ++ faults ∧ Event.OnlyFaults faults)
      (hc : ∀ {me c}, c.phase.holds = true → (s'.calls me = some c ↔ s.calls me = some c)) : Shift t s s' [] []
  /-- A request gets the lock. -/
  | enters {env : Environment} {me : JobId} {c : Call} {session : Session} {lock : Lock} {unload : UnloadToken}
      (he : t.fits env) (hr : c.request.isWrite → t.writes)
      (hn : ∀ {job c'}, s.calls job = some c' → c'.phase.holds = false) :
      Shift t s (s.after me (c.conclude t.setup
        (c.request.passage t.setup env session { s.workspace with lock, unload }))) [] []
  /-- A batch closes. -/
  | closes {env : Environment} {me : JobId} {c : Call} {session : Session} {batch : OpenBatch}
      (hc : s.calls me = some c) (hp : c.phase = .closing batch) :
      Shift t s (s.after me (c.conclude t.setup (s.workspace.close env session batch)))
        (batch.failures env) (batch.commits env)
  /-- A context is gone. -/
  | parts {me : JobId} {c : Call} {session : Session} {handle : ContextHandle}
      (hc : s.calls me = some c) (hp : c.phase = .releasing handle) :
      Shift t s (s.after me (c.conclude t.setup (s.workspace.finishDispose session handle))) [] []

variable {t : Terms} {i : Nat} {s s' : Scene} {past : List Ending} {env : Environment} {me : JobId} {c : Call}
  {session : Session} {a : Advance}

/-- A step of a call shifts its workspace. -/
theorem Orderly.shift (h : s.Orderly past) (he : t.fits env) (hc : s.calls me = some c)
    (hr : c.request.isWrite → t.writes) (ha : c.Paths t.setup env me session s.workspace a) :
    Shift t s (s.after me a) (c.brings OpenBatch.failures env) (c.brings OpenBatch.commits env) := by
  by_cases hcloses : ∃ batch, c.phase = .closing batch ∧ env.gateOpen = true
  · obtain ⟨batch, hp, hg⟩ := hcloses
    rw [ha.closed hp hg, Call.brings_of_closing hp hg, Call.brings_of_closing hp hg]
    exact .closes hc hp
  · have hnone (batch : OpenBatch) (hp : c.phase = .closing batch) (hg : env.gateOpen = true) : False :=
      hcloses ⟨batch, hp, hg⟩
    rw [Call.brings_eq_nil hnone, Call.brings_eq_nil hnone]
    cases h.goes hc ha with
    | quiet _ hw hl hgo hdone =>
      refine .waits hw ⟨a.events, rfl, hl⟩ fun hp => ?_
      exact after_calls_of_quiet hc (fun c' hgoing => (hgo c' hgoing).imp_right fun h => ⟨h.1, h.2.1⟩)
        (fun result hresult => (hdone result hresult).1) hp
    | passes lock unload hme _ _ _ hk =>
      rcases hk with ⟨hbefore, rfl⟩ | ⟨batch, hp, hg, -⟩ | ⟨handle, hp, -, rfl⟩
      · refine .enters he hr fun {job c'} hjob => ?_
        cases hp' : c'.phase.holds with
        | false => rfl
        | true =>
          obtain rfl := hme hjob hp'
          cases hc.symm.trans hjob
          exact hp'.symm.trans hbefore
      · exact absurd ⟨batch, hp, hg⟩ hcloses
      · exact .parts hc hp

/-- A step that ends no call closes no batch. -/
theorem Orderly.shift_of_going {ended : List Ending} (h : s.Orderly past) (hs : Step t i s s' ended)
    (hended : ended = []) (hr : ∀ {me c}, s.calls me = some c → c.request.isWrite → t.writes) :
    Shift t s s' [] [] := by
  have silent : ∃ faults, s.log = s.log ++ faults ∧ Event.OnlyFaults faults :=
    ⟨[], (List.append_nil _).symm, fun _ he => absurd he List.not_mem_nil⟩
  cases hs with
  | rests => exact .waits ⟨_, _, rfl⟩ silent fun _ => .rfl
  | unloads cause => exact .waits ⟨_, _, rfl⟩ silent fun _ => .rfl
  | begins hnone => exact .waits ⟨_, _, rfl⟩ silent fun hp => calls_begin hnone hp
  | @goes env me c session he hc =>
    have ha := Call.paths t.setup env me session s.workspace (h.fit hc)
    have hshift : Shift t s _ _ _ := h.shift he hc (hr hc) ha
    have hnone (batch : OpenBatch) (hp : c.phase = .closing batch) (hg : env.gateOpen = true) : False := by
      rw [ha.closed hp hg, Advance.endings, (Call.conclude_finished _ _ (Workspace.close_result ..)).1] at hended
      cases hended
    rwa [Call.brings_eq_nil hnone, Call.brings_eq_nil hnone] at hshift

end Scene

namespace World

variable {t : Terms} {acts : List Act} {i : Nat} {s : Scene} {P : Scene → List SyncError → List Commit → Prop}

/-- A run that keeps to its terms shows what such runs show. -/
theorem sound_run (ha : ∀ a ∈ acts, a.Within t) :
    (run t.setup acts).Keeps t ∧ (run t.setup acts).view.Sound t := by
  obtain ⟨hk, hs, -⟩ := stands_run (t := t) (i := 0) (P := fun _ _ => True) (fun _ _ _ => trivial)
    (fun _ _ _ => trivial) ha
  exact ⟨hk, hs⟩

/-- What an act does to a workspace, with what it commits there and how a batch fails. -/
theorem shift_concat (ha : ∀ a ∈ acts, a.Within t) (hs : (run t.setup acts).view.HasScene i s) {a : Act}
    (hwithin : a.Within t) : ∃ s', (run t.setup (acts ++ [a])).view.HasScene i s' ∧
      Scene.Shift t s s' ((run t.setup acts).bringsOf OpenBatch.failures i a) ((run t.setup acts).commitsOf i a) := by
  obtain ⟨hk, hsound⟩ := sound_run ha
  have h := (audited_run hs).toOrderly
  have hwrites {me : JobId} {c : Call} (hc : s.calls me = some c) (hw : c.request.isWrite = true) : t.writes :=
    (hsound.proper ((hs.calls me c).1 hc)).2 hw
  -- whatever ends no call here is seen of a step of the view
  have aside (hends : ((run t.setup acts).endings a).filter (·.place = i) = [])
      (hnone : ∀ {β : Type} (f : OpenBatch → Environment → List β), (run t.setup acts).bringsOf f i a = []) :
      ∃ s', (run t.setup (acts ++ [a])).view.HasScene i s' ∧ Scene.Shift t s s'
        ((run t.setup acts).bringsOf OpenBatch.failures i a) ((run t.setup acts).commitsOf i a) := by
    obtain ⟨s', hs', hstep⟩ := hs.move (perform_moves hk hwithin)
    rw [commitsOf, hnone, hnone]
    exact ⟨s', by rwa [run_concat], h.shift_of_going hstep hends hwrites⟩
  cases a with
  | advance env me =>
    cases hcall : (run t.setup acts).callAt me with
    | none => exact aside (by rw [endings_of_none hcall]; rfl) fun f => by simp only [bringsOf, hcall]
    | some at_ =>
      obtain ⟨j, c⟩ := at_
      by_cases hj : j = i
      · subst hj
        have hc : s.calls me = some c := (hs.calls me c).2 hcall
        obtain ⟨hs', -, -⟩ := goes_here hk hwithin hs hc
        have hown {β : Type} (f : OpenBatch → Environment → List β) :
            (run t.setup acts).bringsOf f j (.advance env me) = c.brings f env := by
          simp only [bringsOf, hcall, if_true]
        rw [commitsOf, hown, hown, run_concat]
        exact ⟨_, hs', h.shift hwithin hc (hwrites hc)
          (Call.paths t.setup env me (run t.setup acts).session s.workspace (h.fit hc))⟩
      · refine aside (List.filter_eq_nil_iff.2 fun e he => ?_) fun f => by simp only [bringsOf, hcall, if_neg hj]
        simp only [endings, hcall] at he
        split at he
        · cases he
        · rw [List.mem_singleton.1 he]
          simpa using hj
  | _ => exact aside rfl fun _ => rfl

/-- Where there is no workspace no batch is closed. -/
theorem bringsOf_of_vacant {w : World} (hv : w.view.Vacant i) {β : Type} (f : OpenBatch → Environment → List β)
    (a : Act) : w.bringsOf f i a = [] := by
  cases a with
  | advance env me =>
    cases hcall : w.callAt me with
    | none => simp only [bringsOf, hcall]
    | some at_ =>
      obtain ⟨j, c⟩ := at_
      by_cases hj : j = i
      · -- who calls where there is no workspace has done nothing
        subst hj
        obtain ⟨request, rfl⟩ := hv.calls me c hcall
        simp only [bringsOf, hcall, if_true, Call.brings_of_waiting (Call.start_holds request)]
      · simp only [bringsOf, hcall, if_neg hj]
  | _ => rfl

/-- What holds of a workspace that has just come, and is kept by every shift, holds of how batches have failed there in
a run and of what has been committed. -/
theorem shifts_run (start : ∀ {s}, s.Fresh → P s [] [])
    (step : ∀ {s s' past past' failed failed' commits more}, s.Orderly past → s'.Orderly past' → P s failed commits →
      Scene.Shift t s s' failed' more → P s' (failed ++ failed') (commits ++ more))
    (ha : ∀ a ∈ acts, a.Within t) (hs : (run t.setup acts).view.HasScene i s) :
    P s (failures t.setup acts i) (commits t.setup acts i) := by
  suffices h : (run t.setup acts).view.Vacant i ∧ failures t.setup acts i = [] ∧ commits t.setup acts i = [] ∨
      ∃ s, (run t.setup acts).view.HasScene i s ∧ P s (failures t.setup acts i) (commits t.setup acts i) by
    rcases h with ⟨hv, -⟩ | ⟨s', hs', hP⟩
    · exact absurd (hv.workspace.symm.trans hs.workspace) nofun
    · exact hs.unique hs' ▸ hP
  clear hs
  induction acts using List.reverseRecOn with
  | nil => exact .inl ⟨vacant_initial t.setup i, rfl, rfl⟩
  | append_singleton acts a ih =>
    have hbefore : ∀ b ∈ acts, b.Within t := fun b hb => ha b (List.mem_append_left _ hb)
    have hwithin := ha a (by simp)
    rw [commits_concat, failures_concat]
    rcases ih hbefore with ⟨hv, hfailures, hcommits⟩ | ⟨s, hs, hP⟩
    · rw [hfailures, hcommits, commitsOf, bringsOf_of_vacant hv, bringsOf_of_vacant hv]
      rcases hv.move (perform_moves (sound_run hbefore).1 hwithin) with hv' | ⟨s, hs, hfresh⟩
      · exact .inl ⟨by rwa [run_concat], rfl, rfl⟩
      · exact .inr ⟨s, by rwa [run_concat], start hfresh⟩
    · obtain ⟨s', hs', hshift⟩ := shift_concat hbefore hs hwithin
      exact .inr ⟨s', hs', step (audited_run hs).toOrderly (audited_run hs').toOrderly hP hshift⟩

end World

/-! ## What is held -/

/-- The baseline says what has been committed last. -/
structure Baseline.Follows (b : Baseline) (commits : List Commit) : Prop where
  activity : b.activity = lastOf Commit.activity? commits
  arguments : b.arguments = (lastOf Commit.arguments? commits).getD []

/-- What a new context is told of the last build is of no account. -/
theorem Baseline.Follows.congr {b b' : Baseline} {commits : List Commit} (h : b.Follows commits)
    (hb : ∃ lastBuildSucceeded, b' = { b with lastBuildSucceeded }) : b'.Follows commits := by
  obtain ⟨_, rfl⟩ := hb
  exact ⟨h.activity, h.arguments⟩

/-- What a batch carries is held once it has closed well. -/
theorem Baseline.Follows.commit {w : Workspace} {commits : List Commit} (h : w.baseline.Follows commits)
    (commit : Commit) : (w.commit commit).1.baseline.Follows (commits ++ [commit]) := by
  have hactivity : lastOf Commit.activity? (commits ++ [commit]) =
      commit.activity?.or (lastOf Commit.activity? commits) := by rw [lastOf_append, lastOf_singleton]
  have harguments : lastOf Commit.arguments? (commits ++ [commit]) =
      commit.arguments?.or (lastOf Commit.arguments? commits) := by rw [lastOf_append, lastOf_singleton]
  constructor
  · rw [hactivity]
    cases commit with
    | evaluation | build => rfl
    | write id => exact h.activity
  · rw [harguments]
    cases commit with
    | build => rfl
    | evaluation | write => exact h.arguments

namespace Scene

variable {t : Terms} {s s' : Scene} {failed : List SyncError} {commits more : List Commit}

theorem Shift.follows (hs : Shift t s s' failed more) (h : s.workspace.baseline.Follows commits) :
    s'.workspace.baseline.Follows (commits ++ more) := by
  have concluded (c : Call) (p : Passage) (me : JobId) :
      (s.after me (c.conclude t.setup p)).workspace.baseline = p.workspace.baseline := by
    obtain ⟨lock, hlock⟩ := s.workspace_after_conclude t.setup me c p
    rw [hlock]
  cases hs with
  | waits hw =>
    obtain ⟨lock, unload, hw⟩ := hw
    rw [hw, List.append_nil]
    exact h
  | @enters env me c session lock unload =>
    rw [concluded, List.append_nil]
    exact h.congr (Request.passage_baseline t.setup env session _ c.request)
  | @closes env me c session batch =>
    rw [concluded, OpenBatch.commits, Workspace.close]
    cases batch.failure.or env.rejected with
    | some error => simpa using h
    | none => exact h.commit batch.commit
  | parts =>
    rw [concluded, List.append_nil]
    exact h

end Scene

/-- In every run the baseline says what has been committed last. -/
theorem World.follows_run {setup : Setup} {acts : List Act} {i : Nat} {w : Workspace}
    (hw : (run setup acts).workspace? i = some w) : w.baseline.Follows (commits setup acts i) := by
  obtain ⟨s, hs, rfl, -⟩ := orderly_run setup acts (i := i) (by rwa [view_workspaces])
  refine shifts_run (t := freely setup) (P := fun s _ commits => s.workspace.baseline.Follows commits)
    (fun hf => ?_) (fun _ _ h hst => hst.follows h) (fun a _ => within_freely setup a) hs
  obtain ⟨slice, hslice⟩ := hf.workspace
  rw [hslice]
  exact ⟨rfl, rfl⟩

/-! ## Where an update has ended well -/

namespace World

variable {setup : Setup} {acts : List Act} {env : Environment} {me : JobId} {i : Nat} {u : Update} {answer : Answer}

/-- With a step of its call an update has ended well that was taken up, after some acts, under an activity. -/
structure EndedWell (setup : Setup) (acts : List Act) (env : Environment) (me : JobId) (i : Nat) (u : Update)
    (earlier : List Act) (activity : Activity) (w : Workspace) (handle : ContextHandle) : Prop where
  taken : Taken setup acts me i u earlier activity
  workspace : (run setup (acts ++ [.advance env me])).workspace? i = some w
  context : w.context = some handle
  recalls : w.Recalls u.payload activity
  /-- It was passed over, or committed. -/
  commits : (run setup acts).commitsOf i (.advance env me) = [] ∨
    (run setup acts).commitsOf i (.advance env me) = [u.commit activity]
  nobody : ∀ job c, (run setup (acts ++ [.advance env me])).callAt job = some (i, c) → c.phase.holds = false

/-- A workspace at which an update has ended well is there with its context. -/
theorem initialized_of_ended
    (hended : ⟨i, .update u, .ok answer⟩ ∈ (run setup acts).endings (.advance env me)) :
    ∃ w, (run setup (acts ++ [.advance env me])).workspace? i = some w ∧ w.Regular ∧ w.status = .initialized := by
  obtain ⟨s, c, hs, hc, hr, hdone, hs'⟩ := scene_of_ending hended nofun
  have h := audited_run hs
  have haccount := h.account hc (Call.paths setup env me (run setup acts).session s.workspace (h.fit hc))
  change Call.Account setup env c s.workspace (c.advance setup env me _ _) at haccount
  refine ⟨_, workspace_of_scene hs', (audited_run hs').regular, ?_⟩
  cases haccount with
  | processed _ _ hstatus => exact hstatus
  | silent hn =>
    rcases hn with ⟨c', hgoing⟩ | hno
    · exact absurd (hdone.symm.trans hgoing) nofun
    · exact absurd hr (hno u)
  | cut _ hp | rejected _ hp | uncreated _ hp | failed _ _ hp => exact absurd (hdone.symm.trans hp) nofun

/-- The next step of the call of an update commits it as it was taken up, or nothing. -/
theorem Taken.commits {earlier : List Act} {activity : Activity} {c : Call}
    (h : Taken setup acts me i u earlier activity) (hc : (run setup acts).callAt me = some (i, c))
    (hr : c.request = .update u) (env : Environment) :
    (run setup acts).commitsOf i (.advance env me) = [] ∨
      (run setup acts).commitsOf i (.advance env me) = [u.commit activity] := by
  have hown : (run setup acts).commitsOf i (.advance env me) = c.brings OpenBatch.commits env := by
    simp only [commitsOf, bringsOf, hc, if_true]
  rw [hown]
  by_cases hcloses : ∃ batch, c.phase = .closing batch ∧ env.gateOpen = true
  · obtain ⟨batch, hp, hg⟩ := hcloses
    rw [Call.brings_of_closing hp hg, OpenBatch.commits, h.commit batch (by rw [hc, ← hr, ← hp])]
    cases batch.failure.or env.rejected with
    | some error => exact .inl rfl
    | none => exact .inr rfl
  · exact .inl (Call.brings_eq_nil fun batch hp hg => hcloses ⟨batch, hp, hg⟩)

theorem ended_well
    (hended : ⟨i, .update u, .ok answer⟩ ∈ (run setup acts).endings (.advance env me)) :
    ∃ earlier activity w handle, EndedWell setup acts env me i u earlier activity w handle := by
  obtain ⟨earlier, activity, htaken, ⟨w, hw, hrecalls⟩, hnobody⟩ := recalls_ended hended
  obtain ⟨w', hw', hregular, hstatus⟩ := initialized_of_ended hended
  cases hw.symm.trans hw'
  have hthere : w.context.isSome := by
    refine ((hrecalls.context hregular).resolve_right ?_).2
    rw [hstatus]
    nofun
  obtain ⟨handle, hhandle⟩ := Option.isSome_iff_exists.1 hthere
  obtain ⟨s, c, hs, hc, hr, -⟩ := scene_of_ending hended nofun
  exact ⟨earlier, activity, w, handle, htaken, hw, hhandle, hrecalls,
    htaken.commits ((hs.calls me c).1 hc) hr env, hnobody⟩

variable {earlier : List Act} {activity : Activity} {w : Workspace} {handle : ContextHandle}

/-- What is held then is what was committed last. -/
theorem EndedWell.follows (h : EndedWell setup acts env me i u earlier activity w handle) :
    w.baseline.Follows (World.commits setup (acts ++ [.advance env me]) i) :=
  follows_run h.workspace

end World

end SliceSync
