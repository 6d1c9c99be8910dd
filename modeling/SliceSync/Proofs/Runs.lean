import Mathlib.Logic.Function.Basic
import SliceSync.Replay
import SliceSync.Proofs.Passages
/-!
# Runs of a world

A run is any list of acts: workspaces are added, calls begin, jobs are taken ahead in whatever order and
with whatever answers of the collaborators. What becomes of calls and workspaces is seen in the `View` of
a world, which moves by the few kinds of `Move`. `Terms` say what a run may do.
-/

namespace SliceSync

/-- What can happen to a world. -/
inductive Act
  | addWorkspace (slice : Slice)
  /-- A call on the workspace in a place begins. -/
  | call (place : Nat) (request : Request)
  /-- The teardown of a workspace and its driver begins. -/
  | retire (place : Nat) (cause : DisposeCause)
  /-- A call on the host begins. -/
  | host (request : HostRequest)
  /-- A workspace with a driver is created, whatever the host has. -/
  | create (env : Environment) (slice : Slice)
  /-- Somebody begins to send updates. -/
  | send (pair : Nat) (updates : List Update)
  /-- Something is done with the source of updates. -/
  | setSource (source : Source)
  | setActiveConfiguration (slice : Slice)
  | setActiveEditor (slice : Slice)
  | requestUnload (place : Nat) (cause : DisposeCause)
  | claimExit (place : Nat)
  /-- A job takes a step, the collaborators answering as the environment says. -/
  | advance (env : Environment) (me : JobId)

/-- An act is a step of a job or not. -/
theorem Act.step_or_not (a : Act) (me : JobId) : (∀ env, a ≠ .advance env me) ∨ ∃ env, a = .advance env me := by
  by_cases h : ∃ env, a = .advance env me
  · exact .inr h
  · exact .inl fun env ha => h ⟨env, ha⟩

/-- How a call on a workspace ended. -/
structure Ending where
  place : Nat
  request : Request
  result : Except SyncError Answer

/-! ## The call a job is making -/

/-- The call a teardown is making. -/
def Retirement.call? : Retirement → Option Call
  | .disposing c => some c
  | _ => none

/-- The call a call on the host is making, with the place of the workspace. -/
def HostCall.call? : HostCall → Option (Nat × Call)
  | .evicting _ _ i c | .writing _ _ i c => some (i, c)
  | .disposing _ i r | .closing _ i r => r.call?.map (i, ·)
  | _ => none

/-- The call a job is making, with the place of the workspace. -/
def Job.call? : Job → Option (Nat × Call)
  | .call i c => some (i, c)
  | .retire i r => r.call?.map (i, ·)
  | .drive d => d.handing.map (d.workspace, ·)
  | .host c => c.call?
  | .send _ => none

/-! ## Steps of jobs -/

/-- Puts what goes on, or what it has ended with, into something larger. -/
def Onward.bimap {α β ρ σ : Type} (f : α → β) (g : ρ → σ) : Onward α ρ → Onward β σ
  | .going state => .going (f state)
  | .done result => .done (g result)

theorem Onward.bimap_eq_going_iff {α β ρ σ : Type} {f : α → β} {g : ρ → σ} {o : Onward α ρ} {state : β} :
    o.bimap f g = .going state ↔ ∃ before, o = .going before ∧ f before = state := by
  cases o <;> simp [bimap]

theorem Onward.bimap_of_done {α β ρ σ : Type} {f : α → β} {g : ρ → σ} {o : Onward α ρ} {result : ρ}
    (h : o = .done result) : o.bimap f g = .done (g result) := by
  rw [h]
  rfl

namespace World

/-! A job steps as what it does, and goes on as a job of its kind. -/

theorem advanceJob_call (w : World) (env : Environment) (me : JobId) (i : Nat) (c : Call) :
    w.advanceJob env me (.call i c) =
      ((w.advanceCall env me i c).1, (w.advanceCall env me i c).2.bimap (.call i) .answered) := by
  unfold advanceJob
  dsimp only
  generalize w.advanceCall env me i c = r
  obtain ⟨w', going | done⟩ := r <;> rfl

theorem advanceJob_retire (w : World) (env : Environment) (me : JobId) (i : Nat) (r : Retirement) :
    w.advanceJob env me (.retire i r) =
      ((w.advanceRetirement env me i r).1, (w.advanceRetirement env me i r).2.bimap (.retire i) .retired) := by
  unfold advanceJob
  dsimp only
  generalize w.advanceRetirement env me i r = r
  obtain ⟨w', going | done⟩ := r <;> rfl

theorem advanceJob_drive (w : World) (env : Environment) (me : JobId) (d : Driver) :
    w.advanceJob env me (.drive d) = ((w.advanceDriver env me d).1, (w.advanceDriver env me d).2.bimap .drive .drove) := by
  unfold advanceJob
  dsimp only
  generalize w.advanceDriver env me d = r
  obtain ⟨w', going | done⟩ := r <;> rfl

theorem advanceJob_send (w : World) (env : Environment) (me : JobId) (s : Sending) :
    w.advanceJob env me (.send s) = ((w.advanceSending me s).1, (w.advanceSending me s).2.bimap .send .sent) := by
  unfold advanceJob
  dsimp only
  generalize w.advanceSending me s = r
  obtain ⟨w', going | done⟩ := r <;> rfl

theorem advanceJob_host (w : World) (env : Environment) (me : JobId) (c : HostCall) :
    w.advanceJob env me (.host c) = ((w.advanceHost env me c).1, (w.advanceHost env me c).2.bimap .host .hosted) := by
  unfold advanceJob
  dsimp only
  generalize w.advanceHost env me c = r
  obtain ⟨w', going | done⟩ := r <;> rfl

/-- A job goes on as one of its kind. -/
theorem kind_of_going {w : World} {env : Environment} {me : JobId} {job job' : Job}
    (h : (w.advanceJob env me job).2 = .going job') : job'.ctorIdx = job.ctorIdx := by
  cases job with
  | call i c =>
    rw [advanceJob_call] at h
    obtain ⟨_, -, rfl⟩ := Onward.bimap_eq_going_iff.1 h
    rfl
  | retire i r =>
    rw [advanceJob_retire] at h
    obtain ⟨_, -, rfl⟩ := Onward.bimap_eq_going_iff.1 h
    rfl
  | drive d =>
    rw [advanceJob_drive] at h
    obtain ⟨_, -, rfl⟩ := Onward.bimap_eq_going_iff.1 h
    rfl
  | send s =>
    rw [advanceJob_send] at h
    obtain ⟨_, -, rfl⟩ := Onward.bimap_eq_going_iff.1 h
    rfl
  | host c =>
    rw [advanceJob_host] at h
    obtain ⟨_, -, rfl⟩ := Onward.bimap_eq_going_iff.1 h
    rfl

theorem advance_of_none {w : World} {env : Environment} {me : JobId} (h : w.job? me = none) : w.advance env me = w := by
  simp [advance, h]

/-- Beside what the job does, a step changes who is at work and which outcomes are noted. -/
theorem advance_eq {w : World} {me : JobId} {job : Job} (env : Environment) (hj : w.job? me = some job) :
    ∃ jobs outcomes, w.advance env me = { (w.advanceJob env me job).1 with jobs, outcomes } := by
  unfold advance
  rw [hj]
  dsimp only
  generalize w.advanceJob env me job = r
  obtain ⟨w', job' | outcome⟩ := r <;> exact ⟨_, _, rfl⟩

/-- Who is at work after a step was at work when the job had done its part, or is the job itself, gone on. -/
theorem mem_jobs_advance {w : World} {env : Environment} {me : JobId} {job : Job} {e : JobId × Job}
    (hj : w.job? me = some job) (he : e ∈ (w.advance env me).jobs) :
    e ∈ (w.advanceJob env me job).1.jobs ∨
      ∃ job', (w.advanceJob env me job).2 = .going job' ∧ e = (me, job') := by
  unfold advance at he
  rw [hj] at he
  dsimp only at he
  generalize w.advanceJob env me job = r at he ⊢
  obtain ⟨w', job' | outcome⟩ := r
  · obtain ⟨d, hd, rfl⟩ := List.mem_map.1 he
    split
    · exact .inr ⟨job', rfl, rfl⟩
    · exact .inl hd
  · exact .inl ((List.mem_filter.1 he).1)

/-- No number is given to a second job by a step. -/
theorem nodup_jobs_advance {w : World} {env : Environment} {me : JobId} {job : Job} (hj : w.job? me = some job)
    (h : ((w.advanceJob env me job).1.jobs.map (·.1)).Nodup) : ((w.advance env me).jobs.map (·.1)).Nodup := by
  unfold advance
  rw [hj]
  dsimp only
  generalize w.advanceJob env me job = r at h ⊢
  obtain ⟨w', job' | outcome⟩ := r
  · have hids : (w'.jobs.map fun e => if e.1 = me then (me, job') else e).map (·.1) = w'.jobs.map (·.1) := by
      rw [List.map_map]
      refine List.map_congr_left fun e _ => ?_
      show (if e.1 = me then (me, job') else e).1 = e.1
      split
      · rename_i he
        exact he.symm
      · rfl
    exact hids ▸ h
  · exact h.sublist (List.filter_sublist.map _)

/-- A sender does nothing but to the source. -/
theorem advanceSending_eq (w : World) (me : JobId) (s : Sending) :
    ∃ source, (w.advanceSending me s).1 = { w with source } := by
  unfold advanceSending
  split
  · exact ⟨_, rfl⟩
  · split
    · exact ⟨_, rfl⟩
    · exact ⟨_, rfl⟩
    · split <;> exact ⟨_, rfl⟩

/-- The call that the job of a number is making. -/
def callAt (w : World) (me : JobId) : Option (Nat × Call) := (w.job? me).bind Job.call?

/-- The world after an act. -/
def perform (w : World) : Act → World
  | .addWorkspace slice => w.addWorkspace slice
  | .call place request => w.spawn (.call place (.start request))
  | .retire place cause => w.spawn (.retire place (beginRetirement cause))
  | .host request => w.spawn (.host (.starting request))
  | .create env slice => (w.createHosted env slice).1
  | .send pair updates => w.spawn (.send { pair, pending := updates })
  | .setSource source => { w with source }
  | .setActiveConfiguration slice => w.setActiveConfiguration slice
  | .setActiveEditor slice => w.setActiveEditor slice
  | .requestUnload place cause => w.requestUnload place cause
  | .claimExit place => w.claimExit place
  | .advance env me => w.advance env me

/-- Claiming an exit takes note of the claim beside a workspace, and leaves the workspace and all else as it is. -/
theorem perform_claimExit (w : World) (place : Nat) :
    ∃ hosted, w.perform (.claimExit place) = { w with hosted } ∧
      hosted.map (·.workspace) = w.hosted.map (·.workspace) := by
  refine ⟨_, rfl, List.ext_getElem? fun j => ?_⟩
  rw [List.getElem?_map, List.getElem?_map, List.getElem?_modify]
  by_cases hij : place = j <;> cases w.hosted[j]? <;> simp [hij]

/-- The call on a workspace that an act ends, if it ends one. -/
def endings (w : World) : Act → List Ending
  | .advance env me =>
    match w.callAt me with
    | none => []
    | some (i, c) =>
      match (w.advanceCall env me i c).2 with
      | .going _ => []
      | .done result => [⟨i, c.request, result⟩]
  | _ => []

/-- The world after some acts. -/
def runFrom (w : World) (acts : List Act) : World := acts.foldl perform w

/-- The world after some acts, from the beginning. -/
def run (setup : Setup) (acts : List Act) : World := runFrom (.initial setup) acts

/-- How the calls on workspaces ended during some acts, in order. -/
def endingsFrom (w : World) : List Act → List Ending
  | [] => []
  | a :: rest => w.endings a ++ endingsFrom (w.perform a) rest

/-- How the calls on workspaces have ended, in order. -/
def history (setup : Setup) (acts : List Act) : List Ending := endingsFrom (.initial setup) acts

/-- The calls a context has received. -/
def callsOf (w : World) (serial : Nat) : List ContextCall := Event.callsOf serial w.events

end World

/-! ## The terms of a run -/

/-- Whether a request writes. -/
def Request.isWrite : Request → Bool
  | .write _ => true
  | _ => false

/-- Whether a call on the host is to write. -/
def HostRequest.isWrite : HostRequest → Bool
  | .writeActive .. => true
  | _ => false

/-- Whether a call on the host has a write before it. -/
def HostCall.isWriting : HostCall → Bool
  | .starting request => request.isWrite
  | .queued (.target ..) | .writing .. => true
  | _ => false

/-- Whether a job has a write before it that has not begun. -/
def Job.isWriting : Job → Bool
  | .host c => c.isWriting
  | _ => false

/-- What is agreed on for a run. -/
structure Terms where
  setup : Setup
  /-- Whether there are writes. -/
  writes : Prop
  /-- How the collaborators may answer. -/
  fits : Environment → Prop

/-- The terms of a run of evaluations and builds in which no batch is rejected. -/
def Terms.plain (setup : Setup) : Terms := ⟨setup, False, fun env => env.rejected = none⟩

/-- Whoever fails keeps to the error that is meant for its role. -/
structure Environment.InKind (env : Environment) : Prop where
  refused : ∀ error, env.refused = some error → ∃ message, error = .contextCreation message
  replied : ∀ call error, (env.reply call).error? call.name = some error → ∃ name message, error = .handler name message
  rejected : ∀ error, env.rejected = some error → ∃ message, error = .batch message

theorem Environment.inKind_default : ({} : Environment).InKind := ⟨nofun, nofun, nofun⟩

/-- A rejection that is only described keeps to its kind. -/
theorem Environment.inKind_of_rejection (message : String) : ({ rejection := some message } : Environment).InKind :=
  ⟨nofun, nofun, fun _ h => ⟨message, (Option.some.inj h).symm⟩⟩

/-- The terms of a run in which all collaborators keep to the errors meant for them. -/
def Terms.inKind (setup : Setup) : Terms := ⟨setup, True, Environment.InKind⟩

/-- Whether the terms bind the collaborators to the errors meant for them. -/
def Terms.Kinds (t : Terms) : Prop := ∀ env, t.fits env → env.InKind

/-- An act keeps to the terms. -/
def Act.Within (t : Terms) : Act → Prop
  | .call _ request => request.isWrite → t.writes
  | .host request => request.isWrite → t.writes
  | .advance env _ => t.fits env
  | _ => True

/-- A world keeps to the terms. -/
structure World.Keeps (t : Terms) (w : World) : Prop where
  setup : w.setup = t.setup
  /-- The next job's number is a new one. -/
  fresh : ∀ e ∈ w.jobs, e.1 < w.nextJob
  writes : ∀ e ∈ w.jobs, e.2.isWriting → t.writes

/-! ## The view of a world -/

/-- What a world shows of its workspaces. -/
structure View where
  session : Session
  workspaces : List Workspace
  /-- The calls under way, with the places of their workspaces. -/
  calls : JobId → Option (Nat × Call)
  log : List Entry

namespace View

/-- The view in which a job makes this call. -/
def withCall (v : View) (me : JobId) (call : Option (Nat × Call)) : View :=
  { v with calls := Function.update v.calls me call }

/-- The view after a step of the call that a job makes. -/
def after (v : View) (me : JobId) (i : Nat) (a : Advance) : View where
  session := a.session
  workspaces := v.workspaces.set i a.workspace
  calls := Function.update v.calls me <|
    match a.progress with
    | .going c => some (i, c)
    | .done _ => none
  log := v.log ++ a.events.map fun event => ⟨me, i, event⟩

/-- The view with more workspaces. -/
def adding (v : View) (slices : List Slice) : View :=
  { v with workspaces := v.workspaces ++ slices.map fun slice => { slice } }

end View

/-- How a step of a call ends it, if it does. -/
def Advance.endings (i : Nat) (request : Request) (a : Advance) : List Ending :=
  match a.progress with
  | .going _ => []
  | .done result => [⟨i, request, result⟩]

theorem Advance.mem_endings_iff {i : Nat} {request : Request} {a : Advance} {e : Ending} :
    e ∈ a.endings i request ↔ ∃ result, a.progress = .done result ∧ e = ⟨i, request, result⟩ := by
  unfold endings
  cases a.progress <;> simp

theorem Advance.mem_endings {i : Nat} {request : Request} {a : Advance} {e : Ending}
    (h : e ∈ a.endings i request) : e.place = i := by
  obtain ⟨_, -, rfl⟩ := mem_endings_iff.1 h
  rfl

/-- The ways an act can move the view, with the calls it ends. -/
inductive Move (t : Terms) (v : View) : View → List Ending → Prop
  /-- Nothing is seen of it, but for new workspaces. -/
  | adds (slices : List Slice) : Move t v (v.adding slices) []
  | activates (active : ActiveSlices) : Move t v { v with session := { v.session with active } } []
  /-- Unload is requested. -/
  | unloads {i : Nat} {ws : Workspace} (cause : DisposeCause) (hw : v.workspaces[i]? = some ws) :
      Move t v { v with workspaces := v.workspaces.set i { ws with unload := ws.unload.cancel cause } } []
  /-- A job that makes no call begins one. -/
  | begins {me : JobId} {i : Nat} {request : Request} (hc : v.calls me = none)
      (hr : request.isWrite → t.writes) : Move t v (v.withCall me (some (i, .start request))) []
  /-- A call finds no workspace. -/
  | misses {me : JobId} {i : Nat} {c : Call} (slices : List Slice) (hc : v.calls me = some (i, c))
      (hw : v.workspaces[i]? = none) :
      Move t v ((v.withCall me none).adding slices) [⟨i, c.request, .error .disposed⟩]
  /-- A call takes a step. -/
  | steps {env : Environment} {me : JobId} {i : Nat} {c : Call} {ws : Workspace} (slices : List Slice)
      (he : t.fits env) (hc : v.calls me = some (i, c)) (hw : v.workspaces[i]? = some ws) :
      Move t v ((v.after me i (c.advance t.setup env me v.session ws)).adding slices)
        ((c.advance t.setup env me v.session ws).endings i c.request)

@[simp] theorem View.adding_nil (v : View) : v.adding [] = v := by simp [View.adding]

@[simp] theorem View.withCall_self {v : View} {me : JobId} {call : Option (Nat × Call)}
    (h : v.calls me = call) : v.withCall me call = v := by
  simp [View.withCall, ← h]

end SliceSync
