import Mathlib.Data.List.Infix
import SliceSync.Proofs.Differences
import SliceSync.Proofs.Underway
import SliceSync.Proofs.Owing
import SliceSync.Proofs.SourceItems
/-!
# Redelivery

An update that has ended well is known to its workspace: what it says is what is held. It stays known while the
activity stays the same and only updates of the other kind are integrated, because each kind keeps its own part of
the baseline and both note the same activity. So the update that comes again is skipped, and counts as processed.

Main statement: `World.redelivered`.
-/

namespace SliceSync

/-! ## What is known -/

theorem Change.hasChanges_rebase_after (c : Change) : (c.rebase c.after).hasChanges = false := by
  simp [hasChanges, difference, rebase, Difference.isEmpty_between_self]

namespace Workspace

/-- Under an activity a payload says nothing that is not held. -/
def KnowsUnder (w : Workspace) (x : Payload) (activity : Activity) : Prop :=
  match x with
  | .evaluation e => w.Knows e activity
  | .build b => w.KnowsBuild b activity

variable {w w' : Workspace} {x : Payload} {activity : Activity} {u : Update}

theorem KnowsUnder.noted (h : w.KnowsUnder x activity) : w.baseline.activity = some activity := by
  cases x with
  | evaluation e => exact Knows.activity h
  | build b => exact KnowsBuild.activity h

/-- What arrives as it is held changes nothing. -/
theorem hasChanges_rebased {held : NameMap Snapshot} {name : String} {change : Change}
    (h : held.get? name = some change.after) : (rebased held name change).hasChanges = false := by
  rw [rebased, h]
  exact change.hasChanges_rebase_after

/-- What is known is for the baseline to say. -/
theorem KnowsUnder.congr (h : w.KnowsUnder x activity) (hb : w'.baseline = w.baseline) : w'.KnowsUnder x activity := by
  cases x with
  | evaluation e =>
    have h : w.Knows e activity := h
    have hrules : w'.seenRules e = w.seenRules e := by rw [seenRules, seenRules, hb]
    have hitems : w'.seenItems e = w.seenItems e := by rw [seenItems, seenItems, hb]
    exact ⟨hrules ▸ h.rules, hitems ▸ h.items, hb ▸ h.activity⟩
  | build b =>
    have h : w.KnowsBuild b activity := h
    exact ⟨hb ▸ h.arguments, hb ▸ h.outcome, hb ▸ h.activity⟩

/-- An update that has been integrated is known. -/
theorem knowsUnder_commit (w : Workspace) (u : Update) (activity : Activity) :
    (w.commit (u.commit activity)).1.KnowsUnder u.payload activity := by
  cases hu : u.payload with
  | evaluation e =>
    have hcommit : u.commit activity = .ofEvaluation u.versions e activity := by rw [Update.commit, hu]
    rw [hcommit]
    refine ⟨fun change hchange => ?_, fun change hchange => ?_, rfl⟩
    · obtain ⟨⟨name, change⟩, hmem, rfl⟩ := List.mem_map.1 hchange
      have hget := NameMap.mem_toList_iff.1 hmem
      rw [seenRules, NameMap.get?_mapValues] at hget
      obtain ⟨arrived, harrived, rfl⟩ := Option.map_eq_some_iff.1 hget
      refine hasChanges_rebased ?_
      show (w.baseline.rules.insertAll (e.rules.mapValues fun _ c => c.after).toList).get? name = _
      rw [NameMap.get?_insertAll_toList, NameMap.get?_mapValues, harrived]
      rfl
    · obtain ⟨name, hget⟩ := Listing.mem_values_iff.1 hchange
      rw [seenItems, Listing.get?_mapValues] at hget
      obtain ⟨arrived, harrived, rfl⟩ := Option.map_eq_some_iff.1 hget
      refine hasChanges_rebased ?_
      show (w.baseline.items.insertAll e.delivered.toList).get? name = _
      rw [NameMap.get?_insertAll_toList, e.get?_delivered, harrived]
      rfl
  | build b =>
    have hcommit : u.commit activity = .build u.versions b.arguments activity := by rw [Update.commit, hu]
    rw [hcommit]
    exact ⟨ArgumentDifference.isEmpty_between_iff.2 fun _ => .rfl, rfl, rfl⟩

/-- What is known stays known when an update of the other kind has been integrated. -/
theorem KnowsUnder.commit_other (h : w.KnowsUnder x activity) {versions : Versions}
    (hk : u.kind ≠ (⟨versions, x⟩ : Update).kind) : (w.commit (u.commit activity)).1.KnowsUnder x activity := by
  cases hu : u.payload with
  | evaluation e =>
    have hcommit : u.commit activity = .ofEvaluation u.versions e activity := by rw [Update.commit, hu]
    rw [hcommit]
    cases x with
    | evaluation e' => exact absurd (by simp [Update.kind, hu]) hk
    | build b =>
      have h : w.KnowsBuild b activity := h
      exact ⟨h.arguments, h.outcome, rfl⟩
  | build b =>
    have hcommit : u.commit activity = .build u.versions b.arguments activity := by rw [Update.commit, hu]
    rw [hcommit]
    cases x with
    | evaluation e =>
      have h : w.Knows e activity := h
      exact ⟨h.rules, h.items, rfl⟩
    | build b' => exact absurd (by simp [Update.kind, hu]) hk

/-- A payload has been integrated, and under an activity says nothing new. -/
structure Recalls (w : Workspace) (x : Payload) (activity : Activity) : Prop where
  known : w.KnowsUnder x activity
  built : ∀ b, x = .build b → w.buildIntegrated = true

theorem Recalls.congr (h : w.Recalls x activity) (hb : w'.baseline = w.baseline)
    (hs : w.buildIntegrated = true → w'.buildIntegrated = true) : w'.Recalls x activity :=
  ⟨h.known.congr hb, fun b hx => hs (h.built b hx)⟩

/-- Being skipped again changes nothing. -/
theorem Recalls.skipping_eq (h : w.Recalls x activity) : w.skipping x = w := by
  cases x with
  | evaluation e => rfl
  | build b =>
    have hb := h.built b rfl
    cases w
    cases hb
    rfl

theorem recalls_commit (w : Workspace) (u : Update) (activity : Activity) :
    (w.commit (u.commit activity)).1.Recalls u.payload activity := by
  refine ⟨knowsUnder_commit w u activity, fun b hu => ?_⟩
  rw [Update.commit, hu]
  rfl

theorem Recalls.commit_other (h : w.Recalls x activity) {versions : Versions}
    (hk : u.kind ≠ (⟨versions, x⟩ : Update).kind) : (w.commit (u.commit activity)).1.Recalls x activity := by
  refine ⟨h.known.commit_other hk, fun b hx => ?_⟩
  have hb := h.built b hx
  rw [Update.commit]
  cases u.payload with
  | evaluation e => exact hb
  | build b' => rfl

variable {setup : Setup} {env : Environment} {session : Session} {handle : ContextHandle} {p : Passage}

/-- What is held is held for a context, unless it has been taken away for good. -/
theorem Recalls.context (h : w.Recalls x activity) (hr : w.Regular) :
    w.status = .initialized ∧ w.context.isSome ∨ w.status = .disposed :=
  hr.integrated (hr.held (by rw [h.known.noted]; rfl))

/-- An update that gets the lock changes nothing that is recalled; that is for the closing of its batch. -/
theorem Receives.recalls (hp : w.Receives setup env session u p) (hr : w.Regular) (h : w.Recalls x activity) :
    p.workspace.Recalls x activity := by
  have baseline : (w.enroll setup u).1.baseline = w.baseline := enroll_baseline u
  have built : (w.enroll setup u).1.buildIntegrated = w.buildIntegrated := enroll_buildIntegrated u
  cases hp with
  | refused => exact h
  | creates ha hu hc =>
    -- the context has been there since the payload was integrated
    rcases h.context hr with ⟨-, hsome⟩ | hd
    · rw [hc] at hsome
      cases hsome
    · rcases admits_eq_ok_iff.1 ha with hs | hs <;> exact absurd (hs.symm.trans hd) nofun
  | uncreated | skips | applies | misses | appliesBuild => exact h.congr baseline fun hb => built.trans hb
  | skipsBuild => exact h.congr baseline fun _ => rfl

/-- What is recalled is skipped when it comes again. -/
theorem receive_recalled (hs : w.status = .initialized) (hc : w.context.isSome) (h : w.Recalls x activity)
    (ha : session.active.activityOf w.slice = activity) (versions : Versions) :
    w.receive setup env session ⟨versions, x⟩ = ⟨session, w, w.tell versions, .finished (.ok .done)⟩ := by
  obtain ⟨handle, hhandle⟩ := Option.isSome_iff_exists.1 hc
  rw [receive_of_admits (admits_eq_ok_iff.2 (.inr hs)), enroll_of_initialized hs]
  have hskipping := h.skipping_eq
  have hknown := h.known
  subst ha
  cases x with
  | evaluation e =>
    dsimp only
    rw [receiveEvaluation_some hhandle, evaluate_of_knows hknown]
    rfl
  | build b =>
    dsimp only
    rw [receiveBuild_of_knows hknown]
    exact congrArg (fun w' => (⟨session, w', w.tell versions, .finished (.ok .done)⟩ : Passage)) hskipping

/-- An update that is skipped is recalled. -/
theorem Receives.recalls_of_finished (hp : w.Receives setup env session u p) {answer : Answer}
    (hh : p.held = .finished (.ok answer)) : p.workspace.Recalls u.payload (session.active.activityOf w.slice) := by
  have baseline : (w.enroll setup u).1.baseline = w.baseline := enroll_baseline u
  cases hp with
  | skips ha hu hc hk =>
    rw [hu]
    exact ⟨KnowsUnder.congr (x := .evaluation _) hk baseline, nofun⟩
  | skipsBuild ha hu hk =>
    rw [hu]
    exact ⟨KnowsUnder.congr (x := .build _) hk baseline, fun _ _ => rfl⟩
  | refused | uncreated | creates | applies | misses | appliesBuild => cases hh

/-- An update whose batch closes well is recalled. -/
theorem recalls_of_close {batch : OpenBatch} (hb : batch.commit = u.commit activity) {answer : Answer}
    (hh : (w.close env session batch).held = .finished (.ok answer)) :
    (w.close env session batch).workspace.Recalls u.payload activity := by
  unfold close at hh ⊢
  cases hresult : batch.failure.or env.rejected with
  | some error =>
    rw [hresult] at hh
    cases hh
  | none =>
    rw [hb]
    exact recalls_commit w u activity

end Workspace

/-- A request that gets the lock changes nothing that is recalled. -/
theorem Request.passage_recalls {setup : Setup} {env : Environment} {session : Session} {w : Workspace}
    {request : Request} {x : Payload} {activity : Activity} (hr : w.Regular) (h : w.Recalls x activity) :
    (request.passage setup env session w).workspace.Recalls x activity := by
  have hp := request.enters setup env session w
  generalize request.passage setup env session w = p at hp ⊢
  cases hp with
  | receives hp => exact hp.recalls hr h
  | refuses | lacks | writes | gone | answers => exact h
  | releases | departs => exact h.congr rfl id

/-- An update that is at the lock gets it. -/
theorem Call.Paths.at_lock {setup : Setup} {env : Environment} {me : JobId} {c : Call} {session : Session}
    {w : Workspace} {a : Advance} (h : c.Paths setup env me session w a) {u : Update} (hr : c.request = .update u)
    (hu : w.unload.cause = none)
    (hl : c.phase = .entering ∧ w.lock.holder = none ∨ c.phase = .queued ∧ w.lock.holder = some me) :
    ∃ lock, a = c.conclude setup ({ w with lock }.receive setup env session u) := by
  have holds : c.phase.holds = false := by rcases hl with ⟨hp, -⟩ | ⟨hp, -⟩ <;> rw [hp] <;> rfl
  cases h with
  | stays hs =>
    rcases hl with ⟨hp, -⟩ | ⟨hp, hh⟩
    · simp [Call.isStuck, hp] at hs
    · simp [Call.isStuck, hp, hh, Lock.isHeldBy] at hs
  | yields _ _ hcause => cases hu.symm.trans hcause
  | despairs hp' | passes hp' => rcases hl with ⟨hp, -⟩ | ⟨hp, -⟩ <;> cases hp.symm.trans hp'
  | learns _ _ hsame => rcases hsame with ⟨hsame, -⟩ | ⟨hsame, -⟩ <;> cases hr.symm.trans hsame
  | queues hp' hh' =>
    rcases hl with ⟨-, hh⟩ | ⟨hp, -⟩
    · cases hh.symm.trans hh'
    · cases hp.symm.trans hp'
  | enters =>
    refine ⟨{ w.lock with holder := some me }, ?_⟩
    rw [hr]
    rfl
  | succeeds => exact ⟨w.lock, by rw [hr]; rfl⟩
  | closes hp' => simp [hp', Phase.holds] at holds
  | parts hp' => simp [hp', Phase.holds] at holds

/-- An update that waits for the first evaluation goes on when it has come. -/
theorem Call.Paths.comes {setup : Setup} {env : Environment} {me : JobId} {c : Call} {session : Session}
    {w : Workspace} {a : Advance} (h : c.Paths setup env me session w a) {u : Update} (hr : c.request = .update u)
    (hu : w.unload.cause = none) (hp : c.phase = .awaitingEvaluation) (he : w.evaluation = .integrated) :
    a = ⟨session, w, [], .going { c with phase := .entering }⟩ := by
  cases h with
  | stays hs => simp [Call.isStuck, hp, he] at hs
  | yields _ _ hcause => cases hu.symm.trans hcause
  | despairs _ _ he' => cases he.symm.trans he'
  | learns _ _ hsame => rcases hsame with ⟨hsame, -⟩ | ⟨hsame, -⟩ <;> cases hr.symm.trans hsame
  | passes => rfl
  | queues hp' | enters hp' | succeeds hp' | closes hp' | parts hp' => cases hp.symm.trans hp'

namespace Scene

variable {t : Terms} {i : Nat} {s s' : Scene} {past ended : List Ending} {u : Update} {activity : Activity}

/-- What is recalled is recalled after a step that integrates no update of its kind, if updates of the other kind
have been taken up under the same activity. -/
theorem Orderly.recalls_step (h : s.Orderly past) (hs : Step t i s s' ended)
    (hr : s.workspace.Recalls u.payload activity)
    (hb : ∀ {me c batch}, s.calls me = some c → c.phase = .closing batch → ∀ v, c.request = .update v →
      batch.commit = v.commit activity)
    (ho : ∀ e ∈ ended, ∀ v, e.request = .update v → v.kind = u.kind → ∃ error, e.result = .error error) :
    s'.workspace.Recalls u.payload activity := by
  rcases h.cases_step hs with ⟨⟨unload, hw⟩, -⟩ | ⟨env, me, c, session, a, -, hc, hgoes, rfl, rfl⟩
  · rw [hw]
    exact hr.congr rfl id
  · cases hgoes with
    | quiet _ hw =>
      obtain ⟨lock, unload, hw⟩ := hw
      rw [after_workspace, hw]
      exact hr.congr rfl id
    | @passes p lock unload _ _ _ _ hk =>
      obtain ⟨last, hlast⟩ := s.workspace_after_conclude t.setup me c p
      rw [hlast]
      suffices hp : p.workspace.Recalls u.payload activity from hp.congr rfl id
      rcases hk with ⟨-, rfl⟩ | ⟨batch, hphase, -, rfl⟩ | ⟨handle, -, -, rfl⟩
      · exact Request.passage_recalls (h.regular.with_lock lock unload) (hr.congr rfl id)
      · have hends : ⟨i, c.request, batch.result env⟩ ∈
            (c.conclude t.setup (s.workspace.close env session batch)).endings i c.request :=
          Call.mem_endings_conclude.2 ⟨_, Workspace.close_result .., rfl⟩
        have hsuits := (h.fit hc).closing hphase
        unfold Workspace.close
        dsimp only
        cases hresult : batch.failure.or env.rejected with
        | some error => exact hr
        | none =>
          have hok : batch.result env = .ok batch.commit.answer := by rw [OpenBatch.result, hresult]
          cases hrequest : c.request with
          | update v =>
            -- it integrates an update, so of the other kind
            have hkind : v.kind ≠ u.kind := by
              intro heq
              obtain ⟨error, herror⟩ := ho _ hends v hrequest heq
              exact absurd (hok.symm.trans herror) nofun
            rw [hb hc hphase v hrequest]
            exact hr.commit_other hkind
          | write mutations =>
            rw [hrequest] at hsuits
            cases hcommit : batch.commit with
            | write id => exact hr
            | _ =>
              rw [hcommit] at hsuits
              cases hsuits
          | _ =>
            rw [hrequest] at hsuits
            cases hcommit : batch.commit <;> rw [hcommit] at hsuits <;> cases hsuits
      · exact hr.congr rfl id

/-- An update is an evaluation or a build. -/
theorem not_update_of_neither {request : Request} (h : request.isEvaluation = false ∧ request.isBuild = false)
    (u : Update) : request ≠ .update u := by
  rintro rfl
  obtain ⟨he, hb⟩ := h
  cases hu : u.payload <;> simp [Request.isEvaluation, Request.isBuild, Update.kind, hu] at he hb

/-- When an update has ended well nobody is under the lock. -/
theorem Goes.nobody_after {env : Environment} {me : JobId} {c : Call} {session : Session} {a : Advance}
    (hgoes : Goes t env s me c session a) (hr : c.request = .update u) {answer : Answer}
    (hdone : a.progress = .done (.ok answer)) {job : JobId} {c' : Call}
    (hjob : (s.after me a).calls job = some c') : c'.phase.holds = false := by
  have hne : job ≠ me := by
    rintro rfl
    exact absurd (hdone.symm.trans (after_calls_self.1 hjob)) nofun
  rw [after_calls_of_ne _ _ hne] at hjob
  cases hgoes with
  | quiet _ _ _ _ hends =>
    -- an update that ends well has had the lock
    exact absurd hr (not_update_of_neither ((hends _ hdone).2 answer rfl) u)
  | passes lock unload hme =>
    cases hp : c'.phase.holds with
    | false => rfl
    | true => exact absurd (hme hjob hp) hne

end Scene

/-! ## Runs -/

namespace World

variable {setup : Setup} {start during between acts : List Act} {i : Nat} {me : JobId} {u : Update}
  {activity : Activity} {env : Environment} {w : Workspace}

/-- The update of a call got the lock after some acts, the slice being of this activity to the session, and has not
given it up since. -/
structure Taken (setup : Setup) (acts : List Act) (me : JobId) (i : Nat) (u : Update) (earlier : List Act)
    (activity : Activity) : Prop where
  within : earlier <+: acts
  before : ∃ c, (run setup earlier).callAt me = some (i, c) ∧ c.request = .update u ∧ c.phase.holds = false
  since : ∀ part, part ≠ [] → earlier ++ part <+: acts →
    ∃ batch, (run setup (earlier ++ part)).callAt me = some (i, ⟨.update u, .closing batch⟩)
  taken : (run setup earlier).activityAt i = some activity
  commit : ∀ batch, (run setup acts).callAt me = some (i, ⟨.update u, .closing batch⟩) →
    batch.commit = u.commit activity

/-- A batch under way was taken up when it was opened. -/
theorem Underway.taken {o : Origin} {batch : OpenBatch} (ho : Underway setup acts i me (.update u) batch o)
    (hc : (run setup acts).callAt me = some (i, ⟨.update u, .closing batch⟩)) :
    ∃ activity, Taken setup acts me i u o.earlier activity := by
  obtain ⟨w, lock, unload, hw, hfound⟩ := ho.found
  have ha : (run setup o.earlier).activityAt i = some ((run setup o.earlier).session.active.activityOf w.slice) := by
    rw [activityAt, hw]
    rfl
  refine ⟨_, ⟨_, ho.split.symm⟩, ho.before, fun part hne hpart => ?_, ha, fun batch' hc' => ?_⟩
  · rw [ho.split, Origin.acts, List.prefix_append_right_inj] at hpart
    cases part with
    | nil => exact absurd rfl hne
    | cons a part =>
      obtain ⟨rfl, hduring⟩ := List.cons_prefix_cons.1 hpart
      exact ⟨batch, ho.since part hduring⟩
  · cases hc.symm.trans hc'
    exact ho.commit ha

/-- An update that is about to get the lock is taken up now. -/
theorem taken_now {c : Call} (hc : (run setup acts).callAt me = some (i, c)) (hr : c.request = .update u)
    (hbefore : c.phase.holds = false) (ha : (run setup acts).activityAt i = some activity) :
    Taken setup acts me i u acts activity := by
  refine ⟨List.prefix_rfl, ⟨c, hc, hr, hbefore⟩, fun part hne hpart => ?_, ha, fun batch hclosing => ?_⟩
  · have hle := hpart.length_le
    rw [List.length_append] at hle
    exact absurd (List.eq_nil_of_length_eq_zero (by omega)) hne
  · cases hc.symm.trans hclosing
    cases hbefore

/-- Who was not under the lock at some time has taken its update up since. -/
theorem Taken.earlier_eq {earlier : List Act} (h : Taken setup (start ++ during) me i u earlier activity)
    (hbefore : ∀ c, (run setup start).callAt me = some (i, c) → c.phase.holds = false) :
    ∃ part, part <+: during ∧ earlier = start ++ part := by
  rcases List.prefix_or_prefix_of_prefix h.within (List.prefix_append start during) with ⟨part, rfl⟩ | ⟨part, rfl⟩
  · cases part with
    | nil => exact ⟨[], List.nil_prefix, by simp⟩
    | cons a part =>
      obtain ⟨batch, hc⟩ := h.since (a :: part) nofun (List.prefix_append ..)
      exact absurd (hbefore _ hc) nofun
  · exact ⟨part, (List.prefix_append_right_inj start).1 h.within, rfl⟩

/-- So it was taken up under the activity that the slice has had since that time. -/
theorem Taken.activity_eq {earlier : List Act} {taken : Activity}
    (h : Taken setup (start ++ during) me i u earlier taken)
    (hbefore : ∀ c, (run setup start).callAt me = some (i, c) → c.phase.holds = false)
    (ha : ∀ part, part <+: during → (run setup (start ++ part)).activityAt i = some activity) : taken = activity := by
  obtain ⟨part, hpart, rfl⟩ := h.earlier_eq hbefore
  exact Option.some.inj (h.taken.symm.trans (ha part hpart))

/-- An update that has ended well is recalled under the activity under which it was taken up; nobody is under the lock
then. -/
theorem recalls_ended {answer : Answer}
    (hended : ⟨i, .update u, .ok answer⟩ ∈ (run setup acts).endings (.advance env me)) :
    ∃ earlier activity, Taken setup acts me i u earlier activity ∧
      (∃ w, (run setup (acts ++ [.advance env me])).workspace? i = some w ∧ w.Recalls u.payload activity) ∧
      ∀ job c, (run setup (acts ++ [.advance env me])).callAt job = some (i, c) → c.phase.holds = false := by
  obtain ⟨s, c, hs, hc, hr, hdone, hs'⟩ := scene_of_ending hended (by simp)
  have h := (audited_run hs).toOrderly
  have hcall := (hs.calls me c).1 hc
  have hgoes := h.goes (t := freely setup) hc
    (Call.paths setup env me (run setup acts).session s.workspace (h.fit hc))
  change Scene.Goes (freely setup) env s me c _ (c.advance setup env me _ _) at hgoes
  have hnow : (run setup acts).activityAt i = some ((run setup acts).session.active.activityOf s.workspace.slice) := by
    rw [activityAt, workspace_of_scene hs]
    rfl
  generalize hsession : (run setup acts).session = session at hgoes hdone hs' hnow
  generalize c.advance setup env me session s.workspace = a at hgoes hdone hs'
  have hnobody (job : JobId) (c' : Call)
      (hjob : (run setup (acts ++ [Act.advance env me])).callAt job = some (i, c')) : c'.phase.holds = false :=
    hgoes.nobody_after hr hdone ((hs'.calls job c').2 hjob)
  suffices hsuff : ∃ earlier activity, Taken setup acts me i u earlier activity ∧
      (s.after me a).workspace.Recalls u.payload activity by
    obtain ⟨earlier, activity, htaken, hrecalls⟩ := hsuff
    exact ⟨earlier, activity, htaken, ⟨_, workspace_of_scene hs', hrecalls⟩, hnobody⟩
  cases hgoes with
  | quiet _ _ _ _ hends =>
    exact absurd hr (Scene.not_update_of_neither ((hends _ hdone).2 answer rfl) u)
  | @passes p lock unload _ _ _ _ hk =>
    obtain ⟨last, hlast⟩ := s.workspace_after_conclude setup me c p
    rw [show (s.after me (c.conclude (freely setup).setup p)).workspace = _ from hlast]
    suffices hp : ∃ earlier activity, Taken setup acts me i u earlier activity ∧
        p.workspace.Recalls u.payload activity by
      obtain ⟨earlier, activity, htaken, hrecalls⟩ := hp
      exact ⟨earlier, activity, htaken, hrecalls.congr rfl id⟩
    have hheld : p.held = .finished (.ok answer) := Call.finished_of_done hdone
    rcases hk with ⟨hbefore, rfl⟩ | ⟨batch, hphase, -, rfl⟩ | ⟨handle, hphase, -, -⟩
    · -- it was passed over as soon as it got the lock
      rw [hr] at hheld ⊢
      exact ⟨acts, _, taken_now hcall hr hbefore hnow, (Workspace.receives u).recalls_of_finished hheld⟩
    · -- it was taken up when its batch was opened
      obtain ⟨o, ho⟩ := underway hcall hphase
      obtain ⟨request, phase⟩ := c
      subst hr hphase
      obtain ⟨activity, htaken⟩ := ho.taken hcall
      exact ⟨o.earlier, activity, htaken, Workspace.recalls_of_close (htaken.commit batch hcall) hheld⟩
    · obtain ⟨cause, hdispose⟩ := (h.fit hc).releasing hphase
      cases hr.symm.trans hdispose

/-- What is recalled while nobody is under the lock is recalled as long as the activity stays the same and no update
of its kind ends well. -/
theorem recalls_along (hbefore : ∀ job c, (run setup start).callAt job = some (i, c) → c.phase.holds = false)
    (hw : ∃ w, (run setup start).workspace? i = some w ∧ w.Recalls u.payload activity)
    (ha : ∀ part, part <+: between → (run setup (start ++ part)).activityAt i = some activity)
    (ho : ∀ e ∈ endingsFrom (run setup start) between, e.place = i → ∀ v, e.request = .update v →
      v.kind = u.kind → ∃ error, e.result = .error error) :
    ∃ w, (run setup (start ++ between)).workspace? i = some w ∧ w.Recalls u.payload activity := by
  induction between using List.reverseRecOn with
  | nil => rwa [List.append_nil]
  | append_singleton between a ih =>
    obtain ⟨w, hw, hrecalls⟩ := ih (fun part hpart => ha part (hpart.trans (List.prefix_append _ _))) fun e he =>
      ho e (by rw [endingsFrom_append]; exact List.mem_append_left _ he)
    obtain ⟨s, hs, rfl, -⟩ := orderly_run setup (start ++ between) (i := i) (by rwa [view_workspaces])
    have h := (audited_run hs).toOrderly
    obtain ⟨s', hs', hstep⟩ := scene_concat hs a
    rw [← List.append_assoc]
    refine ⟨_, workspace_of_scene hs', h.recalls_step hstep hrecalls (fun {me c batch} hc hp v hr => ?_)
      fun e he => ?_⟩
    · obtain ⟨o, hunder⟩ := underway ((hs.calls me c).1 hc) hp
      obtain ⟨request, phase⟩ := c
      subst hr hp
      have hcall := (hs.calls me _).1 hc
      obtain ⟨taken, htaken⟩ := hunder.taken hcall
      obtain rfl := htaken.activity_eq (hbefore me) fun part hpart => ha part (hpart.trans (List.prefix_append _ _))
      exact htaken.commit batch hcall
    · obtain ⟨he, hi⟩ := List.mem_filter.1 he
      refine ho e ?_ (by simpa using hi)
      rw [endingsFrom_append]
      refine List.mem_append_right _ ?_
      simpa [endingsFrom, ← runFrom_append, run] using he

/-- A payload that comes to a workspace once more is passed over: whoever calls with it ends well, having changed
nothing and called no one, and it counts as processed. -/
structure Redelivered (setup : Setup) (acts : List Act) (i : Nat) (x : Payload) (w : Workspace) : Prop where
  /-- A build does not have to wait for an evaluation. -/
  comes : ∀ me c env versions, (run setup acts).callAt me = some (i, c) → c.request = .update ⟨versions, x⟩ →
    c.phase = .awaitingEvaluation →
      (run setup (acts ++ [.advance env me])).callAt me = some (i, { c with phase := .entering }) ∧
        (run setup (acts ++ [.advance env me])).workspace? i = some w ∧
        (run setup (acts ++ [.advance env me])).log = (run setup acts).log
  /-- Who gets the lock ends at once, and nothing is left of it but the notice. -/
  skipped : ∀ me c env versions, (run setup acts).callAt me = some (i, c) → c.request = .update ⟨versions, x⟩ →
    c.phase = .entering ∧ w.lock.holder = none ∨ c.phase = .queued ∧ w.lock.holder = some me →
      (run setup acts).endings (.advance env me) = [⟨i, c.request, .ok .done⟩] ∧
        (∃ lock, (run setup (acts ++ [.advance env me])).workspace? i = some { w with lock }) ∧
        (run setup (acts ++ [.advance env me])).session = (run setup acts).session ∧
        (run setup (acts ++ [.advance env me])).log =
          (run setup acts).log ++ (w.tell versions).map fun event => ⟨me, i, event⟩
  /-- The notice is there if progress is followed. -/
  told : w.owner.isSome = setup.tracksProgress
  /-- Where nobody is at the workspace the call is the skipping. -/
  alone : w.lock = {} → ∀ o : Occasion,
    o.session.active.activityOf w.slice = (run setup acts).session.active.activityOf w.slice →
      w.attempt setup x o = ⟨o.session, w, w.tell o.versions, .done (.ok .done)⟩

theorem redelivered_of_recalls (hw : (run setup acts).workspace? i = some w) (hu : w.unload.cause = none)
    {x : Payload} (hr : w.Recalls x activity) (ha : (run setup acts).activityAt i = some activity) :
    Redelivered setup acts i x w := by
  obtain ⟨s, hs, rfl, -⟩ := orderly_run setup acts (i := i) (by rwa [view_workspaces])
  have h := audited_run hs
  have hactivity : (run setup acts).session.active.activityOf s.workspace.slice = activity := by
    rw [activityAt, hw] at ha
    exact Option.some.inj ha
  -- what is not being disposed of is there with its context
  have hstatus : s.workspace.status = .initialized ∧ s.workspace.context.isSome := by
    exact (hr.context h.regular).resolve_right (h.not_disposed hu)
  have hintegrated : s.workspace.evaluation = .integrated := h.regular.held (by rw [hr.known.noted]; rfl)
  have paths (env : Environment) {me : JobId} {c : Call} (hcall : s.calls me = some c) :=
    Call.paths setup env me (run setup acts).session s.workspace (h.fit hcall)
  constructor
  case comes =>
    intro me c env versions hcall hrequest hphase
    have hc := (hs.calls me c).2 hcall
    obtain ⟨hs', -, -, hlog⟩ := stepped hs hc ((paths env hc).comes hrequest hu hphase hintegrated)
    refine ⟨(hs'.calls me _).1 (Scene.after_calls_self.2 rfl), ?_, by rw [hlog, List.map_nil, List.append_nil]⟩
    rw [workspace_of_scene hs']
    rfl
  case skipped =>
    intro me c env versions hcall hrequest hlock
    have hc := (hs.calls me c).2 hcall
    obtain ⟨lock, ha⟩ := (paths env hc).at_lock hrequest hu hlock
    rw [Workspace.receive_recalled (w := { s.workspace with lock }) hstatus.1 hstatus.2 (hr.congr rfl id) hactivity] at ha
    obtain ⟨hs', hsession, hends, hlog⟩ := stepped hs hc ha
    refine ⟨hends, ⟨lock.release, workspace_of_scene hs'⟩, hsession, ?_⟩
    rw [hlog]
    simp [Call.conclude, Call.report_ok]
    rfl
  case told => exact h.followed hstatus.1
  case alone =>
    intro hlock o ho
    obtain ⟨handle, hhandle⟩ := Option.isSome_iff_exists.1 hstatus.2
    have hready : s.workspace.Ready handle x := ⟨⟨hlock, hu⟩, hstatus.1, hhandle, fun _ _ => hintegrated⟩
    have hknown : s.workspace.KnowsUpdate x o := by
      have hk := hr.known
      rw [← hactivity, ← ho] at hk
      exact hk
    have hattempt : s.workspace.Attempts handle x o (s.workspace.attempt setup x o) := Workspace.attempts hready
    generalize s.workspace.attempt setup x o = a at hattempt
    cases hattempt with
    | skips => rw [hr.skipping_eq]
    | hangs hk | fails hk | ends hk => exact absurd hknown hk

/-- An update that has ended well and comes again, with nothing but updates of the other kind integrated since, is
passed over, provided that the slice has been the same to the session since it was taken up. -/
theorem redelivered (setup : Setup) (start during between : List Act) (env : Environment) (me : JobId) (i : Nat)
    (u : Update) (answer : Answer) (activity : Activity) (w : Workspace)
    (hbefore : ∀ c, (run setup start).callAt me = some (i, c) → c.phase.holds = false)
    (hended : ⟨i, .update u, .ok answer⟩ ∈ (run setup (start ++ during)).endings (.advance env me))
    (hactivity : ∀ part, part <+: during ++ .advance env me :: between →
      (run setup (start ++ part)).activityAt i = some activity)
    (hothers : ∀ e ∈ endingsFrom (run setup (start ++ during ++ [.advance env me])) between, e.place = i →
      ∀ v, e.request = .update v → v.kind = u.kind → ∃ error, e.result = .error error)
    (hw : (run setup (start ++ during ++ [.advance env me] ++ between)).workspace? i = some w)
    (hopen : w.unload.cause = none) :
    Redelivered setup (start ++ during ++ [.advance env me] ++ between) i u.payload w := by
  have hfirst (part : List Act) (hpart : part <+: during) : (run setup (start ++ part)).activityAt i = some activity :=
    hactivity part (hpart.trans (List.prefix_append _ _))
  have hthen (part : List Act) (hpart : part <+: between) :
      (run setup (start ++ during ++ [.advance env me] ++ part)).activityAt i = some activity := by
    have := hactivity (during ++ .advance env me :: part) (by simpa using hpart)
    simpa using this
  obtain ⟨earlier, taken, htaken, hrecalls, hnobody⟩ := recalls_ended hended
  obtain rfl := htaken.activity_eq hbefore hfirst
  obtain ⟨w', hw', hr⟩ := recalls_along hnobody hrecalls hthen hothers
  cases hw.symm.trans hw'
  exact redelivered_of_recalls hw hopen hr (hthen between List.prefix_rfl)

set_option maxRecDepth 100000 in
/-- A build whose batch was rejected once and that then ended well comes again after an evaluation and a write. -/
theorem redelivered_after_evaluation :
    let build := Sample.build ["/r:a.dll"]
    let start := Sample.twoCalls (Sample.evaluation ["a.cs"]) build ++ [.advance { rejection := some "full" } 1]
    let during := Sample.opening 2 build
    let between := Sample.opening 3 (Sample.evaluation ["b.cs"]) ++ Sample.closing 3 :: .call 0 (.write []) ::
      List.replicate 3 (.advance {} 4) ++ [.call 0 (.update build), .advance {} 5]
    let acts := start ++ during ++ [.advance {} 2] ++ between
    ∃ w, (run {} acts).workspace? 0 = some w ∧ w.lock = {} ∧
      (run {} acts).callAt 5 = some (0, ⟨.update build, .entering⟩) ∧ Redelivered {} acts 0 build.payload w := by
  intro build start during between acts
  have h : ((run {} acts).workspace? 0).map (fun w => (w.lock, w.unload.cause)) = some ({}, none) := by decide +kernel
  have hcall : (run {} acts).callAt 5 = some (0, ⟨.update build, .entering⟩) := by decide +kernel
  have hbefore : (run {} start).callAt 2 = none := by decide +kernel
  have hended : ((run {} (start ++ during)).endings (.advance {} 2)).map (fun e => (e.place, e.request, e.result)) =
      [(0, .update build, .ok .done)] := by decide +kernel
  have hothers : (endingsFrom (run {} (start ++ during ++ [.advance {} 2])) between).map (·.request) =
      [.update (Sample.evaluation ["b.cs"]), .write []] := by decide +kernel
  have hactivity : ∀ part ∈ (during ++ .advance {} 2 :: between).inits,
      (run {} (start ++ part)).activityAt 0 = some {} := by decide +kernel
  obtain ⟨w, hw, hstate⟩ := Option.map_eq_some_iff.1 h
  obtain ⟨hlock, hopen⟩ := Prod.ext_iff.1 hstate
  refine ⟨w, hw, hlock, hcall, redelivered {} start during between {} 2 0 build .done {} w ?_ ?_ ?_ ?_ hw hopen⟩
  · intro c hc
    rw [hbefore] at hc
    cases hc
  · exact Ending.mem_of_map_eq hended
  · exact fun part hpart => hactivity part ((List.mem_inits part _).2 hpart)
  · intro e he _ v hv hkind
    have hmem := List.mem_map_of_mem (f := (·.request)) he
    rw [hothers, hv] at hmem
    rcases List.mem_cons.1 hmem with heq | hmem
    · cases heq
      cases hkind
    · cases List.mem_singleton.1 hmem

end World

end SliceSync
