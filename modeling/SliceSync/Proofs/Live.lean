import SliceSync.Proofs.Lifecycle
/-!
# Contexts that live

An id is taken from the creation of a context until its release has finished. All this time one workspace
bears it: it holds the context, or a teardown of it waits for the context to go. Ids that are taken are those
that some workspace bears, each by one (`View.Borne`), after every step.
-/

namespace SliceSync

/-! ## Passages -/

/-- What a passage of a request does to the context and to the ids taken. -/
inductive Passage.Bearing (session : Session) (w : Workspace) (p : Passage) : Prop
  | keeps (hc : p.workspace.context.map (·.id) = w.context.map (·.id)) (hl : p.session.live = session.live)
      (hh : ∀ handle, p.held ≠ .releasing handle)
  | takes {id : ContextId} (hw : w.context = none) (hc : p.workspace.context.map (·.id) = some id)
      (hn : id ∉ session.live) (hl : p.session.live = session.live ++ [id])
      (hh : ∀ handle, p.held ≠ .releasing handle)
  | parts {handle : ContextHandle} (hw : w.context = some handle) (hc : p.workspace.context = none)
      (hl : p.session.live = session.live) (hh : p.held = .releasing handle)

namespace Workspace

variable {setup : Setup} {env : Environment} {session : Session} {w : Workspace}

theorem Receives.bearing {u : Update} {p : Passage} (h : w.Receives setup env session u p) :
    p.Bearing session w := by
  have context : (w.enroll setup u).1.context = w.context := enroll_context u
  cases h with
  | refused => exact .keeps rfl rfl nofun
  | uncreated | skips | skipsBuild | misses => exact .keeps (by rw [← context]) rfl nofun
  | creates ha hu hc hs =>
    obtain ⟨hlive, hnew, -⟩ := Session.create_live hs
    exact .takes hc rfl hnew hlive nofun
  | applies ha hu hc | appliesBuild ha hu hc => exact .keeps (by rw [hc]; rfl) rfl nofun

end Workspace

theorem Request.passage_bearing (setup : Setup) (env : Environment) (session : Session) (w : Workspace)
    (request : Request) : (request.passage setup env session w).Bearing session w := by
  have h := request.enters setup env session w
  generalize request.passage setup env session w = p at h ⊢
  cases h with
  | receives h => exact h.bearing
  | releases _ hc => exact .parts hc rfl rfl rfl
  | _ => exact .keeps rfl rfl nofun

/-! ## One workspace -/

namespace Scene

/-- A context with this id is held here, or a teardown waits for it to go. -/
def Bears (s : Scene) (id : ContextId) : Prop :=
  (∃ handle, s.workspace.context = some handle ∧ handle.id = id) ∨
    ∃ me c handle, s.calls me = some c ∧ c.phase = .releasing handle ∧ handle.id = id

/-- What a step here does to the ids taken and to those borne here. -/
inductive Trades (session : Session) (s : Scene) (session' : Session) (s' : Scene) : Prop
  | keeps (hl : session'.live = session.live) (hb : ∀ id, s'.Bears id ↔ s.Bears id)
  | takes {id : ContextId} (hn : id ∉ session.live) (hl : session'.live = session.live ++ [id])
      (hb : ∀ other, ¬s.Bears other) (hb' : ∀ other, s'.Bears other ↔ other = id)
  | frees {id : ContextId} (hl : session'.live = session.live.filter (· ≠ id))
      (hb : ∀ other, s.Bears other ↔ other = id) (hb' : ∀ other, ¬s'.Bears other)

variable {t : Terms} {s : Scene} {past : List Ending} {me : JobId} {c : Call} {session : Session}

/-- After a passage what is borne is what it holds, or gives away. -/
theorem bears_conclude {setup : Setup} {p : Passage} (id : ContextId)
    (hme : ∀ {job c'}, s.calls job = some c' → c'.phase.holds = true → job = me) :
    (s.after me (c.conclude setup p)).Bears id ↔
      (∃ handle, p.workspace.context = some handle ∧ handle.id = id) ∨
        ∃ handle, p.held = .releasing handle ∧ handle.id = id := by
  have hcontext : (s.after me (c.conclude setup p)).workspace.context = p.workspace.context :=
    Call.conclude_context p
  refine or_congr (by rw [hcontext]) ⟨?_, ?_⟩
  · rintro ⟨job, c', handle, hjob, hp, hid⟩
    obtain rfl : job = me := by
      by_contra hne
      rw [after_calls_of_ne _ _ hne] at hjob
      exact hne (hme hjob (by simp [hp, Phase.holds]))
    obtain ⟨-, -, ⟨batch, -, hp'⟩ | ⟨other, hheld, hp'⟩⟩ := Call.conclude_going (after_calls_self.1 hjob)
    · cases hp.symm.trans hp'
    · cases hp.symm.trans hp'
      exact ⟨handle, hheld, hid⟩
  · rintro ⟨handle, hheld, hid⟩
    refine ⟨me, { c with phase := .releasing handle }, handle, ?_, rfl, hid⟩
    rw [after_calls_self, Call.conclude, hheld]

/-- While nobody waits for a context to go, what is borne is what is held. -/
theorem bears_of_not_releasing (id : ContextId)
    (h : ∀ {job c' handle}, s.calls job = some c' → c'.phase ≠ .releasing handle) :
    s.Bears id ↔ ∃ handle, s.workspace.context = some handle ∧ handle.id = id := by
  refine or_iff_left ?_
  rintro ⟨job, c', handle, hjob, hp, -⟩
  exact h hjob hp

theorem exists_id_iff {context : Option ContextHandle} {id : ContextId} :
    (∃ handle, context = some handle ∧ handle.id = id) ↔ context.map (·.id) = some id := by
  cases context <;> simp

/-- A step of a call trades ids in one of these ways. -/
theorem Goes.trades (h : s.Orderly past) {env : Environment} {a : Advance} (hc : s.calls me = some c)
    (ha : Goes t env s me c session a) : Trades session s a.session (s.after me a) := by
  cases ha with
  | quiet hs hw he hgo hdone ho =>
    obtain ⟨lock, unload, hw⟩ := hw
    refine .keeps (by rw [hs]) fun id => or_congr ?_ ?_
    · rw [show (s.after me a).workspace = _ from hw]
    · refine exists_congr fun job => exists_congr fun c' => exists_congr fun handle => ?_
      refine and_congr_left fun hp => after_calls_of_quiet hc ?_ ?_ (by simp [hp.1, Phase.holds])
      · exact fun c' hgoing => (hgo c' hgoing).imp_right fun h => ⟨h.1, h.2.1⟩
      · exact fun result hresult => (hdone result hresult).1
  | @passes p lock unload hme hp hr ho hk =>
    have after (id : ContextId) : (s.after me (c.conclude t.setup p)).Bears id ↔ _ := bears_conclude id hme
    rw [Call.conclude_session]
    rcases hk with ⟨hholds, hk⟩ | ⟨batch, hphase, -, hk⟩ | ⟨handle, hphase, -, hk⟩
    · -- nobody was under the lock
      have before (id : ContextId) : s.Bears id ↔ s.workspace.context.map (·.id) = some id := by
        rw [bears_of_not_releasing id, exists_id_iff]
        intro job c' handle hjob hp'
        have hholds' : c'.phase.holds = true := by rw [hp']; rfl
        obtain rfl := hme hjob hholds'
        cases hc.symm.trans hjob
        exact absurd hholds' (by simp [hholds])
      have hbearing : p.Bearing session { s.workspace with lock, unload } := by
        rw [hk]
        exact c.request.passage_bearing ..
      cases hbearing with
      | keeps hctx hl hh =>
        refine .keeps hl fun id => ?_
        rw [after, before, exists_id_iff, hctx]
        simp [hh]
      | @takes id hw hctx hn hl hh =>
        have hw : s.workspace.context = none := hw
        refine .takes hn hl (fun other => by simp [before, hw]) fun other => ?_
        rw [after, exists_id_iff, hctx]
        simp [hh, eq_comm]
      | @parts handle hw hctx hl hh =>
        have hw : s.workspace.context = some handle := hw
        refine .keeps hl fun id => ?_
        rw [after, before, hctx, hw]
        simp [hh]
    · -- the call has closed its batch
      obtain ⟨hsession, hctx, ⟨result, hheld⟩, -⟩ := Workspace.close_heard env session s.workspace batch
      rw [hk] at after ⊢
      rw [hsession]
      refine .keeps rfl fun id => ?_
      rw [after, bears_of_not_releasing id, hctx, hheld]
      · simp
      · intro job c' handle hjob hp'
        obtain rfl := hme hjob (by rw [hp']; rfl)
        cases hc.symm.trans hjob
        cases hphase.symm.trans hp'
    · -- the context has gone
      have hnone : s.workspace.context = none := h.regular.disposed (h.releasing hc hphase)
      obtain ⟨-, hctx, ⟨result, hheld⟩, -⟩ := Workspace.finishDispose_heard session s.workspace handle
      rw [hk] at after ⊢
      refine Trades.frees rfl (fun other => ?_) fun other => ?_
      · constructor
        · rintro (⟨other, hother, -⟩ | ⟨job, c', other, hjob, hp', rfl⟩)
          · cases hnone.symm.trans hother
          · obtain rfl := hme hjob (by rw [hp']; rfl)
            cases hc.symm.trans hjob
            cases hphase.symm.trans hp'
            rfl
        · rintro rfl
          exact .inr ⟨me, c, handle, hc, hphase, rfl⟩
      · rw [after, hctx, hheld, hnone]
        simp

end Scene

/-! ## All workspaces -/

namespace View

/-- A context with this id is held in a place, or a teardown there waits for it to go. -/
def Bears (v : View) (i : Nat) (id : ContextId) : Prop :=
  (∃ ws handle, v.workspaces[i]? = some ws ∧ ws.context = some handle ∧ handle.id = id) ∨
    ∃ me c handle, v.calls me = some (i, c) ∧ c.phase = .releasing handle ∧ handle.id = id

/-- The ids taken are those borne somewhere, each in one place. -/
structure Borne (v : View) : Prop where
  live : ∀ {id}, id ∈ v.session.live ↔ ∃ i, v.Bears i id
  apart : ∀ {i j id}, v.Bears i id → v.Bears j id → i = j

variable {t : Terms} {v v' : View} {i : Nat} {s : Scene}

theorem HasScene.bears (h : v.HasScene i s) (id : ContextId) : v.Bears i id ↔ s.Bears id := by
  refine or_congr ?_ ?_
  · rw [h.workspace]
    simp
  · simp only [h.calls]

theorem bears_adding (slices : List Slice) (i : Nat) (id : ContextId) :
    (v.adding slices).Bears i id ↔ v.Bears i id := by
  refine or_congr_left (exists_congr fun ws => exists_congr fun handle => ?_)
  refine and_congr_left fun ⟨hctx, _⟩ => ?_
  unfold adding
  by_cases hi : i < v.workspaces.length
  · rw [List.getElem?_append_left hi]
  · -- a new workspace has no context
    rw [List.getElem?_append_right (Nat.le_of_not_lt hi), List.getElem?_map]
    refine iff_of_false ?_ fun hw => hi (List.getElem?_eq_some_iff.1 hw).1
    intro hw
    obtain ⟨slice, -, rfl⟩ := Option.map_eq_some_iff.1 hw
    cases hctx

theorem bears_unload {ws : Workspace} (hw : v.workspaces[i]? = some ws) (unload : UnloadToken) (j : Nat)
    (id : ContextId) :
    View.Bears { v with workspaces := v.workspaces.set i { ws with unload } } j id ↔ v.Bears j id := by
  refine or_congr_left ?_
  by_cases hij : i = j
  · subst hij
    have hi := (List.getElem?_eq_some_iff.1 hw).1
    rw [List.getElem?_set_self hi, hw]
    simp
  · simp [List.getElem?_set_ne hij]

/-- Calls come and go without a context, but for those that wait for one to go. -/
theorem bears_withCall {me : JobId} {call : Option (Nat × Call)}
    (ho : ∀ j c handle, v.calls me = some (j, c) → c.phase ≠ .releasing handle)
    (hn : ∀ j c handle, call = some (j, c) → c.phase ≠ .releasing handle) (i : Nat) (id : ContextId) :
    (v.withCall me call).Bears i id ↔ v.Bears i id := by
  refine or_congr_right (exists_congr fun job => exists_congr fun c => exists_congr fun handle => ?_)
  refine and_congr_left fun ⟨hp, _⟩ => ?_
  by_cases hme : job = me
  · subst hme
    rw [withCall_calls_self]
    exact iff_of_false (fun hcall => hn i c handle hcall hp) fun hcall => ho i c handle hcall hp
  · rw [withCall_calls_of_ne _ _ hme]

theorem Borne.congr (h : v.Borne) (hl : v'.session.live = v.session.live)
    (hb : ∀ i id, v'.Bears i id ↔ v.Bears i id) : v'.Borne := by
  refine ⟨fun {id} => ?_, fun hi hj => h.apart ((hb _ _).1 hi) ((hb _ _).1 hj)⟩
  rw [hl, h.live]
  exact exists_congr fun i => (hb i id).symm

/-- A step of a call trades the ids borne in its place. -/
theorem Borne.after (h : v.Borne) {me : JobId} {c : Call} {a : Advance} (hs : v.HasScene i s)
    (hc : v.calls me = some (i, c)) (ha : s.Trades v.session a.session (s.after me a)) :
    (v.after me i a).Borne := by
  have here (id : ContextId) : (v.after me i a).Bears i id ↔ (s.after me a).Bears id := (hs.goes a).bears id
  have elsewhere {j : Nat} (hj : j ≠ i) (id : ContextId) : (v.after me i a).Bears j id ↔ v.Bears j id := by
    refine or_congr ?_ (exists_congr fun job => exists_congr fun c' => exists_congr fun handle => ?_)
    · simp only [View.after, List.getElem?_set_ne hj.symm]
    · refine and_congr_left' ?_
      by_cases hme : job = me
      · subst hme
        refine iff_of_false (fun hcall => hj (after_calls_self hcall).1) fun hcall => hj ?_
        exact (Prod.ext_iff.1 (Option.some.inj (hc.symm.trans hcall))).1.symm
      · rw [after_calls_of_ne _ _ _ hme]
  cases ha with
  | keeps hl hb =>
    refine h.congr hl fun j id => ?_
    by_cases hj : j = i
    · subst hj
      rw [here, hb, hs.bears]
    · exact elsewhere hj id
  | @takes id hn hl hb hb' =>
    have fresh {j : Nat} : ¬v.Bears j id := fun hj => hn (h.live.2 ⟨j, hj⟩)
    constructor
    · intro other
      show other ∈ a.session.live ↔ _
      rw [hl, List.mem_append, List.mem_singleton, h.live]
      constructor
      · rintro (⟨j, hj⟩ | rfl)
        · have hji : j ≠ i := by
            rintro rfl
            exact hb other ((hs.bears other).1 hj)
          exact ⟨j, (elsewhere hji other).2 hj⟩
        · exact ⟨i, (here other).2 ((hb' other).2 rfl)⟩
      · rintro ⟨j, hj⟩
        by_cases hji : j = i
        · subst hji
          exact .inr ((hb' other).1 ((here other).1 hj))
        · exact .inl ⟨j, (elsewhere hji other).1 hj⟩
    · -- the new id is borne nowhere else
      intro j k other hj hk
      by_cases hji : j = i <;> by_cases hki : k = i
      · rw [hji, hki]
      · subst hji
        obtain rfl := (hb' other).1 ((here other).1 hj)
        exact absurd ((elsewhere hki other).1 hk) fresh
      · subst hki
        obtain rfl := (hb' other).1 ((here other).1 hk)
        exact absurd ((elsewhere hji other).1 hj) fresh
      · exact h.apart ((elsewhere hji other).1 hj) ((elsewhere hki other).1 hk)
  | @frees id hl hb hb' =>
    have mine : v.Bears i id := (hs.bears id).2 ((hb id).2 rfl)
    have nothing (other : ContextId) : ¬(v.after me i a).Bears i other := fun hi => hb' other ((here other).1 hi)
    have left {j : Nat} {other : ContextId} (hj : (v.after me i a).Bears j other) : j ≠ i ∧ v.Bears j other := by
      have hji : j ≠ i := by
        rintro rfl
        exact nothing other hj
      exact ⟨hji, (elsewhere hji other).1 hj⟩
    refine ⟨fun {other} => ?_, fun hj hk => h.apart (left hj).2 (left hk).2⟩
    show other ∈ a.session.live ↔ _
    rw [hl, List.mem_filter, h.live, decide_eq_true_eq]
    constructor
    · rintro ⟨⟨j, hj⟩, hne⟩
      have hji : j ≠ i := by
        rintro rfl
        exact hne ((hb other).1 ((hs.bears other).1 hj))
      exact ⟨j, (elsewhere hji other).2 hj⟩
    · rintro ⟨j, hj⟩
      refine ⟨⟨j, (left hj).2⟩, ?_⟩
      rintro rfl
      exact (left hj).1 (h.apart (left hj).2 mine)

/-- Every move keeps the ids taken those that are borne. -/
theorem Borne.move (h : v.Borne) (hs : v.Sound t)
    (ho : ∀ i ws, v.workspaces[i]? = some ws → ∃ s past, v.HasScene i s ∧ s.Orderly past) {ended : List Ending}
    (hm : Move t v v' ended) : v'.Borne := by
  cases hm with
  | adds slices => exact h.congr rfl (bears_adding slices)
  | activates active => exact h.congr rfl fun _ _ => .rfl
  | unloads cause hw => exact h.congr rfl (bears_unload hw _)
  | @begins me i request hc hr =>
    refine h.congr rfl (bears_withCall (fun _ _ _ hcall => by cases hc.symm.trans hcall) ?_)
    rintro j c handle ⟨⟩ hp
    exact absurd (Call.start_holds request) (by simp [hp, Phase.holds])
  | @misses me j c slices hc hw =>
    refine h.congr rfl fun i id =>
      (bears_adding slices i id).trans (bears_withCall ?_ (fun _ _ _ h => by cases h) i id)
    intro k c' handle hcall hp
    -- a call that waits under a lock has a workspace
    obtain ⟨ws, hws, -⟩ := hs.locked hcall (by rw [hp]; rfl)
    cases hc.symm.trans hcall
    cases hw.symm.trans hws
  | @steps env me i c ws slices he hc hw =>
    obtain ⟨s, past, hscene, horderly⟩ := ho i ws hw
    cases hw.symm.trans hscene.workspace
    have hcall := (hscene.calls me c).2 hc
    have hgoes : Scene.Goes t env s me c v.session _ :=
      horderly.goes hcall (Call.paths t.setup env me v.session s.workspace (horderly.fit hcall))
    exact (h.after hscene hc (hgoes.trades horderly hcall)).congr rfl (bears_adding slices)

end View

/-! ## Every run -/

namespace World

/-- In every run a workspace, the calls on it and those that ended fit together. -/
theorem plays_orderly (setup : Setup) (acts : List Act) (i : Nat) :
    (run setup acts).Keeps (freely setup) ∧
      (run setup acts).view.Plays i Scene.Orderly ((history setup acts).filter (·.place = i)) :=
  plays_run (fun hf hp => Scene.orderly_fresh hf hp) (fun h hst => h.step hst) fun a _ => within_freely setup a

theorem orderly_run (setup : Setup) (acts : List Act) {i : Nat} {ws : Workspace}
    (hw : (run setup acts).view.workspaces[i]? = some ws) :
    ∃ s, (run setup acts).view.HasScene i s ∧ s.workspace = ws ∧
      s.Orderly ((history setup acts).filter (·.place = i)) := by
  obtain ⟨-, ⟨hv, -⟩ | ⟨s, hs, h⟩⟩ := plays_orderly setup acts i
  · exact absurd (hv.workspace.symm.trans hw) nofun
  · exact ⟨s, hs, Option.some.inj (hs.workspace.symm.trans hw), h⟩

/-- In every run the ids taken are those that workspaces bear. -/
theorem borne_run (setup : Setup) (acts : List Act) : (run setup acts).view.Borne := by
  induction acts using List.reverseRecOn with
  | nil =>
    have nothing (i : Nat) (id : ContextId) : ¬(run setup []).view.Bears i id := by
      rintro (⟨ws, handle, hw, -⟩ | ⟨me, c, handle, hc, -⟩)
      · cases hw
      · cases hc
    exact ⟨fun {id} => ⟨nofun, fun ⟨i, hi⟩ => absurd hi (nothing i id)⟩, fun hi => absurd hi (nothing _ _)⟩
  | append_singleton acts a ih =>
    obtain ⟨hkeeps, hsound, -⟩ := tidy_run setup acts
    rw [run_concat]
    refine ih.move hsound (fun i ws hw => ?_) (perform_moves hkeeps (within_freely setup a))
    obtain ⟨s, hs, -, h⟩ := orderly_run setup acts hw
    exact ⟨s, _, hs, h⟩

end World

end SliceSync
