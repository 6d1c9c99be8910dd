import SliceSync.Proofs.Moves
/-!
# What every view keeps to

A call that waits under a lock is the one that holds it, a batch is open in the context of its workspace,
and a context is in one place only. `Sound` says so of a view, and every move keeps it (`Sound.move`): a
step of a call does little to the lock and to the context (`Call.Steps`), and nothing elsewhere.
-/

namespace SliceSync

/-! ## What a step of a call does to lock and context -/

/-- What a call that has the lock does to the context, read off what contexts hear. -/
theorem Heard.context {session : Session} {w : Workspace} {p : Passage} (h : Heard session w p) :
    p.session.created = session.created ∧
      (p.workspace.context.map (·.serial) = w.context.map (·.serial) ∨ p.workspace.context = none) ∧
      (∀ n, w.context.map (·.serial) ≠ some n → Event.callsOf n p.events = []) ∨
    w.context = none ∧ p.workspace.context.map (·.serial) = some session.created ∧
      p.session.created = session.created + 1 ∧
      ∀ n, n ≠ session.created → Event.callsOf n p.events = [] := by
  cases h with
  | nothing hh hc hs he => exact .inl ⟨hs, .inl (by rw [hc]), fun n _ => he n⟩
  | opening hh hc ho he =>
    obtain ⟨mutations, he⟩ := he
    obtain ⟨hw, hs⟩ | ⟨hw, hb, hs⟩ := ho
    · refine .inl ⟨hs, .inl (hc.trans hw.symm), fun n hn => ?_⟩
      rw [he, if_neg]
      rintro rfl
      exact hn hw
    · refine .inr ⟨hw, hb ▸ hc, hs, fun n hn => ?_⟩
      rw [he, if_neg (hb ▸ hn)]
  | parting hh hw hc hs he =>
    refine .inl ⟨hs, .inr hc, fun n hn => ?_⟩
    rw [he, if_neg]
    rintro rfl
    exact hn (by rw [hw]; rfl)

namespace Call

variable {setup : Setup} {env : Environment} {me : JobId} {c : Call} {session : Session} {w : Workspace}

theorem callsOf_report (n : Nat) (setup : Setup) (c : Call) (result : Except SyncError Answer) :
    Event.callsOf n (c.report setup result) = [] := by
  refine Event.callsOf_eq_nil fun e he call => ?_
  unfold report at he
  split at he
  · split at he
    · rw [List.mem_singleton.1 he]
      nofun
    · cases he
  · cases he

@[simp] theorem conclude_session (p : Passage) : (c.conclude setup p).session = p.session := by
  unfold conclude
  cases p.held <;> rfl

@[simp] theorem conclude_context (p : Passage) :
    (c.conclude setup p).workspace.context = p.workspace.context := by
  unfold conclude
  cases p.held <;> rfl

@[simp] theorem callsOf_conclude (n : Nat) (p : Passage) :
    Event.callsOf n (c.conclude setup p).events = Event.callsOf n p.events := by
  unfold conclude
  cases p.held with
  | finished result => simp [Event.callsOf_append, callsOf_report]
  | _ => rfl

/-- What a step of a call does to the lock of its workspace and to its context. -/
structure Steps (me : JobId) (c : Call) (session : Session) (w : Workspace) (a : Advance) : Prop where
  /-- The lock is not taken from another, and without it the context is left alone. -/
  lock : ∀ other, other ≠ me → w.lock.holder = some other →
    a.workspace.lock.holder = some other ∧ a.workspace.context = w.context
  /-- The call goes on as what it was. -/
  request : ∀ c', a.progress = .going c' → c'.request = c.request ∧ c'.Proper
  holds : ∀ c', a.progress = .going c' → c'.phase.holds → a.workspace.lock.holder = some me
  closing : ∀ c' batch, a.progress = .going c' → c'.phase = .closing batch →
    a.workspace.context.map (·.serial) = some batch.serial
  /-- Only the context of the workspace hears of it: it stays or goes, or a new one comes. -/
  context : a.session.created = session.created ∧
      (a.workspace.context.map (·.serial) = w.context.map (·.serial) ∨ a.workspace.context = none) ∧
      (∀ n, w.context.map (·.serial) ≠ some n → Event.callsOf n a.events = []) ∨
    w.context = none ∧ a.workspace.context.map (·.serial) = some session.created ∧
      a.session.created = session.created + 1 ∧ ∀ n, n ≠ session.created → Event.callsOf n a.events = []

/-- A call goes on from a passage under the lock, to close a batch or to end a release. -/
theorem conclude_going {p : Passage} {c' : Call} (h : (c.conclude setup p).progress = .going c') :
    (c.conclude setup p).workspace = p.workspace ∧ c'.request = c.request ∧
      ((∃ batch, p.held = .closing batch ∧ c'.phase = .closing batch) ∨
        ∃ handle, p.held = .releasing handle ∧ c'.phase = .releasing handle) := by
  unfold conclude at h ⊢
  cases hh : p.held with
  | finished result =>
    rw [hh] at h
    cases h
  | closing batch =>
    rw [hh] at h
    cases h
    exact ⟨rfl, rfl, .inl ⟨batch, rfl, rfl⟩⟩
  | releasing handle =>
    rw [hh] at h
    cases h
    exact ⟨rfl, rfl, .inr ⟨handle, rfl, rfl⟩⟩

/-- A passage of a request, once the call has the lock. -/
theorem steps_enter (hl : w.lock.holder = some me) :
    Steps me c session w (c.conclude setup (c.request.passage setup env session w)) := by
  have hlock := c.request.passage_lock setup env session w
  have heard := c.request.passage_heard setup env session w
  have hparts (handle : ContextHandle) (h : (c.request.passage setup env session w).held = .releasing handle) :=
    Request.passage_releasing h
  generalize c.request.passage setup env session w = p at hlock heard hparts
  rw [← hlock] at hl
  refine ⟨fun other ho hw => ?_, fun c' hc => ?_, fun c' hc _ => ?_, fun c' batch hc hb => ?_, ?_⟩
  · rw [← hlock, hl] at hw
    exact absurd (Option.some.inj hw).symm ho
  · obtain ⟨-, hr, ⟨batch, -, hp⟩ | ⟨handle, hh, hp⟩⟩ := conclude_going hc
    · exact ⟨hr, by rw [hp]; nofun, by rw [hp]; nofun⟩
    · exact ⟨hr, by rw [hp]; nofun, fun _ _ => hr ▸ hparts handle hh⟩
  · obtain ⟨hw, -, -⟩ := conclude_going hc
    rw [hw, hl]
  · obtain ⟨-, -, hp⟩ := conclude_going hc
    rw [conclude_context]
    cases heard with
    | nothing hh => rw [hh] at hp; simp at hp
    | opening hh hcontext =>
      rw [hh, hb] at hp
      obtain ⟨_, heq, hphase⟩ | ⟨_, heq, -⟩ := hp
      · cases heq
        cases hphase
        exact hcontext
      · cases heq
    | parting hh =>
      rw [hh, hb] at hp
      obtain ⟨_, heq, -⟩ | ⟨_, -, heq⟩ := hp <;> cases heq
  · simpa using heard.context

/-- A step of a call, by the ways it can go. -/
theorem Advances.steps {a : Advance} (h : Advances setup env me c session w a) (hproper : c.Proper)
    (hholds : c.phase.holds → w.lock.holder = some me)
    (hclosing : ∀ batch, c.phase = .closing batch → w.context.map (·.serial) = some batch.serial) :
    Steps me c session w a := by
  have ends {p : Passage} (hh : ∃ result, p.held = .finished result)
      (hl : w.lock.holder = some me)
      (hs : p.session.created = session.created) (hc : p.workspace.context = w.context)
      (he : ∀ n, w.context.map (·.serial) ≠ some n → Event.callsOf n p.events = []) :
      Steps me c session w (c.conclude setup p) := by
    obtain ⟨result, hh⟩ := hh
    have stays (c' : Call) : (c.conclude setup p).progress ≠ .going c' := by
      intro hc
      obtain ⟨-, -, hp⟩ := conclude_going hc
      rw [hh] at hp
      simp at hp
    refine ⟨fun other ho hw => ?_, fun c' hc => absurd hc (stays c'), fun c' hc => absurd hc (stays c'),
      fun c' _ hc => absurd hc (stays c'), .inl ⟨by simpa using hs, .inl (by simp [hc]), by simpa using he⟩⟩
    rw [hl] at hw
    exact absurd (Option.some.inj hw).symm ho
  -- only a passage under the lock goes near the context
  cases h with
  | stays =>
    refine ⟨fun _ _ h => ⟨h, rfl⟩, ?_, ?_, ?_, .inl ⟨rfl, .inl rfl, fun _ _ => rfl⟩⟩
    · rintro _ ⟨⟩
      exact ⟨rfl, hproper⟩
    · rintro _ ⟨⟩
      exact hholds
    · rintro _ batch ⟨⟩
      exact hclosing batch
  | approaches hc hp' hb hl =>
    refine ⟨fun _ _ h => ⟨hl.trans h, rfl⟩, ?_, ?_, ?_, .inl ⟨rfl, .inl rfl, fun _ _ => rfl⟩⟩
    · rintro _ ⟨⟩
      refine ⟨rfl, fun h => absurd h hb, fun handle hr => ?_⟩
      dsimp only at hr
      rw [hr] at hp'
      cases hp'
    · rintro _ ⟨⟩ hh
      exact absurd (hp'.symm.trans hh) nofun
    · rintro _ batch ⟨⟩ hh
      dsimp only at hh
      rw [hh] at hp'
      cases hp'
  | leaves hc hl hr =>
    refine ⟨fun other ho hw => ?_, fun c' h => ?_, fun c' h => ?_, fun c' _ h => ?_,
      .inl ⟨rfl, .inl rfl, fun n _ => callsOf_report n _ _ _⟩⟩
    · obtain hl | hl := hl
      · exact ⟨hl.trans hw, rfl⟩
      · rw [hl] at hw
        exact absurd (Option.some.inj hw).symm ho
    · cases h
    · cases h
    · cases h
  | enters hc hf hl =>
    rw [enter_eq]
    rename_i lock unload
    have h : Steps me c session { w with lock, unload } (c.conclude setup
        (c.request.passage setup env session { w with lock, unload })) := steps_enter hl
    refine ⟨fun other ho hw => ?_, h.request, h.holds, h.closing, h.context⟩
    obtain hf | hf := hf <;> rw [hf] at hw
    · cases hw
    · exact absurd (Option.some.inj hw).symm ho
  | closes hc hg =>
    rename_i batch
    obtain ⟨hs, hcontext, hh, he⟩ := Workspace.close_heard env session w batch
    refine ends hh (hholds (by rw [hc]; rfl)) (by rw [hs]) hcontext fun n hn => ?_
    rw [he, if_neg]
    rintro rfl
    exact hn (hclosing batch hc)
  | parts hc hd =>
    rename_i handle
    obtain ⟨hs, hcontext, hh, he⟩ := Workspace.finishDispose_heard session w handle
    exact ends hh (hholds (by rw [hc]; rfl)) hs hcontext fun n _ => he n

/-- A step creates at most the context of the next serial, and that in its own place. -/
theorem Steps.created_le {a : Advance} (h : Steps me c session w a) : session.created ≤ a.session.created := by
  obtain ⟨hs, -⟩ | ⟨-, -, hs, -⟩ := h.context <;> omega

theorem Steps.serial {a : Advance} (h : Steps me c session w a) {n : Nat}
    (hn : a.workspace.context.map (·.serial) = some n) :
    w.context.map (·.serial) = some n ∨ n = session.created ∧ a.session.created = session.created + 1 := by
  obtain ⟨-, hs | hs, -⟩ | ⟨-, hs, hs', -⟩ := h.context
  · exact .inl (hs.symm.trans hn)
  · rw [hs] at hn
    cases hn
  · rw [hs] at hn
    exact .inr ⟨(Option.some.inj hn).symm, hs'⟩

end Call

/-! ## What every view keeps to -/

namespace View

/-- The serial of the context in a place. -/
def serialAt (v : View) (i : Nat) : Option Nat := ((v.workspaces[i]?).bind (·.context)).map (·.serial)

/-- The calls a context has received. -/
def callsOf (v : View) (n : Nat) : List ContextCall := Event.callsOf n (v.log.map (·.event))

theorem serialAt_eq {v : View} {i : Nat} {ws : Workspace} (h : v.workspaces[i]? = some ws) :
    v.serialAt i = ws.context.map (·.serial) := by
  simp [serialAt, h]

/-- New workspaces have no context. -/
@[simp] theorem serialAt_adding (v : View) (slices : List Slice) (i : Nat) :
    (v.adding slices).serialAt i = v.serialAt i := by
  unfold serialAt adding
  by_cases hi : i < v.workspaces.length
  · rw [List.getElem?_append_left hi]
  · have hle : v.workspaces.length ≤ i := Nat.le_of_not_lt hi
    rw [List.getElem?_append_right hle, List.getElem?_eq_none_iff.2 hle, List.getElem?_map]
    cases slices[i - v.workspaces.length]? <;> rfl

@[simp] theorem callsOf_adding (v : View) (slices : List Slice) (n : Nat) :
    (v.adding slices).callsOf n = v.callsOf n := rfl

@[simp] theorem serialAt_withCall (v : View) (me : JobId) (call : Option (Nat × Call)) (i : Nat) :
    (v.withCall me call).serialAt i = v.serialAt i := rfl

theorem callsOf_afterStep (v : View) (me : JobId) (i : Nat) (a : Advance) (n : Nat) :
    (v.after me i a).callsOf n = v.callsOf n ++ Event.callsOf n a.events := by
  simp [callsOf, after, Event.callsOf_append, Function.comp_def]

@[simp] theorem withCall_calls_self (v : View) (me : JobId) (call : Option (Nat × Call)) :
    (v.withCall me call).calls me = call := Function.update_self ..

theorem withCall_calls_of_ne (v : View) {me other : JobId} (call : Option (Nat × Call)) (h : other ≠ me) :
    (v.withCall me call).calls other = v.calls other := Function.update_of_ne h ..

theorem after_calls_of_ne (v : View) {me other : JobId} (i : Nat) (a : Advance) (h : other ≠ me) :
    (v.after me i a).calls other = v.calls other := Function.update_of_ne h ..

/-- The job that took the step makes its call, if that goes on. -/
theorem after_calls_self {v : View} {me : JobId} {i j : Nat} {a : Advance} {c : Call}
    (h : (v.after me i a).calls me = some (j, c)) : j = i ∧ a.progress = .going c := by
  simp only [after, Function.update_self] at h
  split at h
  · rename_i hp
    cases h
    exact ⟨rfl, hp⟩
  · cases h

/-- A step in one place leaves the others alone. -/
theorem serialAt_afterStep {v : View} {i : Nat} {ws : Workspace} (h : v.workspaces[i]? = some ws)
    (me : JobId) (a : Advance) (j : Nat) :
    (v.after me i a).serialAt j = if i = j then a.workspace.context.map (·.serial) else v.serialAt j := by
  have hi : i < v.workspaces.length := (List.getElem?_eq_some_iff.1 h).1
  unfold serialAt after
  rw [List.getElem?_set]
  by_cases hij : i = j
  · subst hij
    simp [hi]
  · simp [hij]

/-- A request to unload leaves the contexts alone. -/
theorem serialAt_unload {v : View} {i : Nat} {ws : Workspace} (hw : v.workspaces[i]? = some ws)
    (unload : UnloadToken) (j : Nat) :
    View.serialAt { v with workspaces := v.workspaces.set i { ws with unload } } j = v.serialAt j := by
  have hi : i < v.workspaces.length := (List.getElem?_eq_some_iff.1 hw).1
  by_cases hij : i = j
  · subst hij
    rw [serialAt_eq hw, serialAt_eq (List.getElem?_set_self hi)]
  · simp [serialAt, List.getElem?_set_ne hij]

/-- A view that a run can show: each lock is held by the call that waits under it, each batch is open in
the context of its workspace, and no context is in two places or known before it came. -/
structure Sound (t : Terms) (v : View) : Prop where
  proper : ∀ {me i c}, v.calls me = some (i, c) → c.Proper ∧ (c.request.isWrite → t.writes)
  locked : ∀ {me i c}, v.calls me = some (i, c) → c.phase.holds →
    ∃ ws, v.workspaces[i]? = some ws ∧ ws.lock.holder = some me
  closing : ∀ {me i c batch}, v.calls me = some (i, c) → c.phase = .closing batch →
    v.serialAt i = some batch.serial
  early : ∀ {i n}, v.serialAt i = some n → n < v.session.created
  apart : ∀ {i j n}, v.serialAt i = some n → v.serialAt j = some n → i = j
  unborn : ∀ {n}, v.session.created ≤ n → v.callsOf n = []

variable {t : Terms} {v v' : View}

theorem sound_initial (t : Terms) (setup : Setup) : (World.initial setup).view.Sound t := by
  refine ⟨nofun, nofun, nofun, ?_, ?_, fun _ => rfl⟩
  · intro i n h
    simp [serialAt, World.view, World.initial] at h
  · intro i j n h
    simp [serialAt, World.view, World.initial] at h

/-- Adding workspaces keeps a view sound. -/
theorem Sound.adding (h : v.Sound t) (slices : List Slice) : (v.adding slices).Sound t := by
  refine ⟨h.proper, fun hc hp => ?_, fun hc hp => ?_, fun hs => ?_, fun hi hj => ?_, h.unborn⟩
  · obtain ⟨ws, hw, hl⟩ := h.locked hc hp
    have hi := (List.getElem?_eq_some_iff.1 hw).1
    exact ⟨ws, (List.getElem?_append_left hi).trans hw, hl⟩
  · rw [serialAt_adding]
    exact h.closing hc hp
  · rw [serialAt_adding] at hs
    exact h.early hs
  · rw [serialAt_adding] at hi hj
    exact h.apart hi hj

/-- A job that ends, or begins a call, keeps a view sound. -/
theorem Sound.withCall (h : v.Sound t) {me : JobId} {call : Option (Nat × Call)}
    (hc : ∀ i c, call = some (i, c) → c.Proper ∧ (c.request.isWrite → t.writes) ∧ c.phase.holds = false) :
    (v.withCall me call).Sound t := by
  -- a call of this view is the one put in, which holds no lock, or one of the view before
  have old {other i c} (hcall : (v.withCall me call).calls other = some (i, c)) (hp : c.phase.holds) :
      v.calls other = some (i, c) := by
    by_cases ho : other = me
    · subst ho
      rw [withCall_calls_self] at hcall
      have := (hc i c hcall).2.2
      rw [hp] at this
      cases this
    · rwa [withCall_calls_of_ne _ _ ho] at hcall
  refine ⟨fun {other i c} hcall => ?_, fun hcall hp => h.locked (old hcall hp) hp, fun hcall hp => ?_,
    h.early, h.apart, h.unborn⟩
  · by_cases ho : other = me
    · subst ho
      rw [withCall_calls_self] at hcall
      exact ⟨(hc i c hcall).1, (hc i c hcall).2.1⟩
    · rw [withCall_calls_of_ne _ _ ho] at hcall
      exact h.proper hcall
  · exact h.closing (old hcall (by rw [hp]; rfl)) hp

/-- A step of a call, seen from a sound view. -/
theorem Sound.steps (h : v.Sound t) (env : Environment) {me : JobId} {i : Nat} {c : Call} {ws : Workspace}
    (hc : v.calls me = some (i, c)) (hw : v.workspaces[i]? = some ws) :
    c.Steps me v.session ws (c.advance t.setup env me v.session ws) := by
  refine (Call.advances (h.proper hc).1).steps (h.proper hc).1 (fun hp => ?_) fun batch hb => ?_
  · obtain ⟨ws', hw', hl⟩ := h.locked hc hp
    cases hw.symm.trans hw'
    exact hl
  · exact (serialAt_eq hw).symm.trans (h.closing hc hb)

/-- A step of a call keeps a view sound. -/
theorem Sound.after (h : v.Sound t) {me : JobId} {i : Nat} {c : Call} {ws : Workspace} {a : Advance}
    (hc : v.calls me = some (i, c)) (hw : v.workspaces[i]? = some ws) (ha : c.Steps me v.session ws a) :
    (v.after me i a).Sound t := by
  have hi : i < v.workspaces.length := (List.getElem?_eq_some_iff.1 hw).1
  have hself : (v.after me i a).workspaces[i]? = some a.workspace := by
    show (v.workspaces.set i a.workspace)[i]? = _
    rw [List.getElem?_set_self hi]
  have hother {j} (hj : j ≠ i) : (v.after me i a).workspaces[j]? = v.workspaces[j]? :=
    List.getElem?_set_ne hj.symm
  have hserial := serialAt_afterStep hw me a
  have hws := serialAt_eq hw
  have hcreated := ha.created_le
  have hafter {n} (hn : a.workspace.context.map (·.serial) = some n) :
      v.serialAt i = some n ∨ n = v.session.created ∧ a.session.created = v.session.created + 1 := by
    rw [hws]
    exact ha.serial hn
  constructor
  case proper =>
    intro other j c' hcall
    by_cases ho : other = me
    · subst ho
      obtain ⟨-, hp⟩ := after_calls_self hcall
      obtain ⟨hr, hproper⟩ := ha.request c' hp
      exact ⟨hproper, hr ▸ (h.proper hc).2⟩
    · rw [after_calls_of_ne _ _ _ ho] at hcall
      exact h.proper hcall
  case locked =>
    intro other j c' hcall hp
    by_cases ho : other = me
    · subst ho
      obtain ⟨rfl, hgo⟩ := after_calls_self hcall
      exact ⟨_, hself, ha.holds c' hgo hp⟩
    · -- a lock that another job holds stays with it, whatever this step does
      rw [after_calls_of_ne _ _ _ ho] at hcall
      obtain ⟨ws', hw', hl⟩ := h.locked hcall hp
      by_cases hj : j = i
      · subst hj
        cases hw.symm.trans hw'
        exact ⟨_, hself, (ha.lock other ho hl).1⟩
      · exact ⟨ws', (hother hj).trans hw', hl⟩
  case closing =>
    intro other j c' batch hcall hp
    rw [hserial]
    by_cases ho : other = me
    · subst ho
      obtain ⟨rfl, hgo⟩ := after_calls_self hcall
      rw [if_pos rfl]
      exact ha.closing c' batch hgo hp
    · -- who has a batch open here holds the lock, so this step leaves the context
      rw [after_calls_of_ne _ _ _ ho] at hcall
      by_cases hj : i = j
      · subst hj
        obtain ⟨ws', hw', hl⟩ := h.locked hcall (by rw [hp]; rfl)
        cases hw.symm.trans hw'
        rw [if_pos rfl, (ha.lock other ho hl).2, ← hws]
        exact h.closing hcall hp
      · rw [if_neg hj]
        exact h.closing hcall hp
  case early =>
    intro j n hs
    rw [hserial] at hs
    split at hs
    · obtain hs | ⟨hs, hs'⟩ := hafter hs
      · exact Nat.lt_of_lt_of_le (h.early hs) hcreated
      · show n < a.session.created
        omega
    · exact Nat.lt_of_lt_of_le (h.early hs) hcreated
  case apart =>
    -- a context that comes with the step has a serial of its own
    intro j k n hj hk
    rw [hserial] at hj hk
    split at hj <;> split at hk
    · rename_i hij hik
      exact hij.symm.trans hik
    · rename_i hij hik
      obtain hs | ⟨hs, -⟩ := hafter hj
      · exact absurd (h.apart hs hk) hik
      · exact absurd (h.early hk) (by omega)
    · rename_i hij hik
      obtain hs | ⟨hs, -⟩ := hafter hk
      · exact absurd (h.apart hs hj) hij
      · exact absurd (h.early hj) (by omega)
    · exact h.apart hj hk
  case unborn =>
    intro n hn
    have hn' : a.session.created ≤ n := hn
    rw [callsOf_afterStep, h.unborn (Nat.le_trans hcreated hn), List.nil_append]
    obtain ⟨-, -, he⟩ | ⟨-, -, hs, he⟩ := ha.context
    · refine he n fun hs => ?_
      exact absurd (h.early (hws.trans hs)) (by omega)
    · exact he n (by omega)

/-- Every move keeps a view sound. -/
theorem Sound.move (h : v.Sound t) {ended : List Ending} (hm : Move t v v' ended) : v'.Sound t := by
  cases hm with
  | adds slices => exact h.adding slices
  | activates active => exact ⟨h.proper, h.locked, h.closing, h.early, h.apart, h.unborn⟩
  | @unloads i ws cause hw =>
    have hi : i < v.workspaces.length := (List.getElem?_eq_some_iff.1 hw).1
    have hserial := serialAt_unload hw (ws.unload.cancel cause)
    refine ⟨h.proper, fun {me j c} hc hp => ?_, fun hc hp => ?_, fun hs => ?_, fun hj hk => ?_, h.unborn⟩
    · obtain ⟨ws', hw', hl⟩ := h.locked hc hp
      by_cases hij : i = j
      · subst hij
        cases hw.symm.trans hw'
        exact ⟨_, List.getElem?_set_self hi, hl⟩
      · exact ⟨ws', (List.getElem?_set_ne hij).trans hw', hl⟩
    · rw [hserial]
      exact h.closing hc hp
    · rw [hserial] at hs
      exact h.early hs
    · rw [hserial] at hj hk
      exact h.apart hj hk
  | @begins me i request hc hr =>
    refine h.withCall fun j c hcall => ?_
    cases hcall
    exact ⟨Call.start_proper request, hr, Call.start_holds request⟩
  | misses slices hc hw => exact (h.withCall fun _ _ h => by cases h).adding slices
  | steps slices he hc hw => exact (h.after hc hw (h.steps _ hc hw)).adding slices

end View

end SliceSync
