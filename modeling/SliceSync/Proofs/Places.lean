import SliceSync.Proofs.Views
/-!
# One workspace among all

Whatever the jobs of a world do, one workspace sees a sequence of turns: a passage under its lock, the
closing of a batch, the end of a release, or something that passes it by. A move of a sound view is a
`Turn` of each workspace (`Sound.turn`), so that a statement about one workspace is proved turn by turn.
-/

namespace SliceSync

/-! ## Turns of one workspace -/

/-- What concerns one workspace. -/
structure Place where
  workspace : Workspace
  /-- The call that waits while it holds the lock. -/
  inside : Option Call
  /-- The calls that the context has received, if there is one. -/
  received : List ContextCall

/-- How a call goes on from the end of a passage, while it holds the lock. -/
def Held.inside (request : Request) : Held → Option Call
  | .finished _ => none
  | .closing batch => some ⟨request, .closing batch⟩
  | .releasing handle => some ⟨request, .releasing handle⟩

/-- The end of a call with a passage. -/
def Passage.endings (i : Nat) (request : Request) (q : Passage) : List Ending :=
  match q.held with
  | .finished result => [⟨i, request, result⟩]
  | _ => []

namespace Place

/-- Without a context nothing is received. -/
def Quiet (p : Place) : Prop := p.workspace.context = none → p.received = []

/-- A workspace that was just added. -/
def fresh (slice : Slice) : Place := ⟨{ slice }, none, []⟩

/-- The place after a passage under its lock, which is handed on as `last`. -/
def after (p : Place) (request : Request) (q : Passage) (last : Lock) : Place where
  workspace := { q.workspace with lock := last }
  inside := q.held.inside request
  received :=
    match q.workspace.context with
    | none => []
    | some handle => p.received ++ Event.callsOf handle.serial q.events

end Place

/-- The ways a move can concern one workspace, with the calls on it that end. -/
inductive Turn (t : Terms) (i : Nat) (p : Place) : Place → List Ending → Prop
  /-- It passes the workspace by, but for the line at the lock and requests to unload. -/
  | aside {lock : Lock} {unload : UnloadToken} {ended : List Ending}
      (he : ∀ e ∈ ended, ∀ u, e.request = .update u → ∃ error, e.result = .error error) :
      Turn t i p { p with workspace := { p.workspace with lock, unload } } ended
  /-- A request gets the lock. -/
  | enters {env : Environment} {session : Session} {request : Request} {lock last : Lock}
      {unload : UnloadToken} (he : t.fits env) (hr : request.isWrite → t.writes) (hi : p.inside = none) :
      Turn t i p
        (p.after request (request.passage t.setup env session { p.workspace with lock, unload }) last)
        ((request.passage t.setup env session { p.workspace with lock, unload }).endings i request)
  /-- A batch closes. -/
  | closes {env : Environment} {session : Session} {request : Request} {batch : OpenBatch} {last : Lock}
      (he : t.fits env) (hg : env.gateOpen = true) (hi : p.inside = some ⟨request, .closing batch⟩) :
      Turn t i p (p.after request (p.workspace.close env session batch) last)
        ((p.workspace.close env session batch).endings i request)
  /-- A context is gone. -/
  | parts {session : Session} {cause : DisposeCause} {handle : ContextHandle} {last : Lock}
      (hi : p.inside = some ⟨.dispose cause, .releasing handle⟩) :
      Turn t i p (p.after (.dispose cause) (p.workspace.finishDispose session handle) last)
        ((p.workspace.finishDispose session handle).endings i (.dispose cause))

namespace View

/-- What the context in a place has received. -/
def heardAt (v : View) (i : Nat) : List ContextCall :=
  match v.serialAt i with
  | none => []
  | some n => v.callsOf n

/-- The view shows this in a place. -/
structure Shows (v : View) (i : Nat) (p : Place) : Prop where
  workspace : v.workspaces[i]? = some p.workspace
  inside : ∀ c, p.inside = some c ↔ ∃ me, v.calls me = some (i, c) ∧ c.phase.holds
  received : p.received = v.heardAt i

variable {t : Terms} {v v' : View} {i : Nat} {p : Place}

/-- A view shows one thing in a place. -/
theorem Shows.unique {q : Place} (hp : v.Shows i p) (hq : v.Shows i q) : p = q := by
  obtain ⟨workspace, inside, received⟩ := p
  obtain ⟨workspace', inside', received'⟩ := q
  obtain rfl : workspace = workspace' := Option.some.inj (hp.workspace.symm.trans hq.workspace)
  obtain rfl : inside = inside' := Option.ext fun c => (hp.inside c).trans (hq.inside c).symm
  obtain rfl : received = received' := hp.received.trans hq.received.symm
  rfl

/-- What is shown depends on what is in the place only. -/
theorem Shows.congr (h : v.Shows i p) (hw : v'.workspaces[i]? = some p.workspace)
    (hc : ∀ c, c.phase.holds → ((∃ me, v'.calls me = some (i, c)) ↔ ∃ me, v.calls me = some (i, c)))
    (hr : v'.heardAt i = v.heardAt i) : v'.Shows i p := by
  refine ⟨hw, fun c => ?_, h.received.trans hr.symm⟩
  rw [h.inside]
  by_cases hp : c.phase.holds
  · simpa [hp] using (hc c hp).symm
  · simp [hp]

theorem Shows.adding (h : v.Shows i p) (slices : List Slice) : (v.adding slices).Shows i p := by
  refine h.congr ?_ (fun _ _ => .rfl) (by simp [heardAt])
  have hi := (List.getElem?_eq_some_iff.1 h.workspace).1
  exact (List.getElem?_append_left hi).trans h.workspace

/-- A job that ends outside of a lock, or begins a call, is not shown. -/
theorem Shows.withCall (h : v.Shows i p) {me : JobId} {call : Option (Nat × Call)}
    (ho : ∀ c, v.calls me = some (i, c) → c.phase.holds = false)
    (hn : ∀ c, call = some (i, c) → c.phase.holds = false) : (v.withCall me call).Shows i p := by
  refine h.congr h.workspace (fun c hp => ?_) rfl
  constructor
  · rintro ⟨other, hother⟩
    by_cases hme : other = me
    · subst hme
      rw [withCall_calls_self] at hother
      exact absurd hp (by simp [hn c hother])
    · exact ⟨other, by rwa [withCall_calls_of_ne _ _ hme] at hother⟩
  · rintro ⟨other, hother⟩
    refine ⟨other, ?_⟩
    by_cases hme : other = me
    · subst hme
      exact absurd hp (by simp [ho c hother])
    · rwa [withCall_calls_of_ne _ _ hme]

/-- The lock of a place is held by the call inside. -/
theorem Sound.holder (hs : v.Sound t) (h : v.Shows i p) {c : Call} (hi : p.inside = some c) :
    ∃ me, v.calls me = some (i, c) ∧ p.workspace.lock.holder = some me := by
  obtain ⟨me, hc, hp⟩ := (h.inside c).1 hi
  obtain ⟨ws, hw, hl⟩ := hs.locked hc hp
  cases h.workspace.symm.trans hw
  exact ⟨me, hc, hl⟩

/-- A call that holds the lock is the one inside. -/
theorem Shows.inside_of_holds (h : v.Shows i p) {me : JobId} {c : Call} (hc : v.calls me = some (i, c))
    (hp : c.phase.holds) : p.inside = some c := (h.inside c).2 ⟨me, hc, hp⟩

/-- With the lock free, or held by a call that does not wait under it, nobody is inside. -/
theorem Sound.inside_eq_none (hs : v.Sound t) (h : v.Shows i p) {me : JobId} {c : Call}
    (hc : v.calls me = some (i, c)) (hp : c.phase.holds = false)
    (hl : p.workspace.lock.holder = none ∨ p.workspace.lock.holder = some me) : p.inside = none := by
  cases hi : p.inside with
  | none => rfl
  | some c' =>
    obtain ⟨other, hc', hl'⟩ := hs.holder h hi
    obtain ⟨-, -, hp'⟩ := (h.inside c').1 hi
    rw [hl'] at hl
    obtain hl | hl := hl
    · cases hl
    · cases hl
      cases hc.symm.trans hc'
      rw [hp] at hp'
      cases hp'

/-- What the context in a place has received after a step there. -/
theorem Sound.heardAt_after (hs : v.Sound t) {me : JobId} {c : Call} {ws : Workspace} {a : Advance}
    (hw : v.workspaces[i]? = some ws) (ha : c.Steps me v.session ws a) :
    (v.after me i a).heardAt i =
      match a.workspace.context with
      | none => []
      | some handle => v.heardAt i ++ Event.callsOf handle.serial a.events := by
  unfold heardAt
  rw [serialAt_afterStep hw, if_pos rfl, serialAt_eq hw]
  cases hctx : a.workspace.context with
  | none => rfl
  | some handle =>
    show (v.after me i a).callsOf handle.serial = _
    rw [callsOf_afterStep]
    obtain ⟨-, hc | hc, -⟩ | ⟨hn, hc, -, -⟩ := ha.context
    · rw [← hc, hctx]
      rfl
    · rw [hctx] at hc
      cases hc
    · rw [hctx] at hc
      have hserial : handle.serial = v.session.created := Option.some.inj hc
      rw [hn, hs.unborn (Nat.le_of_eq hserial.symm)]
      rfl

/-- What is shown after a step in the place, given who is inside then. -/
theorem Sound.shows_after (hs : v.Sound t) (h : v.Shows i p) {me : JobId} {c : Call} {a : Advance}
    (hc : v.calls me = some (i, c)) (ha : c.Steps me v.session p.workspace a) {p' : Place}
    (hw : p'.workspace = a.workspace)
    (hi : ∀ c', p'.inside = some c' ↔ (a.progress = .going c' ∧ c'.phase.holds) ∨
      (c.phase.holds = false ∧ p.inside = some c'))
    (hr : p'.received = match a.workspace.context with
      | none => []
      | some handle => p.received ++ Event.callsOf handle.serial a.events) :
    (v.after me i a).Shows i p' := by
  have hlt : i < v.workspaces.length := (List.getElem?_eq_some_iff.1 h.workspace).1
  refine ⟨?_, fun c' => ?_, ?_⟩
  · rw [hw]
    exact List.getElem?_set_self hlt
  · rw [hi]
    constructor
    · rintro (⟨hgo, hp⟩ | ⟨hp, hin⟩)
      · refine ⟨me, ?_, hp⟩
        show Function.update v.calls me _ me = _
        rw [Function.update_self, hgo]
      · obtain ⟨other, hother, hp'⟩ := (h.inside c').1 hin
        refine ⟨other, ?_, hp'⟩
        have ho : other ≠ me := by
          rintro rfl
          cases hc.symm.trans hother
          rw [hp] at hp'
          cases hp'
        rw [after_calls_of_ne _ _ _ ho]
        exact hother
    · rintro ⟨other, hother, hp'⟩
      by_cases ho : other = me
      · subst ho
        exact .inl ⟨(after_calls_self hother).2, hp'⟩
      · -- two calls cannot both hold the lock
        rw [after_calls_of_ne _ _ _ ho] at hother
        have hin := h.inside_of_holds hother hp'
        refine .inr ⟨?_, hin⟩
        cases hp : c.phase.holds with
        | false => rfl
        | true =>
          obtain ⟨ws, hws, hl⟩ := hs.locked hc hp
          obtain ⟨ws', hws', hl'⟩ := hs.locked hother hp'
          cases hws.symm.trans hws'
          rw [hl] at hl'
          exact absurd (Option.some.inj hl').symm ho
  · rw [hr, hs.heardAt_after h.workspace ha, h.received]

theorem Shows.quiet (h : v.Shows i p) : p.Quiet := by
  intro hc
  rw [h.received, heardAt, serialAt_eq h.workspace, hc]
  rfl

/-- Nothing new is heard where no context hears anything. -/
theorem Shows.received_quiet (h : v.Shows i p) {events : List Event}
    (he : ∀ n, Event.callsOf n events = []) :
    p.received = match p.workspace.context with
      | none => []
      | some handle => p.received ++ Event.callsOf handle.serial events := by
  split
  · rename_i hc
    exact h.quiet hc
  · rw [he, List.append_nil]

/-- The end of a passage under the lock is what the place shows next. -/
theorem Sound.shows_conclude (hs : v.Sound t) (h : v.Shows i p) {me : JobId} {c : Call}
    {q : Passage} (hc : v.calls me = some (i, c)) (hin : c.phase.holds = false → p.inside = none)
    (ha : c.Steps me v.session p.workspace (c.conclude t.setup q)) :
    ∃ last, (v.after me i (c.conclude t.setup q)).Shows i (p.after c.request q last) ∧
      (c.conclude t.setup q).endings i c.request = q.endings i c.request := by
  have outside (c' : Call) : ¬(c.phase.holds = false ∧ p.inside = some c') := by
    rintro ⟨hp, hin'⟩
    rw [hin hp] at hin'
    cases hin'
  have hcalls (n : Nat) : Event.callsOf n (c.conclude t.setup q).events = _ := Call.callsOf_conclude n q
  have hcontext : (c.conclude t.setup q).workspace.context = _ := Call.conclude_context q
  unfold Call.conclude at ha hcalls hcontext ⊢
  cases hh : q.held with
  | finished result =>
    simp only [hh] at ha hcalls hcontext ⊢
    refine ⟨q.workspace.lock.release, hs.shows_after h hc ha rfl (fun c' => ?_) ?_, ?_⟩
    · simp [Place.after, hh, Held.inside, outside]
    · simp [Place.after, hcalls]
    · simp [Advance.endings, Passage.endings, hh]
  | closing batch =>
    simp only [hh] at ha hcalls hcontext ⊢
    refine ⟨q.workspace.lock, hs.shows_after h hc ha rfl (fun c' => ?_) rfl, ?_⟩
    · simp only [Place.after, hh, Held.inside, outside, or_false, Option.some.injEq, Progress.going.injEq]
      constructor
      · rintro rfl
        exact ⟨rfl, rfl⟩
      · exact And.left
    · simp [Advance.endings, Passage.endings, hh]
  | releasing handle =>
    simp only [hh] at ha hcalls hcontext ⊢
    refine ⟨q.workspace.lock, hs.shows_after h hc ha rfl (fun c' => ?_) rfl, ?_⟩
    · simp only [Place.after, hh, Held.inside, outside, or_false, Option.some.injEq, Progress.going.injEq]
      constructor
      · rintro rfl
        exact ⟨rfl, rfl⟩
      · exact And.left
    · simp [Advance.endings, Passage.endings, hh]

/-- A step of a call is a turn of the workspace it is on. -/
theorem Sound.turn_step (hs : v.Sound t) (h : v.Shows i p) {env : Environment} {me : JobId} {c : Call}
    (he : t.fits env) (hc : v.calls me = some (i, c)) :
    ∃ p', (v.after me i (c.advance t.setup env me v.session p.workspace)).Shows i p' ∧
      Turn t i p p' ((c.advance t.setup env me v.session p.workspace).endings i c.request) := by
  have hsteps := hs.steps env hc h.workspace
  have hadv : Call.Advances t.setup env me c v.session p.workspace _ := Call.advances (hs.proper hc).1
  generalize c.advance t.setup env me v.session p.workspace = a at hsteps hadv ⊢
  -- a call that gets the lock finds nobody inside; one that has it is inside itself
  cases hadv with
  | stays =>
    refine ⟨p, hs.shows_after h hc hsteps rfl (fun c' => ?_) (h.received_quiet fun _ => rfl),
      .aside fun _ he => absurd he List.not_mem_nil⟩
    cases hp : c.phase.holds with
    | false =>
      constructor
      · exact fun hin => .inr ⟨rfl, hin⟩
      · rintro (⟨hgo, hp'⟩ | ⟨-, hin⟩)
        · cases hgo
          rw [hp] at hp'
          cases hp'
        · exact hin
    | true =>
      rw [h.inside_of_holds hc hp]
      constructor
      · rintro ⟨⟩
        exact .inl ⟨rfl, hp⟩
      · rintro (⟨hgo, -⟩ | ⟨hp', -⟩)
        · cases hgo
          rfl
        · cases hp'
  | @approaches phase lock unload hp hp' hb hl =>
    refine ⟨{ p with workspace := { p.workspace with lock, unload } },
      hs.shows_after h hc hsteps rfl (fun c' => ?_) (h.received_quiet fun _ => rfl),
      .aside fun _ he => absurd he List.not_mem_nil⟩
    constructor
    · exact fun hin => .inr ⟨hp, hin⟩
    · rintro (⟨hgo, hc'⟩ | ⟨-, hin⟩)
      · cases hgo
        exact absurd (hp'.symm.trans hc') nofun
      · exact hin
  | @leaves lock result hp hl hr =>
    refine ⟨{ p with workspace := { p.workspace with lock } },
      hs.shows_after h hc hsteps rfl (fun c' => ?_)
        (h.received_quiet fun n => Call.callsOf_report n t.setup c result), .aside ?_⟩
    · constructor
      · exact fun hin => .inr ⟨hp, hin⟩
      · rintro (⟨hgo, -⟩ | ⟨-, hin⟩)
        · cases hgo
        · exact hin
    · intro e he u hu
      cases List.mem_singleton.1 he
      exact hr u hu
  | @enters lock unload hp hf hl =>
    rw [Call.enter_eq] at hsteps ⊢
    have hin : p.inside = none := hs.inside_eq_none h hc hp hf
    obtain ⟨last, hshows, hends⟩ := hs.shows_conclude h hc (fun _ => hin) hsteps
    rw [hends]
    exact ⟨_, hshows, .enters he (hs.proper hc).2 hin⟩
  | @closes batch hp hg =>
    have hin : p.inside = some c := h.inside_of_holds hc (by rw [hp]; rfl)
    obtain ⟨last, hshows, hends⟩ := hs.shows_conclude h hc (fun hp' => by rw [hp] at hp'; cases hp') hsteps
    rw [hends]
    refine ⟨_, hshows, ?_⟩
    obtain ⟨request, phase⟩ := c
    cases hp
    exact .closes he hg hin
  | @parts handle hp hd =>
    have hin : p.inside = some c := h.inside_of_holds hc (by rw [hp]; rfl)
    obtain ⟨last, hshows, hends⟩ := hs.shows_conclude h hc (fun hp' => by rw [hp] at hp'; cases hp') hsteps
    rw [hends]
    refine ⟨_, hshows, ?_⟩
    obtain ⟨cause, hr⟩ := (hs.proper hc).1.releasing handle hp
    obtain ⟨request, phase⟩ := c
    cases hp
    cases hr
    exact .parts hin

/-- A step elsewhere passes the workspace by. -/
theorem Sound.shows_elsewhere (hs : v.Sound t) (h : v.Shows i p) {me : JobId} {j : Nat} {c : Call}
    {ws : Workspace} {a : Advance} (hij : i ≠ j) (hc : v.calls me = some (j, c))
    (hw : v.workspaces[j]? = some ws) (ha : c.Steps me v.session ws a) : (v.after me j a).Shows i p := by
  refine h.congr ((List.getElem?_set_ne hij.symm).trans h.workspace) (fun c' _ => ?_) ?_
  · constructor
    · rintro ⟨other, hother⟩
      by_cases ho : other = me
      · subst ho
        exact absurd (after_calls_self hother).1 hij
      · exact ⟨other, by rwa [after_calls_of_ne _ _ _ ho] at hother⟩
    · rintro ⟨other, hother⟩
      refine ⟨other, ?_⟩
      by_cases ho : other = me
      · subst ho
        cases hc.symm.trans hother
        exact absurd rfl hij
      · rwa [after_calls_of_ne _ _ _ ho]
  · unfold heardAt
    rw [serialAt_afterStep hw, if_neg (Ne.symm hij)]
    cases hi : v.serialAt i with
    | none => rfl
    | some n =>
      -- the context here is neither the one there nor one that comes
      have hn : v.serialAt j ≠ some n := fun hj => hij (hs.apart hi hj)
      have hlt : n < v.session.created := hs.early hi
      show (v.after me j a).callsOf n = v.callsOf n
      rw [callsOf_afterStep]
      obtain ⟨-, -, he⟩ | ⟨-, -, -, he⟩ := ha.context
      · rw [he n (serialAt_eq hw ▸ hn), List.append_nil]
      · rw [he n (Nat.ne_of_lt hlt), List.append_nil]

/-- Every move is a turn of each workspace that is there. -/
theorem Sound.turn (hs : v.Sound t) (h : v.Shows i p) {ended : List Ending} (hm : Move t v v' ended) :
    ∃ p', v'.Shows i p' ∧ Turn t i p p' (ended.filter (·.place = i)) := by
  have rest : Turn t i p p [] := .aside fun _ he => absurd he List.not_mem_nil
  cases hm with
  | adds slices => exact ⟨p, h.adding slices, rest⟩
  | activates active => exact ⟨p, ⟨h.workspace, h.inside, h.received⟩, rest⟩
  | @unloads j ws cause hw =>
    have hj : j < v.workspaces.length := (List.getElem?_eq_some_iff.1 hw).1
    by_cases hij : i = j
    · subst hij
      cases hw.symm.trans h.workspace
      refine ⟨{ p with workspace := { p.workspace with unload := p.workspace.unload.cancel cause } },
        ⟨List.getElem?_set_self hj, h.inside, ?_⟩,
        .aside fun _ he => absurd he List.not_mem_nil⟩
      rw [h.received, heardAt, heardAt, serialAt_eq h.workspace, serialAt_eq (List.getElem?_set_self hj)]
      rfl
    · refine ⟨p, h.congr ((List.getElem?_set_ne (Ne.symm hij)).trans h.workspace) (fun _ _ => .rfl) ?_, rest⟩
      unfold heardAt
      rw [serialAt_unload hw]
      rfl
  | @begins me j request hc hr =>
    refine ⟨p, h.withCall (fun c hc' => ?_) (fun c hc' => ?_), rest⟩
    · rw [hc] at hc'
      cases hc'
    · cases hc'
      exact Call.start_holds request
  | @misses me j c slices hc hw =>
    have hij : j ≠ i := by
      rintro rfl
      rw [h.workspace] at hw
      cases hw
    refine ⟨p, (h.withCall (fun c' hc' => ?_) fun _ hc' => by cases hc').adding slices, ?_⟩
    · cases hc.symm.trans hc'
      exact absurd rfl hij
    · rw [List.filter_cons_of_neg (by simpa using hij)]
      exact rest
  | @steps env me j c ws slices he hc hw =>
    by_cases hij : i = j
    · subst hij
      cases hw.symm.trans h.workspace
      obtain ⟨p', hp', hturn⟩ := hs.turn_step h he hc
      refine ⟨p', hp'.adding slices, ?_⟩
      rwa [List.filter_eq_self.2]
      intro e hmem
      simp [Advance.mem_endings hmem]
    · refine ⟨p, (hs.shows_elsewhere h hij hc hw (hs.steps _ hc hw)).adding slices, ?_⟩
      rw [List.filter_eq_nil_iff.2]
      · exact rest
      intro e hmem
      simpa [Advance.mem_endings hmem] using Ne.symm hij

/-- A workspace that a move brings has no context, and nobody is inside. -/
theorem Sound.shows_fresh (hs : v.Sound t) {ws : Workspace} {ended : List Ending} (hm : Move t v v' ended)
    (ho : v.workspaces[i]? = none) (hn : v'.workspaces[i]? = some ws) :
    ∃ slice, v'.Shows i (.fresh slice) := by
  have hs' := hs.move hm
  have hle : v.workspaces.length ≤ i := List.getElem?_eq_none_iff.1 ho
  -- a new workspace comes last in the list, with nothing but its slice
  have added (workspaces : List Workspace) (slices : List Slice)
      (hlen : workspaces.length = v.workspaces.length)
      (h : (workspaces ++ slices.map fun slice => ({ slice } : Workspace))[i]? = some ws) :
      ∃ slice, ws = { slice } := by
    rw [List.getElem?_append_right (hlen ▸ hle), List.getElem?_map] at h
    obtain ⟨slice, -, rfl⟩ := Option.map_eq_some_iff.1 h
    exact ⟨slice, rfl⟩
  have hslice : ∃ slice, ws = { slice } := by
    cases hm with
    | adds slices => exact added _ slices rfl hn
    | misses slices hc hw => exact added _ slices rfl hn
    | steps slices he hc hw => exact added _ slices (List.length_set ..) hn
    | activates active => exact absurd (ho.symm.trans hn) nofun
    | begins hc hr => exact absurd (ho.symm.trans hn) nofun
    | unloads cause hw =>
      rw [List.getElem?_eq_none_iff.2 (by rwa [List.length_set])] at hn
      cases hn
  obtain ⟨slice, rfl⟩ := hslice
  refine ⟨slice, hn, fun c => ⟨nofun, ?_⟩, ?_⟩
  · rintro ⟨me, hc, hp⟩
    obtain ⟨ws, hw, hl⟩ := hs'.locked hc hp
    cases hn.symm.trans hw
    cases hl
  · rw [heardAt, serialAt_eq hn]
    rfl

/-- A call on a workspace that is not there ends with an error. -/
theorem error_of_absent {ended : List Ending} (hm : Move t v v' ended) (ho : v.workspaces[i]? = none) :
    ∀ e ∈ ended.filter (·.place = i), ∃ error, e.result = .error error := by
  intro e he
  obtain ⟨he, hi⟩ := List.mem_filter.1 he
  cases hm with
  | misses slices hc hw =>
    cases List.mem_singleton.1 he
    exact ⟨_, rfl⟩
  | steps slices hfits hc hw =>
    rw [← Advance.mem_endings he, of_decide_eq_true hi, ho] at hw
    cases hw
  | _ => cases he

/-- So it stays with errors as long as it is not there. -/
theorem errors_of_absent {past ended : List Ending} (hm : Move t v v' ended) (ho : v.workspaces[i]? = none)
    (he : ∀ e ∈ past, ∃ error, e.result = .error error) :
    ∀ e ∈ past ++ ended.filter (·.place = i), ∃ error, e.result = .error error :=
  List.forall_mem_append.2 ⟨he, error_of_absent hm ho⟩

end View

/-! ## Runs, seen from one workspace -/

/-- The workspace in a place has this property, with the calls on it that ended so far; or there is none
yet, and no call on it went well. -/
def View.Stands (v : View) (i : Nat) (P : Place → List Ending → Prop) (past : List Ending) : Prop :=
  v.workspaces[i]? = none ∧ (∀ e ∈ past, ∃ error, e.result = .error error) ∨
    ∃ p, v.Shows i p ∧ P p past

namespace World

variable {t : Terms} {w : World} {i : Nat} {P : Place → List Ending → Prop} {acts : List Act}
  {past : List Ending}

/-- What every act keeps, with the calls on a place that it ends, holds after all acts, with all that they end. -/
theorem runFrom_keeps {Q : World → List Ending → Prop}
    (act : ∀ {w : World} {a : Act} {past}, w.Keeps t → a.Within t → Q w past →
      Q (w.perform a) (past ++ (w.endings a).filter (·.place = i)))
    (hk : w.Keeps t) (hq : Q w past) (ha : ∀ a ∈ acts, a.Within t) :
    (runFrom w acts).Keeps t ∧ Q (runFrom w acts) (past ++ (endingsFrom w acts).filter (·.place = i)) := by
  induction acts generalizing w past with
  | nil => exact ⟨hk, by simpa [endingsFrom, runFrom] using hq⟩
  | cons a rest ih =>
    have hwithin := ha a List.mem_cons_self
    have hrest := ih (keeps_perform hk hwithin) (act hk hwithin hq) fun b hb => ha b (List.mem_cons_of_mem a hb)
    simpa [List.filter_append, List.append_assoc] using hrest

/-- What holds of a fresh workspace and is kept by every turn holds after all acts. -/
theorem stands_runFrom (hk : w.Keeps t) (hs : w.view.Sound t)
    (start : ∀ slice past, (∀ e ∈ past, ∃ error, e.result = .error error) → P (.fresh slice) past)
    (turn : ∀ {p p' past ended}, p.Quiet → P p past → Turn t i p p' ended → P p' (past ++ ended))
    (hp : w.view.Stands i P past) (ha : ∀ a ∈ acts, a.Within t) :
    (runFrom w acts).Keeps t ∧ (runFrom w acts).view.Sound t ∧
      (runFrom w acts).view.Stands i P (past ++ (endingsFrom w acts).filter (·.place = i)) := by
  refine runFrom_keeps (Q := fun w past => w.view.Sound t ∧ w.view.Stands i P past) (fun {w a past} hk hwithin hq => ?_)
    hk ⟨hs, hp⟩ ha
  obtain ⟨hs, hp⟩ := hq
  have hm := perform_moves hk hwithin
  refine ⟨hs.move hm, ?_⟩
  obtain ⟨ho, he⟩ | ⟨p, hshows, hP⟩ := hp
  · have he' := View.errors_of_absent hm ho he
    cases hn : (w.perform a).view.workspaces[i]? with
    | none => exact .inl ⟨hn, he'⟩
    | some ws =>
      obtain ⟨slice, hfresh⟩ := hs.shows_fresh hm ho hn
      exact .inr ⟨_, hfresh, start slice _ he'⟩
  · obtain ⟨p', hshows', hturn⟩ := hs.turn hshows hm
    exact .inr ⟨p', hshows', turn hshows.quiet hP hturn⟩

/-- What holds of a fresh workspace and is kept by every turn holds in every run. -/
theorem stands_run
    (start : ∀ slice past, (∀ e ∈ past, ∃ error, e.result = .error error) → P (.fresh slice) past)
    (turn : ∀ {p p' past ended}, p.Quiet → P p past → Turn t i p p' ended → P p' (past ++ ended))
    (ha : ∀ a ∈ acts, a.Within t) :
    (run t.setup acts).Keeps t ∧ (run t.setup acts).view.Sound t ∧
      (run t.setup acts).view.Stands i P ((history t.setup acts).filter (·.place = i)) :=
  stands_runFrom (keeps_initial t) (View.sound_initial t t.setup) start turn
    (.inl ⟨rfl, fun _ he => absurd he List.not_mem_nil⟩) ha

/-- What a workspace shows, and every turn keeps, it shows after more acts. -/
theorem shows_runFrom (hk : w.Keeps t) (hs : w.view.Sound t)
    (turn : ∀ {p p' past ended}, p.Quiet → P p past → Turn t i p p' ended → P p' (past ++ ended)) {p : Place}
    (hp : w.view.Shows i p) (hP : P p past) (ha : ∀ a ∈ acts, a.Within t) :
    (runFrom w acts).Keeps t ∧ (runFrom w acts).view.Sound t ∧ ∃ p', (runFrom w acts).view.Shows i p' ∧
      P p' (past ++ (endingsFrom w acts).filter (·.place = i)) := by
  induction acts generalizing w p past with
  | nil => exact ⟨hk, hs, p, hp, by simpa [endingsFrom] using hP⟩
  | cons a rest ih =>
    have hwithin := ha a (by simp)
    have hm := perform_moves hk hwithin
    obtain ⟨p', hp', hturn⟩ := hs.turn hp hm
    have := ih (keeps_perform hk hwithin) (hs.move hm) hp' (turn hp.quiet hP hturn) fun b hb => ha b (by simp [hb])
    simpa [List.filter_append, List.append_assoc] using this

end World

end SliceSync
