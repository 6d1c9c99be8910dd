import Mathlib.Data.List.Induction
import SliceSync.Proofs.Places
/-!
# What a context hears

However calls on a workspace mix and whatever the collaborators answer, a context hears whole batches,
one after the other, and at most one end after them. While a batch is open its call waits under the lock
for nothing but the closing, and then closes it, be there a failure or not.

Main statement: `World.callsOf_shape`.
-/

namespace SliceSync

namespace ContextCall

/-- The calls that make up batches, one after the other. -/
def batches (l : List (List Mutation)) : List ContextCall :=
  l.flatMap fun mutations => .startBatch :: mutations.map .mutate ++ [.endBatch]

@[simp] theorem batches_nil : batches [] = [] := rfl

theorem batches_concat (l : List (List Mutation)) (mutations : List Mutation) :
    batches (l ++ [mutations]) = batches l ++ .startBatch :: mutations.map .mutate ++ [.endBatch] := by
  simp [batches]

end ContextCall

open ContextCall (batches batches_concat)

namespace Place

/-- The context of a place has heard whole batches, and the start of one that is to be closed. -/
structure Tidy (p : Place) : Prop where
  whole : (∀ request batch, p.inside ≠ some ⟨request, .closing batch⟩) → ∃ l, p.received = batches l
  opened : ∀ request batch, p.inside = some ⟨request, .closing batch⟩ →
    p.workspace.context.map (·.serial) = some batch.serial ∧
      ∃ l, ∃ mutations : List Mutation, p.received = batches l ++ .startBatch :: mutations.map .mutate

theorem tidy_fresh (slice : Slice) : (fresh slice).Tidy :=
  ⟨fun _ => ⟨[], rfl⟩, fun _ _ h => by cases h⟩

variable {t : Terms} {i : Nat} {p p' : Place} {ended : List Ending}

/-- A passage opens a batch or none. -/
theorem Tidy.enters (h : p.Tidy) {env : Environment} {session : Session} {request : Request} {lock last : Lock}
    {unload : UnloadToken} (hi : p.inside = none) :
    (p.after request (request.passage t.setup env session { p.workspace with lock, unload }) last).Tidy := by
  obtain ⟨l, hl⟩ := h.whole (by simp [hi])
  have heard := request.passage_heard t.setup env session { p.workspace with lock, unload }
  generalize request.passage t.setup env session { p.workspace with lock, unload } = q at heard ⊢
  cases heard with
  | nothing hh hc hs he =>
    refine ⟨fun _ => ?_, ?_⟩
    · unfold after
      dsimp only
      split
      · exact ⟨[], rfl⟩
      · exact ⟨l, by rw [he, List.append_nil, hl]⟩
    · intro _ _ hin
      simp [after, hh, Held.inside] at hin
  | @opening batch hh hc ho he =>
    obtain ⟨mutations, he⟩ := he
    obtain ⟨handle, hhandle, hserial⟩ := Option.map_eq_some_iff.1 hc
    have hin : (p.after request q last).inside = some ⟨request, .closing batch⟩ := by
      simp [after, hh, Held.inside]
    refine ⟨fun hn => absurd hin (hn _ _), ?_⟩
    intro request' batch' hin'
    cases hin.symm.trans hin'
    refine ⟨hc, l, mutations, ?_⟩
    simp [after, hhandle, hl, he, hserial]
  | parting hh hw hc hs he =>
    refine ⟨fun _ => ⟨[], ?_⟩, ?_⟩
    · simp [after, hc]
    · intro _ _ hin
      simp [after, hh, Held.inside] at hin

/-- The closing of a batch makes it whole. -/
theorem Tidy.closes (h : p.Tidy) {env : Environment} {session : Session} {request : Request}
    {batch : OpenBatch} {last : Lock} (hi : p.inside = some ⟨request, .closing batch⟩) :
    (p.after request (p.workspace.close env session batch) last).Tidy := by
  obtain ⟨hc, l, mutations, hl⟩ := h.opened _ _ hi
  obtain ⟨handle, hhandle, hserial⟩ := Option.map_eq_some_iff.1 hc
  obtain ⟨-, hcontext, ⟨result, hh⟩, he⟩ := Workspace.close_heard env session p.workspace batch
  refine ⟨fun _ => ⟨l ++ [mutations], ?_⟩, ?_⟩
  · simp [after, hcontext, hhandle, hl, he, hserial, batches_concat]
  · intro _ _ hin
    simp [after, hh, Held.inside] at hin

/-- Every turn leaves a place tidy. -/
theorem Tidy.turn (h : p.Tidy) (ht : Turn t i p p' ended) : p'.Tidy := by
  cases ht with
  | aside he => exact ⟨h.whole, h.opened⟩
  | enters he hr hi => exact h.enters hi
  | closes he hg hi => exact h.closes hi
  | @parts session cause handle last hi =>
    obtain ⟨l, hl⟩ := h.whole (by simp [hi])
    obtain ⟨-, hcontext, ⟨result, hh⟩, he⟩ := Workspace.finishDispose_heard session p.workspace handle
    refine ⟨fun _ => ?_, ?_⟩
    · unfold after
      dsimp only
      split
      · exact ⟨[], rfl⟩
      · exact ⟨l, by rw [he, List.append_nil, hl]⟩
    · intro _ _ hin
      simp [after, hh, Held.inside] at hin

end Place

/-! ## Contexts that are gone -/

/-- A step that takes the context away is one that gets the lock, and the context hears its end. -/
theorem Call.Advances.parting {setup : Setup} {env : Environment} {me : JobId} {c : Call}
    {session : Session} {w : Workspace} {a : Advance} {handle : ContextHandle}
    (h : c.Advances setup env me session w a) (hw : w.context = some handle)
    (hn : a.workspace.context = none) :
    c.phase.holds = false ∧ (w.lock.holder = none ∨ w.lock.holder = some me) ∧
      Event.callsOf handle.serial a.events = [.dispose] := by
  cases h with
  | stays => exact absurd (hw.symm.trans hn) nofun
  | approaches => exact absurd (hw.symm.trans hn) nofun
  | leaves => exact absurd (hw.symm.trans hn) nofun
  | @enters lock unload hc hf hl =>
    refine ⟨hc, hf, ?_⟩
    rw [enter_eq] at hn ⊢
    rw [conclude_context] at hn
    rw [callsOf_conclude]
    cases c.request.passage_heard setup env session { w with lock, unload } with
    | nothing hh hctx => exact absurd (hw.symm.trans (hctx.symm.trans hn)) nofun
    | opening hh hctx => simp [hn] at hctx
    | parting hh hhandle hctx hs he =>
      cases hw.symm.trans hhandle
      simpa using he handle.serial
  | @closes batch hc hg =>
    obtain ⟨-, hctx, -⟩ := Workspace.close_heard env session w batch
    rw [conclude_context, hctx, hw] at hn
    cases hn
  | @parts other hc hd =>
    obtain ⟨-, hctx, -⟩ := Workspace.finishDispose_heard session w other
    rw [conclude_context, hctx, hw] at hn
    cases hn

namespace View

variable {t : Terms} {v v' : View}

/-- A context that was, and is in no place any more, has heard its end after whole batches. -/
def Buried (v : View) : Prop :=
  ∀ n, n < v.session.created → (∀ i, v.serialAt i ≠ some n) → ∃ l, v.callsOf n = batches l ++ [.dispose]

/-- A step of a call buries the context it takes away. -/
theorem Buried.after (h : v.Buried) (hs : v.Sound t) (env : Environment) {me : JobId} {i : Nat} {c : Call}
    {p : Place} (hp : v.Shows i p) (htidy : p.Tidy) (hc : v.calls me = some (i, c)) :
    (v.after me i (c.advance t.setup env me v.session p.workspace)).Buried := by
  have ha := hs.steps env hc hp.workspace
  have hadv : c.Advances t.setup env me v.session p.workspace _ := Call.advances (hs.proper hc).1
  generalize c.advance t.setup env me v.session p.workspace = a at ha hadv
  have hserial := serialAt_afterStep hp.workspace me a
  have hws := serialAt_eq hp.workspace
  intro n hn hno
  have hni : a.workspace.context.map (·.serial) ≠ some n := by
    have := hno i
    rwa [hserial, if_pos rfl] at this
  rw [callsOf_afterStep]
  by_cases hi : v.serialAt i = some n
  · -- the context was here, and the step has taken it away
    rw [hws] at hi
    obtain ⟨handle, hhandle, rfl⟩ := Option.map_eq_some_iff.1 hi
    have hnone : a.workspace.context = none := by
      obtain ⟨-, hsame | hnone, -⟩ | ⟨hnone, -⟩ := ha.context
      · exact absurd (hsame.trans hi) hni
      · exact hnone
      · rw [hhandle] at hnone
        cases hnone
    obtain ⟨hholds, hlock, he⟩ := hadv.parting hhandle hnone
    have hin := hs.inside_eq_none hp hc hholds hlock
    obtain ⟨l, hl⟩ := htidy.whole (by simp [hin])
    refine ⟨l, ?_⟩
    rw [he, ← hl, hp.received, heardAt, hws, hhandle]
    rfl
  · -- the context was nowhere before, and the step has not just created it
    have hne (j : Nat) : v.serialAt j ≠ some n := by
      by_cases hij : i = j
      · exact hij ▸ hi
      · have := hno j
        rwa [hserial, if_neg hij] at this
    obtain ⟨hcreated, -, he⟩ | ⟨-, hnew, hcreated, he⟩ := ha.context
    · obtain ⟨l, hl⟩ := h n (hcreated ▸ hn) hne
      exact ⟨l, by rw [he n (hws ▸ hi), List.append_nil, hl]⟩
    · have hnc : n ≠ v.session.created := by
        rintro rfl
        exact hni hnew
      have hlt : n < v.session.created + 1 := hcreated ▸ hn
      obtain ⟨l, hl⟩ := h n (by omega) hne
      exact ⟨l, by rw [he n hnc, List.append_nil, hl]⟩

/-- Every move buries the context it takes away. -/
theorem Buried.move (h : v.Buried) (hs : v.Sound t) (htidy : ∀ i p, v.Shows i p → p.Tidy)
    (hshows : ∀ i ws, v.workspaces[i]? = some ws → ∃ p, v.Shows i p) {ended : List Ending}
    (hm : Move t v v' ended) : v'.Buried := by
  cases hm with
  | adds slices =>
    intro n hn hno
    exact h n hn fun i => by simpa using hno i
  | activates active => exact h
  | @unloads j ws cause hw =>
    intro n hn hno
    refine h n hn fun i => ?_
    rw [← serialAt_unload hw (ws.unload.cancel cause)]
    exact hno i
  | begins hc hr => exact h
  | misses slices hc hw =>
    intro n hn hno
    exact h n hn fun i => by simpa using hno i
  | @steps env me i c ws slices he hc hw =>
    obtain ⟨p, hp⟩ := hshows i ws hw
    cases hw.symm.trans hp.workspace
    have := h.after hs env hp (htidy i p hp) hc
    intro n hn hno
    exact this n hn fun i => by simpa using hno i

end View

/-! ## Every run -/

namespace World

/-- The terms that allow everything. -/
def freely (setup : Setup) : Terms := ⟨setup, True, fun _ => True⟩

theorem within_freely (setup : Setup) (a : Act) : a.Within (freely setup) := by
  cases a <;> simp [Act.Within, freely]

variable {setup : Setup} {acts : List Act}

/-- What every place shows, after whatever acts. -/
theorem tidy_run (setup : Setup) (acts : List Act) :
    (run setup acts).Keeps (freely setup) ∧ (run setup acts).view.Sound (freely setup) ∧
      (∀ i ws, (run setup acts).view.workspaces[i]? = some ws → ∃ p, (run setup acts).view.Shows i p) ∧
      ∀ i p, (run setup acts).view.Shows i p → p.Tidy := by
  have h (i : Nat) : (run setup acts).Keeps (freely setup) ∧ (run setup acts).view.Sound (freely setup) ∧
      (run setup acts).view.Stands i (fun p _ => p.Tidy) _ :=
    stands_run (fun slice _ _ => Place.tidy_fresh slice) (fun _ h => h.turn) fun a _ => within_freely setup a
  refine ⟨(h 0).1, (h 0).2.1, fun i ws hw => ?_, fun i p hp => ?_⟩
  · obtain ⟨-, -, ⟨hn, -⟩ | ⟨p, hp, -⟩⟩ := h i
    · exact absurd (hn.symm.trans hw) nofun
    · exact ⟨p, hp⟩
  · obtain ⟨-, -, ⟨hn, -⟩ | ⟨p', hp', htidy⟩⟩ := h i
    · exact absurd (hn.symm.trans hp.workspace) nofun
    · exact hp.unique hp' ▸ htidy

theorem buried_run (setup : Setup) (acts : List Act) : (run setup acts).view.Buried := by
  induction acts using List.reverseRecOn with
  | nil => exact fun n hn => absurd hn (Nat.not_lt_zero n)
  | append_singleton acts a ih =>
    obtain ⟨hkeeps, hsound, hshows, htidy⟩ := tidy_run setup acts
    rw [run_concat]
    exact ih.move hsound htidy hshows (perform_moves hkeeps (within_freely setup a))

/-- The closing of an open batch, whatever failed in it and whether or not it is rejected. -/
theorem callsOf_advance_of_closing {me : JobId} {i : Nat} {c : Call} {batch : OpenBatch}
    (hc : (run setup acts).callAt me = some (i, c)) (hp : c.phase = .closing batch) {env : Environment}
    (hg : env.gateOpen = true) :
    ((run setup acts).advance env me).callsOf batch.serial =
      (run setup acts).callsOf batch.serial ++ [.endBatch] := by
  obtain ⟨hkeeps, hsound, -, -⟩ := tidy_run setup acts
  generalize run setup acts = w at *
  obtain ⟨ws, hw, -⟩ := hsound.locked hc (by rw [hp]; rfl)
  obtain ⟨slices, hv⟩ := advance_view hkeeps (show (freely setup).fits env from trivial) hc hw
  show (w.advance env me).view.callsOf batch.serial = w.view.callsOf batch.serial ++ [.endBatch]
  rw [hv, View.callsOf_adding, View.callsOf_afterStep]
  obtain ⟨-, -, -, he⟩ := Workspace.close_heard env w.session ws batch
  simp [Call.advance, hp, hg, he]

/-- Every context hears whole batches and perhaps its end after them, or the last batch is open: then a
call waits to close it, and once the batch can be closed, the call's next step makes it whole. -/
theorem callsOf_shape (setup : Setup) (acts : List Act) (n : Nat) :
    ∃ l, (run setup acts).callsOf n = batches l ∨
      (run setup acts).callsOf n = batches l ++ [.dispose] ∨
      ∃ mutations : List Mutation,
        (run setup acts).callsOf n = batches l ++ .startBatch :: mutations.map .mutate ∧
          ∃ me i c batch, (run setup acts).callAt me = some (i, c) ∧ c.phase = .closing batch ∧
            batch.serial = n ∧ ∀ env : Environment, env.gateOpen = true →
              ((run setup acts).advance env me).callsOf n = batches (l ++ [mutations]) := by
  obtain ⟨hkeeps, hsound, hshows, htidy⟩ := tidy_run setup acts
  have hburied := buried_run setup acts
  by_cases hn : n < (run setup acts).view.session.created
  · by_cases hi : ∃ i, (run setup acts).view.serialAt i = some n
    · -- the context is in a place, which is tidy
      obtain ⟨i, hi⟩ := hi
      have hws : ∃ ws, (run setup acts).view.workspaces[i]? = some ws := by
        cases hw : (run setup acts).view.workspaces[i]? with
        | none => simp [View.serialAt, hw] at hi
        | some ws => exact ⟨ws, rfl⟩
      obtain ⟨ws, hw⟩ := hws
      obtain ⟨p, hp⟩ := hshows i ws hw
      have hreceived : (run setup acts).callsOf n = p.received := by
        rw [hp.received, View.heardAt, hi]
        rfl
      by_cases hin : ∃ request batch, p.inside = some ⟨request, .closing batch⟩
      · obtain ⟨request, batch, hin⟩ := hin
        obtain ⟨hserial, l, mutations, hl⟩ := (htidy i p hp).opened _ _ hin
        obtain ⟨me, hc, -⟩ := (hp.inside _).1 hin
        have hbatch : batch.serial = n := by
          rw [View.serialAt_eq hp.workspace, hserial] at hi
          exact Option.some.inj hi
        refine ⟨l, .inr (.inr ⟨mutations, hreceived.trans hl, me, i, _, batch, hc, rfl, hbatch, ?_⟩)⟩
        intro env hg
        have := callsOf_advance_of_closing hc rfl hg
        rw [hbatch, hreceived, hl] at this
        rw [this, batches_concat]
      · obtain ⟨l, hl⟩ := (htidy i p hp).whole fun request batch h => hin ⟨request, batch, h⟩
        exact ⟨l, .inl (hreceived.trans hl)⟩
    · -- the context has gone
      obtain ⟨l, hl⟩ := hburied n hn fun i h => hi ⟨i, h⟩
      exact ⟨l, .inr (.inl hl)⟩
  · -- there is no such context yet
    exact ⟨[], .inl (hsound.unborn (Nat.le_of_not_lt hn))⟩

end World

end SliceSync
