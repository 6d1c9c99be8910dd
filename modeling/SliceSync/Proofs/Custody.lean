import SliceSync.Log
import SliceSync.Session
import Mathlib.Data.List.Induction
import Mathlib.Data.List.Nodup
/-!
# Contexts in custody

Creations and releases by many callers mix: other calls come in while the factory is asked and while a context
goes. So a creation is cut in two where it asks the factory (`Session.create_eq_settle`), a release where it
waits for the context. Each part touches the ids taken once. Whatever the order of the parts, an id is taken as
long as a creation asks for it or its handle has been returned and not been released to the end
(`Custody.dependable`).
-/

namespace SliceSync

/-- An id that is not there is no loss. -/
theorem filter_ne_of_not_mem {α : Type} [DecidableEq α] {l : List α} {a : α} (h : a ∉ l) :
    l.filter (· ≠ a) = l :=
  List.filter_eq_self.2 fun _ hx => decide_eq_true fun heq => h (heq ▸ hx)

namespace Session

/-- The first part of a creation: what the evaluation describes, with its id taken. -/
def reserve (s : Session) (e : Evaluation) : Except SyncError (Session × CreationParams) :=
  match e.creationParams with
  | .error error => .error error
  | .ok params =>
    if s.isLive params.id then .error (.duplicateContext params.id)
    else .ok ({ s with live := s.live ++ [params.id] }, params)

/-- The rest of a creation, on the factory's answer: a refusal gives the id back. -/
def settle (s : Session) (env : Environment) (registry : Registry) (project : Project)
    (params : CreationParams) : Session × Except SyncError (ContextHandle × List Event) :=
  match env.refused with
  | some error => ({ s with live := s.live.filter (· ≠ params.id) }, .error error)
  | none =>
    ({ s with created := s.created + 1 },
      .ok (⟨s.created, params.id, registry.resolve project⟩, [.created s.created params]))

/-- A creation whose failure goes to the log, and no further. -/
def createLogged (s : Session) (env : Environment) (registry : Registry) (e : Evaluation) :
    Session × Option ContextHandle × List LogEntry :=
  match s.create env registry e with
  | .error error => (s, none, [.ofCreationFailure e.project error])
  | .ok (s, handle, _) => (s, some handle, [])

variable {s s' : Session} {env : Environment} {registry : Registry} {e : Evaluation}
  {params : CreationParams}

theorem reserve_ok (h : s.reserve e = .ok (s', params)) :
    e.creationParams = .ok params ∧ params.id ∉ s.live ∧ s' = { s with live := s.live ++ [params.id] } := by
  unfold reserve at h
  split at h
  · cases h
  · rename_i params' hparams
    split at h
    · cases h
    · rename_i hlive
      cases h
      exact ⟨hparams, by simpa [isLive] using hlive, rfl⟩

theorem reserve_of_not_mem (hp : e.creationParams = .ok params) (hl : params.id ∉ s.live) :
    s.reserve e = .ok ({ s with live := s.live ++ [params.id] }, params) := by
  unfold reserve
  rw [hp]
  exact if_neg (by simpa [isLive] using hl)

/-- A creation that nobody comes between is its two parts in turn. -/
theorem create_eq_settle (s : Session) (env : Environment) (registry : Registry) (e : Evaluation) :
    s.create env registry e =
      match s.reserve e with
      | .error error => .error error
      | .ok (taken, params) =>
        match taken.settle env registry e.project params with
        | (_, .error error) => .error error
        | (s', .ok (handle, events)) => .ok (s', handle, events) := by
  unfold create reserve
  cases e.creationParams with
  | error error => rfl
  | ok params =>
    dsimp only
    by_cases hlive : s.isLive params.id
    · rw [if_pos hlive, if_pos hlive]
    · rw [if_neg hlive, if_neg hlive]
      dsimp only [settle]
      cases env.refused <;> rfl

/-- A refusal leaves of both parts together nothing. -/
theorem settle_refused {error : SyncError} (h : s.reserve e = .ok (s', params))
    (hr : env.refused = some error) :
    s'.settle env registry e.project params = (s, .error error) := by
  obtain ⟨-, hnew, rfl⟩ := reserve_ok h
  have hlive : (s.live ++ [params.id]).filter (· ≠ params.id) = s.live := by
    rw [List.filter_append, filter_ne_of_not_mem hnew]
    simp
  unfold settle
  rw [hr]
  exact congrArg (fun live => (({ s with live } : Session), _)) hlive

end Session

/-! ## Callers -/

/-- What the callers of a session have in hand. -/
structure Custody where
  session : Session := {}
  /-- The creations that wait for the factory. -/
  asking : List (Project × CreationParams) := []
  held : List ContextHandle := []
  /-- The contexts whose release has begun. -/
  parting : List ContextHandle := []
  /-- What the factory has been asked for. -/
  asked : List CreationParams := []
  /-- What the creations answered, first to last. -/
  answers : List (Except SyncError ContextHandle) := []
  /-- The contexts whose release has finished. -/
  finished : List ContextHandle := []
  events : List Event := []

namespace Custody

inductive Act
  /-- A caller begins to create what an evaluation describes. -/
  | create (e : Evaluation)
  /-- The factory answers the creation of an id. -/
  | answer (id : ContextId) (env : Environment)
  /-- A caller gives a context back. -/
  | release (serial : Nat)
  /-- A context that was given back has gone. -/
  | finish (serial : Nat)

def beginCreate (c : Custody) (e : Evaluation) : Custody :=
  match c.session.reserve e with
  | .error error => { c with answers := c.answers ++ [.error error] }
  | .ok (session, params) =>
    { c with session, asking := c.asking ++ [(e.project, params)], asked := c.asked ++ [params] }

def finishCreate (registry : Registry) (c : Custody) (id : ContextId) (env : Environment) : Custody :=
  match c.asking.find? (·.2.id = id) with
  | none => c
  | some (project, params) =>
    let asking := c.asking.filter (·.2.id ≠ id)
    match c.session.settle env registry project params with
    | (session, .error error) => { c with session, asking, answers := c.answers ++ [.error error] }
    | (session, .ok (handle, events)) =>
      { c with
        session, asking
        held := c.held ++ [handle]
        answers := c.answers ++ [.ok handle]
        events := c.events ++ events }

def beginRelease (c : Custody) (serial : Nat) : Custody :=
  match c.held.find? (·.serial = serial) with
  | none => c
  | some handle =>
    { c with
      held := c.held.filter (·.serial ≠ serial)
      parting := c.parting ++ [handle]
      events := c.events ++ Session.beginRelease handle }

def finishRelease (c : Custody) (serial : Nat) : Custody :=
  match c.parting.find? (·.serial = serial) with
  | none => c
  | some handle =>
    let freed := c.session.finishRelease handle
    { c with
      session := freed.1
      parting := c.parting.filter (·.serial ≠ serial)
      finished := c.finished ++ [handle]
      events := c.events ++ freed.2 }

def perform (registry : Registry) (c : Custody) : Act → Custody
  | .create e => c.beginCreate e
  | .answer id env => finishCreate registry c id env
  | .release serial => c.beginRelease serial
  | .finish serial => c.finishRelease serial

/-- Both parts of a creation in turn. -/
def createAtOnce (registry : Registry) (c : Custody) (env : Environment) (e : Evaluation) : Custody :=
  match c.session.reserve e with
  | .error _ => c.beginCreate e
  | .ok (_, params) => finishCreate registry (c.beginCreate e) params.id env

def runFrom (registry : Registry) (c : Custody) (acts : List Act) : Custody :=
  acts.foldl (perform registry) c

/-- Any calls, in any order, from the beginning. -/
def run (registry : Registry) (acts : List Act) : Custody := runFrom registry {} acts

/-- The handles among the answers to creations. -/
def handlesOf (answers : List (Except SyncError ContextHandle)) : List ContextHandle :=
  answers.filterMap fun answer => answer.toOption

/-- The handles that creations have returned. -/
def returned (c : Custody) : List ContextHandle := handlesOf c.answers

@[simp] theorem handlesOf_error (answers : List (Except SyncError ContextHandle)) (error : SyncError) :
    handlesOf (answers ++ [.error error]) = handlesOf answers := by
  simp only [handlesOf, List.filterMap_append]
  exact List.append_nil _

@[simp] theorem handlesOf_ok (answers : List (Except SyncError ContextHandle)) (handle : ContextHandle) :
    handlesOf (answers ++ [.ok handle]) = handlesOf answers ++ [handle] := by
  simp only [handlesOf, List.filterMap_append]
  rfl

/-- The ids taken by somebody: asked for, held, or on their way out. -/
def claims (c : Custody) : List ContextId :=
  c.asking.map (·.2.id) ++ (c.held ++ c.parting).map (·.id)

/-! ## One part of a call -/

/-- Of several things with different keys, the one of a key and the others. -/
theorem perm_cons_of_find {α κ : Type} [DecidableEq κ] {f : α → κ} {l : List α} {k : κ} {a : α}
    (hn : (l.map f).Nodup) (h : l.find? (f · = k) = some a) :
    f a = k ∧ l.Perm (a :: l.filter (f · ≠ k)) := by
  induction l with
  | nil => cases h
  | cons b l ih =>
    obtain ⟨hb, hn⟩ := List.nodup_cons.1 hn
    rw [List.find?_cons] at h
    by_cases hk : f b = k
    · simp only [hk, decide_true, Option.some.injEq] at h
      subst h
      refine ⟨hk, ?_⟩
      have hrest : l.filter (f · ≠ k) = l :=
        List.filter_eq_self.2 fun x hx => decide_eq_true fun h => hb (by rw [hk, ← h]; exact List.mem_map_of_mem hx)
      rw [List.filter_cons_of_neg (by simpa using hk), hrest]
    · simp only [hk, decide_false] at h
      obtain ⟨ha, hp⟩ := ih hn h
      refine ⟨ha, ?_⟩
      rw [List.filter_cons_of_pos (by simpa using hk)]
      exact (hp.cons b).trans (.swap ..)

/-- A key that occurs is found. -/
theorem exists_find_of_mem {α κ : Type} [DecidableEq κ] {f : α → κ} {l : List α} {a : α} (h : a ∈ l) :
    ∃ found ∈ l, l.find? (f · = f a) = some found ∧ f found = f a := by
  have hsome : (l.find? (f · = f a)).isSome := List.find?_isSome.2 ⟨a, h, decide_eq_true rfl⟩
  obtain ⟨found, hfound⟩ := Option.isSome_iff_exists.1 hsome
  have hkey := List.find?_some hfound
  exact ⟨found, List.mem_of_find?_eq_some hfound, hfound, of_decide_eq_true hkey⟩

/-- A taken id that is given back leaves the others. -/
theorem filter_perm_of_cons {live rest : List ContextId} {id : ContextId} (hn : live.Nodup)
    (h : live.Perm (id :: rest)) : (live.filter (· ≠ id)).Perm rest := by
  have hid : id ∉ rest := (List.nodup_cons.1 (h.nodup_iff.1 hn)).1
  refine (h.filter _).trans ?_
  rw [List.filter_cons_of_neg (by simp), filter_ne_of_not_mem hid]

variable {registry : Registry} {c : Custody}

/-- What the ids taken, the handles and their ends have to do with each other. -/
structure Kept (c : Custody) : Prop where
  live : c.session.live.Perm c.claims
  nodup : c.session.live.Nodup
  returned : (handlesOf c.answers).Perm (c.held ++ c.parting ++ c.finished)
  serials : ((handlesOf c.answers).map (·.serial)).Nodup
  earlier : ∀ h ∈ handlesOf c.answers, h.serial < c.session.created
  created : ∀ {n params}, Event.created n params ∈ c.events →
    ∃ h ∈ handlesOf c.answers, h.serial = n ∧ h.id = params.id

namespace Kept

theorem serials_nodup (h : c.Kept) : (c.held.map (·.serial)).Nodup ∧ (c.parting.map (·.serial)).Nodup := by
  have := (h.returned.map (·.serial)).nodup_iff.1 h.serials
  simp only [List.map_append, List.nodup_append] at this
  exact ⟨this.1.1, this.1.2.1⟩

theorem asking_nodup (h : c.Kept) : (c.asking.map (·.2.id)).Nodup :=
  (List.nodup_append.1 (h.live.nodup_iff.1 h.nodup)).1

theorem beginCreate (h : c.Kept) (e : Evaluation) : (c.beginCreate e).Kept := by
  unfold Custody.beginCreate
  cases hr : c.session.reserve e with
  | error error =>
    constructor <;> simp only [handlesOf_error]
    exacts [h.live, h.nodup, h.returned, h.serials, h.earlier, fun hc => h.created hc]
  | ok taken =>
    obtain ⟨session, params⟩ := taken
    obtain ⟨-, hnew, rfl⟩ := Session.reserve_ok hr
    refine ⟨?_, ?_, h.returned, h.serials, h.earlier, h.created⟩
    · refine (h.live.append_right _).trans ?_
      simp only [claims, List.map_append, List.append_assoc, List.map_cons, List.map_nil]
      refine List.Perm.append_left _ ?_
      rw [← List.append_assoc]
      exact List.perm_append_comm
    · exact List.nodup_append.2 ⟨h.nodup, by simp, fun id hid other hother => by
        rw [List.mem_singleton] at hother
        exact fun heq => hnew (hother ▸ heq ▸ hid)⟩

theorem finishCreate (h : c.Kept) (id : ContextId) (env : Environment) :
    (Custody.finishCreate registry c id env).Kept := by
  unfold Custody.finishCreate
  cases hf : c.asking.find? (·.2.id = id) with
  | none => exact h
  | some asked =>
    obtain ⟨project, params⟩ := asked
    obtain ⟨rfl, hasking⟩ := perm_cons_of_find h.asking_nodup hf
    have hclaims : c.session.live.Perm
        (params.id :: ((c.asking.filter (·.2.id ≠ params.id)).map (·.2.id) ++ (c.held ++ c.parting).map (·.id))) :=
      h.live.trans ((hasking.map (·.2.id)).append_right _)
    unfold Session.settle
    cases env.refused with
    | some message =>
      constructor <;> simp only [handlesOf_error]
      exacts [filter_perm_of_cons h.nodup hclaims, h.nodup.filter _, h.returned, h.serials, h.earlier,
        fun hc => h.created hc]
    | none =>
      constructor <;> simp only [handlesOf_ok]
      · refine hclaims.trans ?_
        simp only [claims, List.map_append, List.append_assoc]
        refine List.perm_middle.symm.trans (List.Perm.append_left _ ?_)
        exact List.perm_middle.symm
      · exact h.nodup
      · refine (h.returned.append_right _).trans ?_
        simp only [List.append_assoc]
        refine List.Perm.append_left _ ?_
        rw [← List.append_assoc]
        exact List.perm_append_comm
      · rw [List.map_append]
        refine List.nodup_append.2 ⟨h.serials, by simp, fun n hn m hm => ?_⟩
        obtain ⟨other, hother, rfl⟩ := List.mem_map.1 hn
        rw [List.map_singleton, List.mem_singleton] at hm
        rw [hm]
        exact Nat.ne_of_lt (h.earlier other hother)
      · intro other hother
        rcases List.mem_append.1 hother with hother | hother
        · exact Nat.lt_succ_of_lt (h.earlier other hother)
        · rw [List.mem_singleton.1 hother]
          exact Nat.lt_succ_self _
      · intro n p hc
        rcases List.mem_append.1 hc with hc | hc
        · obtain ⟨other, hother, h⟩ := h.created hc
          exact ⟨other, List.mem_append_left _ hother, h⟩
        · cases List.mem_singleton.1 hc
          exact ⟨_, List.mem_append_right _ (List.mem_singleton_self _), rfl, rfl⟩

theorem beginRelease (h : c.Kept) (serial : Nat) : (c.beginRelease serial).Kept := by
  unfold Custody.beginRelease
  cases hf : c.held.find? (·.serial = serial) with
  | none => exact h
  | some handle =>
    obtain ⟨rfl, hheld⟩ := perm_cons_of_find h.serials_nodup.1 hf
    have hmoved : (c.held ++ c.parting).Perm
        (c.held.filter (·.serial ≠ handle.serial) ++ (c.parting ++ [handle])) := by
      refine (hheld.append_right _).trans ?_
      rw [List.cons_append, ← List.append_assoc]
      exact (List.perm_append_singleton _ _).symm
    refine ⟨?_, h.nodup, h.returned.trans (hmoved.append_right _), h.serials, h.earlier, fun hc => h.created ?_⟩
    · exact h.live.trans ((hmoved.map (·.id)).append_left _)
    · simpa [Session.beginRelease] using hc

theorem finishRelease (h : c.Kept) (serial : Nat) : (c.finishRelease serial).Kept := by
  unfold Custody.finishRelease
  cases hf : c.parting.find? (·.serial = serial) with
  | none => exact h
  | some handle =>
    obtain ⟨rfl, hparting⟩ := perm_cons_of_find h.serials_nodup.2 hf
    have hclaims : c.session.live.Perm (handle.id :: (c.asking.map (·.2.id) ++
        (c.held ++ c.parting.filter (·.serial ≠ handle.serial)).map (·.id))) := by
      refine (h.live.trans ?_).trans List.perm_middle
      simp only [claims, List.map_append]
      exact List.Perm.append_left _ (((hparting.map (·.id)).append_left _).trans List.perm_middle)
    refine ⟨filter_perm_of_cons h.nodup hclaims, h.nodup.filter _, h.returned.trans ?_, h.serials,
      h.earlier, fun hc => h.created ?_⟩
    · simp only [List.append_assoc]
      refine List.Perm.append_left _ ((hparting.append_right _).trans ?_)
      refine List.perm_middle.symm.trans (List.Perm.append_left _ ?_)
      exact (List.perm_append_singleton _ _).symm
    · simpa [Session.finishRelease] using hc

theorem perform (h : c.Kept) (a : Act) : (c.perform registry a).Kept := by
  cases a with
  | create e => exact h.beginCreate e
  | answer id env => exact h.finishCreate id env
  | release serial => exact h.beginRelease serial
  | finish serial => exact h.finishRelease serial

/-- What is returned and not finished is held, or on its way out. -/
theorem out_iff (h : c.Kept) {handle : ContextHandle} :
    handle ∈ c.returned ∧ handle ∉ c.finished ↔ handle ∈ c.held ++ c.parting := by
  have hnodup : (c.held ++ c.parting ++ c.finished).Nodup := h.returned.nodup_iff.1 h.serials.of_map
  obtain ⟨-, -, happart⟩ := List.nodup_append.1 hnodup
  rw [Custody.returned, h.returned.mem_iff, List.mem_append (s := c.held ++ c.parting)]
  exact ⟨fun h => h.1.resolve_right h.2, fun hout => ⟨.inl hout, fun hfinished => happart _ hout _ hfinished rfl⟩⟩

end Kept

/-- In every run ids and handles keep together. -/
theorem kept_run (registry : Registry) (acts : List Act) : (run registry acts).Kept := by
  induction acts using List.reverseRecOn with
  | nil => exact ⟨.nil, .nil, .nil, .nil, nofun, nofun⟩
  | append_singleton acts a ih =>
    rw [run, runFrom, List.foldl_append]
    exact ih.perform a

/-! ## What callers can rely on -/

variable {e : Evaluation} {error : SyncError} {params : CreationParams} {id : ContextId} {env : Environment}

theorem beginCreate_error (h : c.session.reserve e = .error error) :
    c.beginCreate e = { c with answers := c.answers ++ [.error error] } := by
  unfold beginCreate
  rw [h]

theorem beginCreate_ok (hp : e.creationParams = .ok params) (hl : params.id ∉ c.session.live) :
    c.beginCreate e =
      { c with
        session := { c.session with live := c.session.live ++ [params.id] }
        asking := c.asking ++ [(e.project, params)]
        asked := c.asked ++ [params] } := by
  unfold beginCreate
  rw [Session.reserve_of_not_mem hp hl]

/-- The creation that the factory answers, and its answer. -/
theorem finishCreate_eq (h : ∃ a ∈ c.asking, a.2.id = id) :
    ∃ project params, c.asking.find? (·.2.id = id) = some (project, params) ∧ params.id = id := by
  obtain ⟨a, ha, rfl⟩ := h
  obtain ⟨found, -, hfound, hid⟩ := exists_find_of_mem (f := fun a => a.2.id) ha
  exact ⟨found.1, found.2, hfound, hid⟩

variable (registry) in
theorem finishCreate_refused {error : SyncError} (h : ∃ a ∈ c.asking, a.2.id = id)
    (hr : env.refused = some error) :
    (finishCreate registry c id env).answers = c.answers ++ [.error error] ∧
      (finishCreate registry c id env).session = { c.session with live := c.session.live.filter (· ≠ id) } := by
  obtain ⟨project, params, hf, rfl⟩ := finishCreate_eq h
  unfold finishCreate Session.settle
  rw [hf, hr]
  exact ⟨rfl, rfl⟩

variable (registry) in
theorem finishCreate_returned (h : ∃ a ∈ c.asking, a.2.id = id) (hr : env.refused = none) :
    (finishCreate registry c id env).session.live = c.session.live ∧
      ∃ handle, handle.id = id ∧ (finishCreate registry c id env).answers = c.answers ++ [.ok handle] := by
  obtain ⟨project, params, hf, rfl⟩ := finishCreate_eq h
  unfold finishCreate Session.settle
  rw [hf, hr]
  exact ⟨rfl, _, rfl, rfl⟩

theorem beginRelease_session (serial : Nat) : (c.beginRelease serial).session = c.session := by
  unfold beginRelease
  split <;> rfl

theorem finishRelease_of_mem (h : c.Kept) {handle : ContextHandle} (hm : handle ∈ c.parting) :
    (c.finishRelease handle.serial).session = (c.session.finishRelease handle).1 ∧
      (c.finishRelease handle.serial).answers = c.answers := by
  have hserials := h.serials_nodup.2
  have hf : c.parting.find? (·.serial = handle.serial) = some handle := by
    obtain ⟨found, hmem, hfound, hserial⟩ := exists_find_of_mem (f := fun handle => handle.serial) hm
    rw [hfound, List.inj_on_of_nodup_map hserials hmem hm hserial]
  unfold finishRelease
  rw [hf]
  exact ⟨rfl, rfl⟩

/-- A creation that nobody comes between is that of the session: of one that fails nothing is left. -/
def Whole (registry : Registry) (c : Custody) (env : Environment) (e : Evaluation) : Prop :=
  match c.session.create env registry e with
  | .error error =>
    (createAtOnce registry c env e).session = c.session ∧
      (createAtOnce registry c env e).answers = c.answers ++ [.error error] ∧
      c.session.createLogged env registry e = (c.session, none, [.ofCreationFailure e.project error])
  | .ok (session, handle, _) =>
    (createAtOnce registry c env e).session = session ∧
      (createAtOnce registry c env e).answers = c.answers ++ [.ok handle] ∧
      c.session.createLogged env registry e = (session, some handle, [])

/-- How the custody of contexts stands, and how every next part of a call leaves it. -/
structure Dependable (registry : Registry) (c : Custody) : Prop where
  /-- An id is taken while a creation asks for it, and from its handle's return to the end of its release. -/
  live : ∀ id, id ∈ c.session.live ↔
    (∃ handle ∈ c.returned, handle ∉ c.finished ∧ handle.id = id) ∨ ∃ a ∈ c.asking, a.2.id = id
  nodup : c.session.live.Nodup
  /-- Contexts that were created and have not gone have different ids. -/
  apart : ∀ {m n p q}, Event.created m p ∈ c.events → Event.created n q ∈ c.events →
    m ∉ c.finished.map (·.serial) → n ∉ c.finished.map (·.serial) → p.id = q.id → m = n
  /-- Without what it needs, or for an id that is taken, a creation answers the error. The factory is not asked. -/
  unasked : ∀ {e : Evaluation} {error},
    (e.creationParams = .error error ∨
      ∃ params, e.creationParams = .ok params ∧ params.id ∈ c.session.live ∧ error = .duplicateContext params.id) →
    c.beginCreate e = { c with answers := c.answers ++ [.error error] }
  /-- Any other asks the factory, and has its id meanwhile. -/
  asks : ∀ {e : Evaluation} {params}, e.creationParams = .ok params → params.id ∉ c.session.live →
    (c.beginCreate e).asked = c.asked ++ [params] ∧ (e.project, params) ∈ (c.beginCreate e).asking ∧
      (c.beginCreate e).answers = c.answers ∧ (c.beginCreate e).session.live = c.session.live ++ [params.id]
  /-- When the factory refuses, the id is free and all others are as they were. -/
  refused : ∀ {id env error}, (∃ a ∈ c.asking, a.2.id = id) → env.refused = some error →
    (finishCreate registry c id env).answers = c.answers ++ [.error error] ∧
      ∀ other, other ∈ (finishCreate registry c id env).session.live ↔ other ∈ c.session.live ∧ other ≠ id
  whole : ∀ env e, Whole registry c env e
  /-- When it does not refuse, the handle has the id that was asked for. -/
  returned : ∀ {id env}, (∃ a ∈ c.asking, a.2.id = id) → env.refused = none →
    (finishCreate registry c id env).session.live = c.session.live ∧
      ∃ handle, handle.id = id ∧ (finishCreate registry c id env).answers = c.answers ++ [.ok handle]
  /-- While a context goes, its id stays taken. -/
  parting : ∀ serial, (c.beginRelease serial).session = c.session
  /-- When it has gone, its id alone is free, and can be created again. -/
  again : ∀ {handle}, handle ∈ c.parting →
    (∀ other, other ∈ (c.finishRelease handle.serial).session.live ↔ other ∈ c.session.live ∧ other ≠ handle.id) ∧
    ∀ {e : Evaluation} {params env}, e.creationParams = .ok params → params.id = handle.id → env.refused = none →
      ∃ next, next.id = handle.id ∧ (finishCreate registry ((c.finishRelease handle.serial).beginCreate e)
        handle.id env).answers = c.answers ++ [.ok next]

/-- An id that is free is asked for by the creation that just took it, and by no other. -/
theorem Kept.find_asking (h : c.Kept) (hl : params.id ∉ c.session.live) (project : Project) :
    (c.asking ++ [(project, params)]).find? (·.2.id = params.id) = some (project, params) := by
  have hnone : c.asking.find? (·.2.id = params.id) = none := by
    refine List.find?_eq_none.2 fun a ha hid => hl ?_
    rw [h.live.mem_iff, ← of_decide_eq_true hid]
    exact List.mem_append_left _ (List.mem_map_of_mem ha)
  rw [List.find?_append, hnone]
  simp

theorem Kept.whole (h : c.Kept) (env : Environment) (e : Evaluation) : Whole registry c env e := by
  have hcreate := c.session.create_eq_settle env registry e
  unfold Whole Session.createLogged createAtOnce
  cases hr : c.session.reserve e with
  | error error =>
    rw [hr] at hcreate
    rw [hcreate, beginCreate_error hr]
    exact ⟨rfl, rfl, rfl⟩
  | ok taken =>
    obtain ⟨session, params⟩ := taken
    obtain ⟨hp, hl, rfl⟩ := Session.reserve_ok hr
    rw [hr] at hcreate
    dsimp only at hcreate ⊢
    rw [beginCreate_ok hp hl]
    unfold Custody.finishCreate
    dsimp only
    rw [h.find_asking hl]
    dsimp only
    cases hrefused : env.refused with
    | some error =>
      rw [Session.settle_refused hr hrefused] at hcreate ⊢
      rw [hcreate]
      exact ⟨rfl, rfl, rfl⟩
    | none =>
      unfold Session.settle at hcreate ⊢
      rw [hrefused] at hcreate ⊢
      rw [hcreate]
      exact ⟨rfl, rfl, rfl⟩

theorem Kept.dependable_of (h : c.Kept) : Dependable registry c where
  live id := by
    rw [h.live.mem_iff, claims, List.mem_append, or_comm]
    simp only [List.mem_map]
    refine or_congr_left (exists_congr fun handle => ?_)
    rw [← h.out_iff, and_assoc]
  nodup := h.nodup
  apart {m n p q} hm hn hgone hgone' hid := by
    obtain ⟨handle, hhandle, rfl, hp⟩ := h.created hm
    obtain ⟨other, hother, rfl, hq⟩ := h.created hn
    have hids : ((c.held ++ c.parting).map (·.id)).Nodup :=
      (List.nodup_append.1 (h.live.nodup_iff.1 h.nodup)).2.1
    have out := h.out_iff.1 ⟨hhandle, fun hf => hgone (List.mem_map_of_mem hf)⟩
    have out' := h.out_iff.1 ⟨hother, fun hf => hgone' (List.mem_map_of_mem hf)⟩
    rw [List.inj_on_of_nodup_map hids out out' (by rw [hp, hq, hid])]
  unasked {e error} hcause := by
    refine beginCreate_error ?_
    unfold Session.reserve
    rcases hcause with herror | ⟨params, hparams, hlive, rfl⟩
    · rw [herror]
    · rw [hparams]
      exact if_pos (List.contains_iff_mem.2 hlive)
  asks hp hl := by
    rw [beginCreate_ok hp hl]
    exact ⟨rfl, List.mem_append_right _ (List.mem_singleton_self _), rfl, rfl⟩
  refused ha hr := by
    obtain ⟨hanswers, hsession⟩ := finishCreate_refused registry ha hr
    refine ⟨hanswers, fun other => ?_⟩
    rw [hsession, List.mem_filter, decide_eq_true_iff]
  whole := h.whole
  returned ha hr := finishCreate_returned registry ha hr
  parting := beginRelease_session
  again {handle} hm := by
    obtain ⟨hsession, hanswers⟩ := finishRelease_of_mem h hm
    have hlive (other : ContextId) : other ∈ (c.finishRelease handle.serial).session.live ↔
        other ∈ c.session.live ∧ other ≠ handle.id := by
      rw [hsession]
      simp [Session.finishRelease]
    refine ⟨hlive, fun {e params env} hp hid hr => ?_⟩
    have hfree : params.id ∉ (c.finishRelease handle.serial).session.live :=
      fun hmem => ((hlive _).1 hmem).2 hid
    have ha : ∃ a ∈ ((c.finishRelease handle.serial).beginCreate e).asking, a.2.id = handle.id := by
      rw [beginCreate_ok hp hfree]
      exact ⟨_, List.mem_append_right _ (List.mem_singleton_self _), hid⟩
    obtain ⟨-, next, hnext, heq⟩ := finishCreate_returned registry ha hr
    refine ⟨next, hnext, ?_⟩
    rw [heq, beginCreate_ok hp hfree, ← hanswers]

/-- In every run, whatever the factory answers and however long contexts take to go, the ids taken are accounted
for. -/
theorem dependable (registry : Registry) (acts : List Act) : (run registry acts).Dependable registry :=
  (kept_run registry acts).dependable_of

end Custody

end SliceSync
