import SliceSync.Proofs.Attempts
import SliceSync.Proofs.Teardown
/-!
# Notices

Two things are told to the outside of an update that has ended: that its versions have been processed, or that
it failed. Which of them a passage of an update brings is said here (`Passage.Notified`), with what it leaves of
the workspace; all other passages bring none.
-/

namespace SliceSync

namespace SyncError

/-- Whether a context could not be created. -/
def isCreation : SyncError → Bool
  | missingProperty .. | contextCreation _ | duplicateContext _ => true
  | _ => false

theorem isFault_of_isCreation {error : SyncError} (h : error.isCreation = true) :
    error.isFault = true ∧ error.isFatal = true ∧ error.isCancellation = false := by
  cases error <;> first | exact ⟨rfl, rfl, rfl⟩ | cases h

theorem isFault_of_ofBatch {error : SyncError} (h : error.ofBatch = true) :
    error.isFault = true ∧ error.isFatal = false ∧ error.isCancellation = false ∧ error.isCreation = false := by
  cases error <;> first | exact ⟨rfl, rfl, rfl, rfl⟩ | cases h

end SyncError

theorem DisposeCause.error_isCancellation (cause : DisposeCause) :
    cause.error.isCancellation = true ∧ cause.error.isFault = false ∧ cause.error.isCreation = false := by
  cases cause <;> exact ⟨rfl, rfl, rfl⟩

/-- What is told to the outside of an update that has ended. -/
inductive Notice
  | processed (versions : Versions)
  | fault (error : SyncError) (severity : Severity)
  deriving DecidableEq

namespace Event

/-- The notice that an event gives. -/
def notice? : Event → Option Notice
  | processed _ versions => some (.processed versions)
  | fault error severity => some (.fault error severity)
  | _ => none

/-- The notices among some events, in order. -/
def notices (l : List Event) : List Notice := l.filterMap notice?

@[simp] theorem notices_nil : notices [] = [] := rfl

@[simp] theorem notices_append (l m : List Event) : notices (l ++ m) = notices l ++ notices m :=
  List.filterMap_append

/-- Contexts are told nothing that the outside is told. -/
@[simp] theorem notices_context_cons (n : Nat) (call : ContextCall) (l : List Event) :
    notices (context n call :: l) = notices l := rfl

theorem notices_eq_nil {l : List Event} (h : ∀ e ∈ l, e.notice? = none) : notices l = [] :=
  List.filterMap_eq_nil_iff.2 h

theorem notice?_of_notices_eq_nil {l : List Event} (h : notices l = []) {e : Event} (he : e ∈ l) : e.notice? = none :=
  List.filterMap_eq_nil_iff.1 h e he

@[simp] theorem notices_effects (n : Nat) (effects : List Effect) :
    notices (effects.map (Effect.event n)) = [] := by
  refine notices_eq_nil fun e he => ?_
  obtain ⟨effect, -, rfl⟩ := List.mem_map.1 he
  cases effect <;> rfl

end Event

open Event (notices)

/-! ## How a batch can fail -/

namespace Environment.InKind

variable {env : Environment} (hk : env.InKind) {error : SyncError}
include hk

theorem isCreation (h : error.isCreation = true ∨ env.refused = some error) : error.isCreation = true := by
  refine h.elim id fun hrefused => ?_
  obtain ⟨message, rfl⟩ := hk.refused error hrefused
  rfl

theorem ofBatch (h : error.ofBatch = true ∨ env.rejected = some error) : error.ofBatch = true := by
  refine h.elim id fun hrejected => ?_
  obtain ⟨message, rfl⟩ := hk.rejected error hrejected
  rfl

end Environment.InKind

/-- Handlers from outside that keep to their kind fail as handlers. -/
theorem callExternal_failure {η : Type} {env : Environment} (hk : env.InKind) {h : η} {call : HandlerCall}
    {error : SyncError} (hf : (callExternal env h call).failure = some error) : error.ofBatch = true := by
  obtain ⟨name, message, rfl⟩ := hk.replied call error hf
  rfl

namespace HandlerSet

variable {s : HandlerSet} {env : Environment} {activity : Activity} {error : SyncError}

theorem applyEvaluation_failure (hk : env.InKind) {rules : NameMap Change} (hf : (s.applyEvaluation env rules activity).failure = some error) :
    error.ofBatch = true := by
  obtain ⟨k, h, -, hf⟩ := exists_of_failure hf
  unfold callEvaluation at hf
  split at hf
  · cases hf
  · split at hf
    · cases hf
    · dsimp only at hf
      split at hf
      · cases hf
      · exact callExternal_failure hk hf

theorem applyItems_failure (hk : env.InKind) {items : Listing String Change} (hf : (s.applyItems env items activity).failure = some error) :
    error.ofBatch = true := by
  obtain ⟨k, h, -, hf⟩ := exists_of_failure hf
  unfold callItems at hf
  dsimp only at hf
  split at hf
  · cases hf
  · exact callExternal_failure hk hf

theorem applyArguments_failure (hk : env.InKind) {d : ArgumentDifference} (hf : (s.applyArguments env d activity).failure = some error) :
    error.ofBatch = true := by
  obtain ⟨k, h, -, hf⟩ := exists_of_failure hf
  unfold callArguments at hf
  dsimp only at hf
  split at hf
  · cases hf
  · exact callExternal_failure hk hf

theorem applyBoth_failure (hk : env.InKind) {rules : NameMap Change} {items : Listing String Change}
    (hf : (s.applyBoth env rules items activity).failure = some error) : error.ofBatch = true := by
  cases hfirst : (s.applyEvaluation env rules activity).failure with
  | some other =>
    rw [applyBoth_of_failure hfirst] at hf
    cases hf
    exact applyEvaluation_failure hk hfirst
  | none =>
    rw [applyBoth_of_none hfirst] at hf
    exact applyItems_failure hk hf

end HandlerSet

/-- The versions that a commit is to tell of. -/
def Commit.versions? : Commit → Option Versions
  | .evaluation versions .. | .build versions .. => some versions
  | .write _ => none

/-- A batch is one that the request opened: it tells of the versions of its update, and if the collaborators are bound
to their kinds, it can have failed as a handler only. -/
structure OpenBatch.Of (kinds : Prop) (batch : OpenBatch) (request : Request) : Prop where
  failure : kinds → ∀ error, batch.failure = some error → error.ofBatch = true
  versions : ∀ u, request = .update u → batch.commit.versions? = some u.versions

theorem OpenBatch.Of.mono {kinds kinds' : Prop} {batch : OpenBatch} {request : Request} (h : batch.Of kinds request)
    (hk : kinds' → kinds) : batch.Of kinds' request :=
  ⟨fun h' => h.failure (hk h'), h.versions⟩

/-- A batch that does not close well fails with its handler or with the context. -/
theorem OpenBatch.of_result_error {batch : OpenBatch} {env : Environment} {error : SyncError}
    (hr : batch.result env = .error error) : batch.failure = some error ∨ env.rejected = some error := by
  unfold result at hr
  cases hf : batch.failure with
  | some other =>
    rw [hf] at hr
    cases hr
    exact .inl rfl
  | none =>
    rw [hf, Option.none_or] at hr
    cases hj : env.rejected with
    | some other =>
      rw [hj] at hr
      cases hr
      exact .inr rfl
    | none =>
      rw [hj] at hr
      cases hr

/-! ## Passages -/

theorem Session.create_error {s : Session} {env : Environment} {registry : Registry} {e : Evaluation}
    {error : SyncError} (h : s.create env registry e = .error error) :
    error.isCreation = true ∨ env.refused = some error := by
  rcases of_create_error h with hparams | ⟨params, -, -, rfl⟩ | hrefused
  · obtain ⟨name, rfl⟩ := Evaluation.eq_missing_of_creationParams hparams
    exact .inl rfl
  · exact .inl rfl
  · exact .inr hrefused

namespace Workspace

variable {setup : Setup} {env : Environment} {session : Session} {w : Workspace} {u : Update}

theorem notices_enroll (u : Update) : notices (w.enroll setup u).2 = [] := by
  refine Event.notices_eq_nil fun e he => ?_
  obtain ⟨owner, rfl⟩ := mem_enroll he
  rfl

theorem notices_openEvaluation {handle : ContextHandle} {fresh : Bool} {versions : Versions}
    {e : Evaluation} : notices (openEvaluation setup env session w handle fresh versions e).events = [] := by
  unfold openEvaluation
  cases fresh <;> simp

theorem notices_openBuild {handle : ContextHandle} {versions : Versions} {b : Build} :
    notices (openBuild env session w handle versions b).events = [] := by
  simp [openBuild]

theorem notices_after {events : List Event} {p : Passage} (he : notices events = []) (hp : notices p.events = []) :
    notices (p.after events).events = [] := by
  simp [Passage.after, he, hp]

end Workspace

/-- What a passage of an update tells, and what it leaves. -/
inductive Passage.Notified (env : Environment) (w : Workspace) (u : Update) (p : Passage) : Prop
  /-- The workspace accepts no updates, and stays as it is. -/
  | refused {error : SyncError} (ha : w.admits = .error error) (hh : p.held = .finished (.error error))
      (hw : p.workspace = w) (he : p.events = [])
  /-- The context could not be created. -/
  | uncreated {error : SyncError} (ha : w.admits = .ok ()) 
      (hc : error.isCreation = true ∨ env.refused = some error)
      (hh : p.held = .finished (.error error)) (hs : p.workspace.status = .failed) (he : notices p.events = [])
  /-- A build came before the context. -/
  | misses (ha : w.admits = .ok ()) (hc : w.context = none) (hb : u.kind = .build)
      (hh : p.held = .finished (.error .failed)) (he : notices p.events = [])
  /-- It was skipped, and counts as processed. -/
  | skipped {before : List Event} (hh : p.held = .finished (.ok .done)) (hs : p.workspace.status = .initialized)
      (he : p.events = before ++ p.workspace.tell u.versions) (hn : notices before = [])
  /-- Its batch is to be closed. -/
  | opened {batch : OpenBatch} (hh : p.held = .closing batch) (hb : batch.Of env.InKind (.update u))
      (he : notices p.events = [])

namespace Workspace

variable {setup : Setup} {env : Environment} {session : Session} {w : Workspace} {u : Update}

theorem enroll_status (ha : w.admits = .ok ()) (u : Update) : (w.enroll setup u).1.status = .initialized := by
  obtain ⟨status, owner, h, hs⟩ := @enroll_eq setup w u
  rw [h]
  exact hs ha

/-- Every passage of an update tells of it in one of these ways. -/
theorem Receives.notified {p : Passage} (h : w.Receives setup env session u p) : p.Notified env w u := by
  -- the batch that an update opens is its own
  have own {batch : OpenBatch} (hf : env.InKind → ∀ error, batch.failure = some error → error.ofBatch = true)
      (hv : batch.commit.versions? = some u.versions) : batch.Of env.InKind (.update u) := by
    refine ⟨hf, fun v heq => ?_⟩
    cases heq
    exact hv
  have enrolled : notices (w.enroll setup u).2 = [] := notices_enroll u
  cases h with
  | refused ha => exact .refused ha rfl rfl rfl
  | uncreated ha hu hc hf => exact .uncreated ha (Session.create_error hf) rfl rfl enrolled
  | creates ha hu hc hs =>
    obtain ⟨-, -, -, params, rfl⟩ := Session.create_eq hs
    refine .opened rfl (own (fun hk error hf => HandlerSet.applyBoth_failure hk hf) rfl) ?_
    refine notices_after ?_ notices_openEvaluation
    rw [Event.notices_append, enrolled]
    rfl
  | skips ha hu hc hk => exact .skipped rfl (enroll_status ha u) rfl enrolled
  | applies ha hu hc =>
    exact .opened rfl (own (fun hk error hf => HandlerSet.applyBoth_failure hk hf) rfl)
      (notices_after enrolled notices_openEvaluation)
  | skipsBuild ha hu hk => exact .skipped rfl (enroll_status ha u) rfl enrolled
  | misses ha hu hc => exact .misses ha hc (by simp [Update.kind, hu]) rfl enrolled
  | appliesBuild ha hu hc =>
    exact .opened rfl (own (fun hk error hf => HandlerSet.applyArguments_failure hk hf) rfl)
      (notices_after enrolled notices_openBuild)

/-- A write tells nothing, and its batch can fail on closing only. -/
theorem beginWrite_notices (kinds : Prop) (session : Session) (w : Workspace) (mutations : List Mutation) :
    notices (w.beginWrite session mutations).events = [] ∧
      ∀ batch, (w.beginWrite session mutations).held = .closing batch → batch.Of kinds (.write mutations) := by
  unfold beginWrite
  split
  · exact ⟨rfl, nofun⟩
  · split
    · exact ⟨rfl, nofun⟩
    · refine ⟨Event.notices_eq_nil fun e he => ?_, fun batch hb => ?_⟩
      · simp only [List.mem_cons, List.mem_map] at he
        rcases he with rfl | rfl | ⟨m, -, rfl⟩ <;> rfl
      · cases hb
        exact ⟨fun _ => nofun, nofun⟩

theorem notices_unregister (w : Workspace) : notices (w.unregister).2 = [] := by
  unfold unregister
  cases w.owner <;> rfl

theorem beginDispose_notices (session : Session) (w : Workspace) : notices (w.beginDispose session).events = [] := by
  unfold beginDispose
  split
  · rfl
  · split
    · rfl
    · exact notices_unregister _

theorem finishDispose_notices (session : Session) (w : Workspace) (handle : ContextHandle) :
    notices (w.finishDispose session handle).events = [] := by
  unfold finishDispose
  dsimp only
  rw [Event.notices_append, notices_unregister, List.append_nil]
  refine Event.notices_eq_nil fun e he => ?_
  obtain ⟨m, -, rfl⟩ := List.mem_map.1 he
  rfl

/-- A batch that closes well tells of the versions of its update, one that does not tells nothing. -/
theorem close_events (env : Environment) (session : Session) (w : Workspace) (batch : OpenBatch) :
    (w.close env session batch).events = .context batch.serial .endBatch ::
      match batch.result env, batch.commit.versions? with
      | .ok _, some versions => w.tell versions
      | _, _ => [] := by
  unfold close OpenBatch.result
  cases batch.failure.or env.rejected with
  | some error => rfl
  | none => cases batch.commit <;> rfl

/-- The closing of a batch leaves status and registration alone. -/
theorem close_keeps (env : Environment) (session : Session) (w : Workspace) (batch : OpenBatch) :
    (w.close env session batch).workspace.status = w.status ∧
      (w.close env session batch).workspace.owner = w.owner := by
  obtain ⟨_, _, _, h⟩ := w.close_workspace env session batch
  rw [h]
  exact ⟨rfl, rfl⟩

end Workspace

namespace Request

variable {setup : Setup} {env : Environment} {session : Session} {w : Workspace} {request : Request}

/-- Only updates are told of. -/
theorem passage_notices (hr : ∀ u, request ≠ .update u) :
    notices (request.passage setup env session w).events = [] := by
  cases request with
  | update u => exact absurd rfl (hr u)
  | write mutations => exact (Workspace.beginWrite_notices True session w mutations).1
  | dispose cause => exact Workspace.beginDispose_notices session w
  | status | whenEvaluation | whenBuild => rfl

/-- The batch that a request opens is its own. -/
theorem passage_of {batch : OpenBatch} (hh : (request.passage setup env session w).held = .closing batch) :
    batch.Of env.InKind request := by
  cases request with
  | update u =>
    have hp : Passage.Notified env w u (w.receive setup env session u) := (Workspace.receives u).notified
    change (w.receive setup env session u).held = _ at hh
    generalize w.receive setup env session u = p at hp hh
    cases hp with
    | opened hh' hb =>
      cases hh'.symm.trans hh
      exact hb
    | refused _ hh' | uncreated _ _ hh' | misses _ _ _ hh' | skipped hh' => exact absurd (hh'.symm.trans hh) nofun
  | write mutations => exact (Workspace.beginWrite_notices _ session w mutations).2 batch hh
  | dispose cause => exact absurd (passage_suits hh) Commit.not_suits_dispose
  | status | whenEvaluation | whenBuild => cases hh

end Request

end SliceSync
