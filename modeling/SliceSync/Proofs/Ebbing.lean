import SliceSync.Proofs.Lasting
/-!
# Streams that run dry

Once nobody can send to a pair of streams any more (`World.Closed`), its streams stay closed and nothing is put into
them: whatever happens, they only ebb (`Source.Ebbs`).

Main statements: `World.Closed.ebbs` and `World.Closed.perform`.
-/

namespace SliceSync

/-! ## Pairs -/

namespace StreamPair

/-- How many updates a pair has queued. -/
def queued (p : StreamPair) : Nat := p.evaluation.queue.length + p.build.queue.length

/-- Nobody can send who could not before, and nothing has been put in. -/
structure Ebbs (p p' : StreamPair) : Prop where
  senders : ∀ kind, (p'.stream kind).senders ≤ (p.stream kind).senders
  queue : ∀ kind, (p'.stream kind).queue.length ≤ (p.stream kind).queue.length

variable {p p' p'' : StreamPair} {kind : UpdateKind}

theorem Ebbs.refl (p : StreamPair) : p.Ebbs p := ⟨fun _ => Nat.le_refl _, fun _ => Nat.le_refl _⟩

theorem Ebbs.trans (h : p.Ebbs p') (h' : p'.Ebbs p'') : p.Ebbs p'' :=
  ⟨fun kind => Nat.le_trans (h'.senders kind) (h.senders kind), fun kind => Nat.le_trans (h'.queue kind) (h.queue kind)⟩

theorem Ebbs.queued (h : p.Ebbs p') : p'.queued ≤ p.queued :=
  Nat.add_le_add (h.queue .evaluation) (h.queue .build)

theorem ebbs_setStream {s : Stream} (hs : s.senders ≤ (p.stream kind).senders)
    (hq : s.queue.length ≤ (p.stream kind).queue.length) : p.Ebbs (p.setStream kind s) := by
  constructor
  · intro other
    cases kind <;> cases other <;> first | exact hs | exact Nat.le_refl _
  · intro other
    cases kind <;> cases other <;> first | exact hq | exact Nat.le_refl _

theorem queued_setStream {s : Stream} (hq : s.queue.length + 1 = (p.stream kind).queue.length) :
    (p.setStream kind s).queued + 1 = p.queued := by
  cases kind <;> simp only [queued, setStream, stream] at hq ⊢ <;> omega

end StreamPair

/-- An update that is taken out leaves one less in the queue. -/
theorem Stream.take_length {s s' : Stream} {u : Update} (h : s.take = some (u, s')) :
    s'.queue.length + 1 = s.queue.length ∧ s'.senders = s.senders := by
  unfold take at h
  cases hq : s.queue with
  | nil => simp [hq] at h
  | cons first rest => cases hw : s.waiting <;> simp [hq, hw] at h <;> simp [← h.2]

/-! ## What is done to the source -/

namespace Source

variable {s s' s'' : Source} {pair : Nat} {u : Update}

/-- Nothing has been put into the streams of a pair, and nobody can send to them who could not before. -/
def Ebbs (pair : Nat) (s s' : Source) : Prop :=
  ∀ p, s.pairs[pair]? = some p → ∃ p', s'.pairs[pair]? = some p' ∧ p.Ebbs p'

theorem Ebbs.refl (pair : Nat) (s : Source) : Ebbs pair s s := fun p hp => ⟨p, hp, .refl p⟩

theorem Ebbs.trans (h : Ebbs pair s s') (h' : Ebbs pair s' s'') : Ebbs pair s s'' := by
  intro p hp
  obtain ⟨p', hp', hebbs⟩ := h p hp
  obtain ⟨p'', hp'', hebbs'⟩ := h' p' hp'
  exact ⟨p'', hp'', hebbs.trans hebbs'⟩

theorem ebbs_modifyPair (s : Source) {other : Nat} {f : StreamPair → StreamPair}
    (hf : other = pair → ∀ p, s.pairs[pair]? = some p → p.Ebbs (f p)) : Ebbs pair s (s.modifyPair other f) := by
  intro p hp
  unfold modifyPair
  by_cases ho : other = pair
  · refine ⟨f p, ?_, hf ho p hp⟩
    simp [ho, hp]
  · refine ⟨p, ?_, .refl p⟩
    simp [ho, hp]

theorem ebbs_dropSender (s : Source) (pair other : Nat) : Ebbs pair s (s.dropSender other) := by
  refine s.ebbs_modifyPair fun _ p _ => ⟨fun kind => ?_, fun kind => ?_⟩
  · cases kind <;> exact Nat.sub_le ..
  · cases kind <;> exact Nat.le_refl _

theorem ebbs_dropReceivers (s : Source) (pair other : Nat) : Ebbs pair s (s.dropReceivers other) := by
  refine s.ebbs_modifyPair fun _ p _ => ⟨fun kind => ?_, fun kind => ?_⟩
  · cases kind <;> exact Nat.le_refl _
  · cases kind <;> exact Nat.zero_le _

theorem ebbs_openFeed (s : Source) (pair : Nat) (slice : Slice) (taken : Bool) :
    Ebbs pair s (s.openFeed slice taken).1 := by
  intro p hp
  refine ⟨p, ?_, .refl p⟩
  exact (List.getElem?_append_left (List.getElem?_eq_some_iff.1 hp).1).trans hp

/-- Who follows a slice anew changes nothing at the pairs that are there, unless a feed ends with them. -/
theorem ebbs_subscribe (s : Source) (pair : Nat) (slice : Slice) : Ebbs pair s (s.subscribe slice).1 := by
  unfold subscribe
  cases s.feeds.get? slice with
  | none => exact s.ebbs_openFeed pair slice true
  | some feed =>
    dsimp only
    split
    · exact (s.ebbs_dropSender pair feed.pair).trans (ebbs_openFeed _ pair slice true)
    · exact .refl pair s

theorem ebbs_await (s : Source) (pair other : Nat) (job : JobId) (kind : UpdateKind) :
    Ebbs pair s (s.await other job kind) :=
  s.ebbs_modifyPair fun _ _ _ => StreamPair.ebbs_setStream (Nat.le_refl _) (Nat.le_refl _)

/-- Sending elsewhere does nothing here. -/
theorem ebbs_send (s : Source) {other : Nat} (hne : other ≠ pair) (job : JobId) (waited : Bool) (u : Update) :
    Ebbs pair s (s.send other job waited u).1 := by
  unfold send
  split
  · exact .refl pair s
  · split
    · exact .refl pair s
    · dsimp only
      generalize (if waited then Stream.deliver _ job u else Stream.offer _ s.capacity u) = put
      cases put with
      | none => exact .refl pair s
      | some stream => exact s.ebbs_modifyPair fun heq => absurd heq hne

theorem Takes.ebbs {other : Nat} {kind : UpdateKind} (h : s.Takes other kind u s') : Ebbs pair s s' := by
  obtain ⟨p, stream, hp, htake, rfl⟩ := h
  obtain ⟨hlength, hsenders⟩ := Stream.take_length htake
  refine s.ebbs_modifyPair fun ho p' hp' => ?_
  cases hp'.symm.trans (ho ▸ hp)
  exact StreamPair.ebbs_setStream (Nat.le_of_eq hsenders) (by omega)

/-- How many updates the streams of a pair have queued. -/
def queued (s : Source) (pair : Nat) : Nat := ((s.pairs[pair]?).map StreamPair.queued).getD 0

theorem Ebbs.queued {p : StreamPair} (h : Ebbs pair s s') (hp : s.pairs[pair]? = some p) :
    s'.queued pair ≤ s.queued pair := by
  obtain ⟨p', hp', hebbs⟩ := h p hp
  simpa [Source.queued, hp, hp'] using hebbs.queued

theorem Takes.queued {kind : UpdateKind} (h : s.Takes pair kind u s') : s'.queued pair + 1 = s.queued pair := by
  obtain ⟨p, stream, hp, htake, rfl⟩ := h
  have hlength := (Stream.take_length htake).1
  simpa [Source.queued, modifyPair, hp] using StreamPair.queued_setStream hlength

end Source

namespace World

variable {t : Terms} {w : World} {env : Environment} {me : JobId} {a : Act} {pair : Nat}

/-! ## What jobs do to the source -/

theorem advanceCall_source (w : World) (env : Environment) (me : JobId) (i : Nat) (c : Call) :
    (w.advanceCall env me i c).1.source = w.source := by
  unfold advanceCall
  split <;> rfl

theorem createHosted_source (w : World) (env : Environment) (pair : Nat) (slice : Slice) :
    w.source.Ebbs pair (w.createHosted env slice).1.source := by
  unfold createHosted
  split
  · exact .refl pair w.source
  · split
    · exact .refl pair w.source
    · exact w.source.ebbs_subscribe pair slice

/-- A call on the host does nothing to the source but to follow slices anew. -/
theorem ebbs_lasting (source : Source) (pair : Nat) : Lasting fun w => source.Ebbs pair w.source where
  call env me i c hw := by rwa [advanceCall_source]
  claim _ hw := hw
  slots _ hw := hw
  active _ hw := hw
  create env slice hw := hw.trans (createHosted_source _ env pair slice)

theorem advanceSending_source (w : World) (me : JobId) {s : Sending} (hs : s.pair ≠ pair) :
    w.source.Ebbs pair (w.advanceSending me s).1.source := by
  unfold advanceSending
  split
  · exact w.source.ebbs_dropSender pair s.pair
  · rename_i u rest _
    have h := w.source.ebbs_send hs me s.waited u
    generalize w.source.send s.pair me s.waited u = r at h ⊢
    obtain ⟨source, sent | full | closed⟩ := r
    · exact h
    · dsimp only
      split
      · exact .refl pair w.source
      · exact h.trans (source.ebbs_await pair s.pair me u.kind)
    · exact h.trans (source.ebbs_dropSender pair s.pair)

theorem endDriver_source (w : World) (d : Driver) (exit : DriverExit) (pair : Nat) :
    w.source.Ebbs pair (w.endDriver d exit).1.source := w.source.ebbs_dropReceivers pair d.pair

end World

/-- A driver takes out what is in its streams, and gives them up in the end. -/
theorem Driver.Paths.source {d : Driver} {w : World} {env : Environment} {me : JobId} {event : Option DriverEvent}
    {r : World × Onward Driver DriverExit} (h : d.Paths w env me event r) (pair : Nat) :
    w.source.Ebbs pair r.1.source := by
  cases h with
  | @works c c' w' _ hg =>
    have hsame := w.advanceCall_source env me d.workspace c
    rw [hg] at hsame
    exact hsame ▸ .refl pair w.source
  | @succeeds c answer w' _ hd =>
    have hsame := w.advanceCall_source env me d.workspace c
    rw [hd] at hsame
    exact hsame ▸ .refl pair w.source
  | @fails c error w' _ hd =>
    have hsame := w.advanceCall_source env me d.workspace c
    rw [hd] at hsame
    exact hsame ▸ w'.endDriver_source d _ pair
  | hands | waits | closes => exact .refl pair w.source
  | completes | unloads => exact w.endDriver_source d _ pair
  | receives _ _ _ _ hr => exact hr.ebbs

namespace World

variable {t : Terms} {w : World} {env : Environment} {me : JobId} {a : Act} {pair : Nat} {job : Job} {s : Sending}

/-- A job does nothing to the streams of a pair but to take out of them, if it does not send to them. -/
theorem advanceJob_source (w : World) (env : Environment) (me : JobId) (pair : Nat)
    (hs : ∀ s, job = .send s → s.pair ≠ pair) : w.source.Ebbs pair (w.advanceJob env me job).1.source := by
  cases job with
  | call i c =>
    rw [advanceJob_call]
    exact w.advanceCall_source env me i c ▸ .refl pair w.source
  | retire i r =>
    rw [advanceJob_retire]
    exact (ebbs_lasting w.source pair).advanceRetirement (.refl pair w.source) env me i r
  | drive d =>
    obtain ⟨event, -, h⟩ := w.advanceDriver_paths env me d
    rw [advanceJob_drive]
    exact h.source pair
  | send s =>
    rw [advanceJob_send]
    exact w.advanceSending_source me (hs s rfl)
  | host c =>
    rw [advanceJob_host]
    exact (ebbs_lasting w.source pair).advanceHost (.refl pair w.source) env me c

theorem advance_source (w : World) (env : Environment) (me : JobId) (pair : Nat)
    (hs : ∀ s, w.job? me = some (.send s) → s.pair ≠ pair) : w.source.Ebbs pair (w.advance env me).source := by
  cases hj : w.job? me with
  | none =>
    rw [advance_of_none hj]
    exact .refl pair w.source
  | some job =>
    obtain ⟨jobs, outcomes, hadvance⟩ := advance_eq env hj
    rw [hadvance]
    exact w.advanceJob_source env me pair fun s (heq : job = .send s) => hs s (heq ▸ hj)

theorem advanceSending_pair {s' : Sending} (h : (w.advanceSending me s).2 = .going s') : s'.pair = s.pair := by
  unfold advanceSending at h
  split at h
  · cases h
  · split at h
    · cases h
      rfl
    · cases h
    · split at h <;> cases h <;> rfl

/-- Who goes on sending has been sending before, to the same pair. -/
theorem sending_of_advanceJob (h : (w.advanceJob env me job).2 = .going (.send s)) :
    ∃ before, job = .send before ∧ before.pair = s.pair := by
  cases job with
  | send before =>
    rw [advanceJob_send] at h
    obtain ⟨s', hgoing, hs⟩ := Onward.bimap_eq_going_iff.1 h
    cases hs
    exact ⟨before, rfl, (advanceSending_pair hgoing).symm⟩
  | _ => cases kind_of_going h

/-- Who sends has begun to, and goes on sending to the same pair. -/
theorem sending_perform (hk : w.Keeps t) (ha : a.Within t) (hj : (w.perform a).job? me = some (.send s)) :
    (∃ before, w.job? me = some (.send before) ∧ before.pair = s.pair) ∨ ∃ updates, a = .send s.pair updates := by
  rcases a.step_or_not me with hne | ⟨env, rfl⟩
  · rcases job?_perform hk ha hne with hsame | ⟨-, job, hnew, hjob⟩
    · exact .inl ⟨s, hsame.symm.trans hj, rfl⟩
    · cases hnew.symm.trans hj
      rcases hjob with hbegins | ⟨d, -, hd⟩
      · cases a with
        | send pair updates =>
          cases hbegins
          exact .inr ⟨updates, rfl⟩
        | _ => cases hbegins
      · cases hd
  · left
    change (w.advance env me).job? me = _ at hj
    cases hbefore : w.job? me with
    | none =>
      rw [advance_of_none hbefore] at hj
      exact ⟨s, hbefore.symm.trans hj, rfl⟩
    | some job =>
      rw [job?_advance_self hk ha hbefore] at hj
      obtain ⟨before, rfl, hpair⟩ := sending_of_advanceJob (Onward.state?_eq_some_iff.1 hj)
      exact ⟨before, rfl, hpair⟩

/-! ## Pairs to which nobody sends -/

/-- Nobody can send to the streams of a pair. -/
structure Closed (w : World) (pair : Nat) : Prop where
  streams : ∃ p, w.source.pairs[pair]? = some p ∧ ∀ kind, (p.stream kind).senders = 0
  nobody : ∀ me s, w.job? me = some (.send s) → s.pair ≠ pair

/-- An act brings nothing into the streams of a pair, and nobody to send to them. -/
def Leaves (w : World) (pair : Nat) : Act → Prop
  | .send other _ => other ≠ pair
  | .setSource source => w.source.Ebbs pair source
  | _ => True

/-- Streams to which nobody sends only ebb. -/
theorem Closed.ebbs (h : w.Closed pair) (hl : w.Leaves pair a) : w.source.Ebbs pair (w.perform a).source := by
  cases a with
  | create env slice => exact w.createHosted_source env pair slice
  | setSource source => exact hl
  | claimExit place =>
    obtain ⟨hosted, hclaim, -⟩ := w.perform_claimExit place
    rw [hclaim]
    exact .refl pair w.source
  | advance env me => exact w.advance_source env me pair (h.nobody me)
  | _ => exact .refl pair w.source

/-- They stay closed. -/
theorem Closed.perform (h : w.Closed pair) (hk : w.Keeps t) (ha : a.Within t) (hl : w.Leaves pair a) :
    (w.perform a).Closed pair := by
  obtain ⟨p, hp, hsenders⟩ := h.streams
  obtain ⟨p', hp', hebbs⟩ := h.ebbs hl p hp
  refine ⟨⟨p', hp', fun kind => Nat.le_zero.1 (hsenders kind ▸ hebbs.senders kind)⟩, fun me s hj => ?_⟩
  rcases sending_perform hk ha hj with ⟨before, hbefore, hpair⟩ | ⟨updates, rfl⟩
  · exact hpair ▸ h.nobody me before hbefore
  · exact hl

end World

end SliceSync
