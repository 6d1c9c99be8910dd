import SliceSync.Proofs.Outcomes
import SliceSync.Proofs.Conduits
/-!
# Traffic through a source

Senders are taken, slices are followed and closed, and meanwhile updates are sent and received: `Traffic` is a source
with all its senders and subscriptions, and with what was put into the streams and taken out. Whom a sender feeds is
told by what happened to its slice (`Traffic.Feeds`): a sender taken while somebody follows feeds him, one taken before
feeds the next to follow. The pairs of streams say the same (`Traffic.Ledger.Tells`).
-/

namespace SliceSync

/-- A sender or a subscription. -/
structure StreamEnd where
  slice : Slice
  /-- The pair of streams it is an end of. -/
  pair : Nat
  /-- Whether it has not been dropped. -/
  held : Bool := true

/-- Updates that go out on a sender, one after the other. -/
structure Errand where
  sender : Nat
  updates : List Update

/-- An update that was put into a stream. -/
structure Posting where
  job : JobId
  pair : Nat
  update : Update

/-- An update that was taken out of a stream. -/
structure Arrival where
  pair : Nat
  kind : UpdateKind
  update : Update

/-- A source in use. -/
structure Traffic where
  world : World
  /-- Everyone that was taken, in order. -/
  senders : List StreamEnd := []
  subscriptions : List StreamEnd := []
  /-- The errand of each job. -/
  errands : List Errand := []
  postings : List Posting := []
  arrivals : List Arrival := []

/-- The end of a number, while it is held. -/
def heldEnd? (ends : List StreamEnd) (n : Nat) : Option StreamEnd := ends[n]?.filter (·.held)

theorem heldEnd?_eq_some_iff {ends : List StreamEnd} {n : Nat} {e : StreamEnd} :
    heldEnd? ends n = some e ↔ ends[n]? = some e ∧ e.held = true := Option.filter_eq_some_iff

/-- The ends after one of them was dropped. -/
def dropEnd (ends : List StreamEnd) (n : Nat) : List StreamEnd := ends.modify n fun e => { e with held := false }

namespace Traffic

def initial (setup : Setup) : Traffic := { world := .initial setup }

def source (t : Traffic) : Source := t.world.source

def setSource (t : Traffic) (source : Source) : Traffic := { t with world := t.world.perform (.setSource source) }

inductive Act
  /-- A sender of a slice is taken. -/
  | take (slice : Slice)
  | drop (sender : Nat)
  /-- A slice is subscribed to. -/
  | follow (slice : Slice)
  /-- The receiving ends of a subscription are dropped. -/
  | leave (subscription : Nat)
  | close (slice : Slice)
  /-- Updates begin to go out on a sender. -/
  | send (sender : Nat) (updates : List Update)
  /-- A job takes a step. -/
  | advance (env : Environment) (me : JobId)
  | receive (subscription : Nat) (kind : UpdateKind)

/-- What a job puts into a stream with its next step. -/
def posting? (t : Traffic) (me : JobId) : Option Posting :=
  match t.world.job? me with
  | some (.send s) =>
    match s.pending with
    | u :: _ => if (t.source.send s.pair me s.waited u).2 = .sent then some ⟨me, s.pair, u⟩ else none
    | [] => none
  | _ => none

def perform (t : Traffic) : Act → Traffic
  | .take slice =>
    { t.setSource (t.source.sender slice).1 with
      senders := t.senders ++ [{ slice, pair := (t.source.sender slice).2 }] }
  | .drop k =>
    match heldEnd? t.senders k with
    | some e => { t.setSource (t.source.dropSender e.pair) with senders := dropEnd t.senders k }
    | none => t
  | .follow slice =>
    { t.setSource (t.source.subscribe slice).1 with
      subscriptions := t.subscriptions ++ [{ slice, pair := (t.source.subscribe slice).2 }] }
  | .leave j =>
    match heldEnd? t.subscriptions j with
    | some f => { t.setSource (t.source.dropReceivers f.pair) with subscriptions := dropEnd t.subscriptions j }
    | none => t
  | .close slice => t.setSource (t.source.close slice)
  | .send k updates =>
    match heldEnd? t.senders k with
    | some e =>
      { t with
        world := (t.world.perform (.setSource (t.source.addSender e.pair))).perform (.send e.pair updates)
        errands := t.errands ++ [⟨k, updates⟩] }
    | none => t
  | .advance env me =>
    { t with
      world := t.world.perform (.advance env me)
      postings := t.postings ++ (t.posting? me).toList }
  | .receive j kind =>
    match heldEnd? t.subscriptions j with
    | some f =>
      match t.source.receive f.pair kind with
      | (source, .update u) => { t.setSource source with arrivals := t.arrivals ++ [⟨f.pair, kind, u⟩] }
      | (_, _) => t
    | none => t

def run (setup : Setup) (acts : List Act) : Traffic := acts.foldl perform (initial setup)

theorem run_concat (setup : Setup) (acts : List Act) (a : Act) : run setup (acts ++ [a]) = (run setup acts).perform a :=
  List.foldl_append

/-! ## Who feeds whom -/

/-- The slices of the senders that some acts take. -/
def taken (acts : List Act) : List Slice :=
  acts.filterMap fun a =>
    match a with
    | .take slice => some slice
    | _ => none

/-- The slices that some acts follow. -/
def followed (acts : List Act) : List Slice :=
  acts.filterMap fun a =>
    match a with
    | .follow slice => some slice
    | _ => none

/-- An act that neither follows nor closes a slice. -/
def Act.Spares (slice : Slice) : Act → Prop
  | .follow other | .close other => other ≠ slice
  | _ => True

/-- Something was done when things stood so, and the slice has been spared since. -/
def Since (slice : Slice) (a : Act) (stood : List Act → Prop) (acts : List Act) : Prop :=
  ∃ before since, acts = before ++ a :: since ∧ stood before ∧ ∀ b ∈ since, b.Spares slice

/-- The subscription of this number is the one that follows the slice. -/
def Current (acts : List Act) (slice : Slice) (j : Nat) : Prop :=
  Since slice (.follow slice) (fun before => (followed before).length = j) acts

/-- The sender of this number was taken when nobody followed the slice, and nobody has followed since. -/
def Awaiting (acts : List Act) (slice : Slice) (k : Nat) : Prop :=
  Since slice (.take slice) (fun before => (taken before).length = k ∧ ∀ j, ¬Current before slice j) acts

/-- What is sent on a sender is for a subscription. -/
inductive Feeds (acts : List Act) (k j : Nat) : Prop
  /-- The sender was waiting for someone to follow. -/
  | early {slice : Slice} {before after : List Act} (h : acts = before ++ .follow slice :: after)
      (hj : (followed before).length = j) (hk : Awaiting before slice k)
  /-- The sender was taken while the subscription followed. -/
  | late {slice : Slice} {before after : List Act} (h : acts = before ++ .take slice :: after)
      (hk : (taken before).length = k) (hj : Current before slice j)

section History

variable {acts : List Act} {a x : Act} {slice other : Slice} {k j : Nat}

/-- A split of some acts and one more is at the last one, or is one of the acts before. -/
theorem split_concat {before after : List Act} :
    acts ++ [a] = before ++ x :: after ↔
      (acts = before ∧ a = x ∧ after = []) ∨ ∃ rest, after = rest ++ [a] ∧ acts = before ++ x :: rest := by
  constructor
  · intro h
    rcases List.eq_nil_or_concat after with rfl | ⟨rest, last, rfl⟩
    · obtain ⟨hacts, ha⟩ := List.append_inj' h rfl
      exact .inl ⟨hacts, List.singleton_inj.1 ha, rfl⟩
    · rw [List.concat_eq_append, ← List.cons_append, ← List.append_assoc] at h
      obtain ⟨hacts, ha⟩ := List.append_inj' h rfl
      exact .inr ⟨rest, by rw [List.concat_eq_append, List.singleton_inj.1 ha], hacts⟩
  · rintro (⟨rfl, rfl, rfl⟩ | ⟨rest, rfl, rfl⟩)
    · rfl
    · simp

theorem since_concat {stood : List Act → Prop} :
    Since slice x stood (acts ++ [a]) ↔ (a = x ∧ stood acts) ∨ (a.Spares slice ∧ Since slice x stood acts) := by
  constructor
  · rintro ⟨before, since, h, hstood, hspares⟩
    rcases split_concat.1 h with ⟨rfl, rfl, rfl⟩ | ⟨rest, rfl, rfl⟩
    · exact .inl ⟨rfl, hstood⟩
    · refine .inr ⟨hspares a (by simp), before, rest, rfl, hstood, fun b hb => hspares b ?_⟩
      exact List.mem_append_left _ hb
  · rintro (⟨rfl, hstood⟩ | ⟨ha, before, since, rfl, hstood, hspares⟩)
    · exact ⟨acts, [], rfl, hstood, fun b hb => absurd hb List.not_mem_nil⟩
    · refine ⟨before, since ++ [a], by simp, hstood, fun b hb => ?_⟩
      rcases List.mem_append.1 hb with hb | hb
      · exact hspares b hb
      · exact List.mem_singleton.1 hb ▸ ha

theorem feeds_concat :
    Feeds (acts ++ [a]) k j ↔ Feeds acts k j ∨
      (∃ slice, a = .follow slice ∧ (followed acts).length = j ∧ Awaiting acts slice k) ∨
      ∃ slice, a = .take slice ∧ (taken acts).length = k ∧ Current acts slice j := by
  constructor
  · rintro (@⟨slice, before, after, h, hj, hk⟩ | @⟨slice, before, after, h, hk, hj⟩)
    · rcases split_concat.1 h with ⟨rfl, rfl, rfl⟩ | ⟨rest, rfl, rfl⟩
      · exact .inr (.inl ⟨slice, rfl, hj, hk⟩)
      · exact .inl (.early rfl hj hk)
    · rcases split_concat.1 h with ⟨rfl, rfl, rfl⟩ | ⟨rest, rfl, rfl⟩
      · exact .inr (.inr ⟨slice, rfl, hk, hj⟩)
      · exact .inl (.late rfl hk hj)
  · rintro ((⟨h, hj, hk⟩ | ⟨h, hk, hj⟩) | ⟨slice, rfl, hj, hk⟩ | ⟨slice, rfl, hk, hj⟩)
    · exact .early (by rw [h, List.append_assoc, List.cons_append]) hj hk
    · exact .late (by rw [h, List.append_assoc, List.cons_append]) hk hj
    · exact .early rfl hj hk
    · exact .late rfl hk hj

/-- A sender feeds only those who follow its own slice. -/
theorem Feeds.same_slice (h : Feeds acts k j) :
    ∃ slice, (taken acts)[k]? = some slice ∧ (followed acts)[j]? = some slice := by
  have take_at (before after : List Act) (slice : Slice) :
      (taken (before ++ .take slice :: after))[(taken before).length]? = some slice := by
    simp [taken]
  have follow_at (before after : List Act) (slice : Slice) :
      (followed (before ++ .follow slice :: after))[(followed before).length]? = some slice := by
    simp [followed]
  cases h with
  | @early slice before after h hj hk =>
    obtain ⟨first, since, rfl, ⟨hk, -⟩, -⟩ := hk
    refine ⟨slice, ?_, by rw [h, ← hj, follow_at]⟩
    rw [h, ← hk, List.append_assoc, List.cons_append, take_at]
  | @late slice before after h hk hj =>
    obtain ⟨first, since, rfl, hj, -⟩ := hj
    refine ⟨slice, by rw [h, ← hk, take_at], ?_⟩
    rw [h, ← hj, List.append_assoc, List.cons_append, follow_at]

end History

/-! ## The world of a source in use -/

section World

variable {setup : Setup} {acts : List Act} {t : Traffic} {me : JobId} {s : Sending}

/-- Whatever is done, the world goes on as a world does; at most a job begins that sends, or a job takes a step. -/
theorem world_perform (t : Traffic) (a : Act) :
    (∃ source, (t.perform a).world = t.world.perform (.setSource source)) ∨
      (∃ source pair updates, (t.perform a).world = (t.world.perform (.setSource source)).perform (.send pair updates)) ∨
      ∃ env me, (t.perform a).world = t.world.perform (.advance env me) := by
  cases a with
  | take | follow | close => exact .inl ⟨_, rfl⟩
  | advance env me => exact .inr (.inr ⟨env, me, rfl⟩)
  | drop k | leave k =>
    unfold perform
    dsimp only
    split <;> exact .inl ⟨_, rfl⟩
  | send k updates =>
    unfold perform
    dsimp only
    split
    · exact .inr (.inl ⟨_, _, _, rfl⟩)
    · exact .inl ⟨_, rfl⟩
  | receive j kind =>
    unfold perform
    dsimp only
    split
    · split <;> exact .inl ⟨_, rfl⟩
    · exact .inl ⟨_, rfl⟩

theorem world_run (setup : Setup) (acts : List Act) :
    ∃ worldActs, (run setup acts).world = World.run setup worldActs := by
  induction acts using List.reverseRecOn with
  | nil => exact ⟨[], rfl⟩
  | append_singleton acts a ih =>
    obtain ⟨worldActs, ih⟩ := ih
    rw [run_concat]
    rcases (run setup acts).world_perform a with ⟨_, h⟩ | ⟨_, _, _, h⟩ | ⟨_, _, h⟩
    all_goals rw [h, ih]
    · exact ⟨_, (World.run_concat setup worldActs _).symm⟩
    · exact ⟨_, by rw [← World.run_concat, ← World.run_concat]⟩
    · exact ⟨_, (World.run_concat setup worldActs _).symm⟩

theorem keeps_run (setup : Setup) (acts : List Act) :
    (run setup acts).world.Keeps (World.freely setup) ∧ (run setup acts).world.Numbered := by
  obtain ⟨worldActs, h⟩ := world_run setup acts
  rw [h]
  exact World.numbered_run setup worldActs

end World

end Traffic

/-! ## Steps of senders -/

namespace Source

variable {s : Source} {pair : Nat} {job : JobId} {waited : Bool} {u : Update} {p : StreamPair}

theorem send_of_isClosed (hc : s.isClosed pair = true) : (s.send pair job waited u).2 = .closed := by
  unfold isClosed at hc
  unfold send
  cases hp : s.pairs[pair]? with
  | none => rfl
  | some p => simp_all

theorem send_of_put {stream : Stream} (hp : s.pairs[pair]? = some p) (hf : p.followed = true)
    (hput : s.put p job waited u = some stream) : (s.send pair job waited u).2 = .sent := by
  unfold put at hput
  simp [send, hp, hf, hput]

theorem send_of_put_none (hp : s.pairs[pair]? = some p) (hf : p.followed = true)
    (hput : s.put p job waited u = none) : (s.send pair job waited u).2 = .full := by
  unfold put at hput
  simp [send, hp, hf, hput]

end Source

/-- A step of a sender: what it leaves of the source, what it puts into a stream, and how the sender goes on. -/
inductive Sending.Turn (source : Source) (me : JobId) (s : Sending) :
    Source → Option Update → Onward Sending (Except SyncError Unit) → Prop
  | ends (hp : s.pending = []) : Turn source me s (source.dropSender s.pair) none (.done (.ok ()))
  | stops {u : Update} {rest : List Update} (hp : s.pending = u :: rest) (hc : source.isClosed s.pair = true) :
      Turn source me s (source.dropSender s.pair) none (.done (.error Source.closedError))
  | sends {u : Update} {rest : List Update} {p : StreamPair} {stream : Stream} (hp : s.pending = u :: rest)
      (hpair : source.pairs[s.pair]? = some p) (hf : p.followed = true)
      (hput : source.put p me s.waited u = some stream) :
      Turn source me s (source.modifyPair s.pair (·.setStream u.kind stream)) (some u)
        (.going { s with pending := rest, waited := false })
  | stays : Turn source me s source none (.going s)
  | waits (kind : UpdateKind) : Turn source me s (source.await s.pair me kind) none (.going { s with waited := true })

namespace Traffic

variable {setup : Setup} {acts : List Act} {t : Traffic} {me : JobId} {s : Sending}

/-- All that comes of a step of a sender. -/
theorem advance_turn (hk : t.world.Keeps (World.freely setup)) (hn : t.world.Numbered)
    (hj : t.world.job? me = some (.send s)) (env : Environment) :
    ∃ source posted onward, s.Turn t.source me source posted onward ∧
      (t.perform (.advance env me)).source = source ∧
      (t.perform (.advance env me)).world.job? = Function.update t.world.job? me (onward.state?.map .send) ∧
      (t.perform (.advance env me)).world.nextJob = t.world.nextJob ∧
      (t.perform (.advance env me)).postings = t.postings ++ (posted.map fun u => ⟨me, s.pair, u⟩).toList ∧
      ∀ result, onward = .done result → (t.perform (.advance env me)).world.outcome? me = some (.sent result) := by
  have hturn : ∃ source posted onward, s.Turn t.source me source posted onward ∧
      t.world.advanceSending me s = ({ t.world with source }, onward) ∧
      t.posting? me = posted.map fun u => ⟨me, s.pair, u⟩ := by
    have hposts {u : Update} {rest : List Update} {result : Sent} (hp : s.pending = u :: rest)
        (hs : (t.source.send s.pair me s.waited u).2 = result) :
        t.posting? me = if result = .sent then some ⟨me, s.pair, u⟩ else none := by
      unfold posting?
      rw [hj]
      dsimp only
      rw [hp]
      dsimp only
      rw [hs]
    have hpaths := t.world.advanceSending_paths me s
    generalize t.world.advanceSending me s = r at hpaths
    cases hpaths with
    | ends hp => exact ⟨_, _, _, .ends hp, rfl, by simp [posting?, hj, hp]⟩
    | stops hp hc => exact ⟨_, _, _, .stops hp hc, rfl, hposts hp (Source.send_of_isClosed hc)⟩
    | sends hp hpair hf hput =>
      exact ⟨_, _, _, .sends hp hpair hf hput, rfl, hposts hp (Source.send_of_put hpair hf hput)⟩
    | stays hp hpair hf hput hw => exact ⟨_, _, _, .stays, rfl, hposts hp (Source.send_of_put_none hpair hf hput)⟩
    | waits hp hpair hf hput hw => exact ⟨_, _, _, .waits _, rfl, hposts hp (Source.send_of_put_none hpair hf hput)⟩
  obtain ⟨source, posted, onward, hturn, hadvance, hposting⟩ := hturn
  have hfits : (World.freely setup).fits env := trivial
  have hjob := World.job?_advance hk hfits hj
  have hworld : (t.world.advance env me).source = source ∧ (t.world.advance env me).nextJob = t.world.nextJob := by
    obtain ⟨jobs, outcomes, heq⟩ := World.advance_eq env hj
    rw [heq, World.advanceJob_send, hadvance]
    exact ⟨rfl, rfl⟩
  refine ⟨source, posted, onward, hturn, hworld.1, hjob.trans ?_, hworld.2, ?_, ?_⟩
  · rw [World.advanceJob_send, hadvance, Onward.state?_bimap]
    rfl
  · show t.postings ++ (t.posting? me).toList = _
    rw [hposting]
  · rintro result rfl
    refine World.outcome?_advance hn hj ?_
    rw [World.advanceJob_send, hadvance]
    rfl

/-- A number without a job steps nowhere. -/
theorem perform_advance_of_none (h : t.world.job? me = none) (env : Environment) : t.perform (.advance env me) = t := by
  have hworld : t.world.perform (.advance env me) = t.world := World.advance_of_none h
  have hposting : t.posting? me = none := by simp [posting?, h]
  rw [perform, hworld, hposting, Option.toList_none, List.append_nil]

/-- Only senders are at work. -/
theorem sends_run (setup : Setup) (acts : List Act) {me : JobId} {job : Job}
    (hj : (run setup acts).world.job? me = some job) : ∃ s, job = .send s := by
  induction acts using List.reverseRecOn generalizing me job with
  | nil => cases hj
  | append_singleton acts a ih =>
    obtain ⟨hk, hn⟩ := keeps_run setup acts
    rw [run_concat] at hj
    rcases (run setup acts).world_perform a with ⟨source, h⟩ | ⟨source, pair, updates, h⟩ | ⟨env, other, h⟩
    · rw [h] at hj
      exact ih hj
    · rw [h] at hj
      have hspawn := World.job?_spawn (w := (run setup acts).world.perform (.setSource source)) hk.fresh
        (.send { pair, pending := updates })
      change (World.spawn _ (.send { pair, pending := updates })).job? me = _ at hj
      rw [hspawn, Function.update_apply] at hj
      split at hj
      · exact ⟨_, (Option.some.inj hj).symm⟩
      · exact ih hj
    · rw [h] at hj
      cases hother : (run setup acts).world.job? other with
      | none =>
        change (World.advance _ env other).job? me = _ at hj
        rw [World.advance_of_none hother] at hj
        exact ih hj
      | some job' =>
        obtain ⟨s, rfl⟩ := ih hother
        obtain ⟨_, _, onward, -, -, hjob, -⟩ := advance_turn hk hn hother env
        change (World.perform _ (.advance env other)).job? = _ at hjob
        rw [hjob, Function.update_apply] at hj
        split at hj
        · obtain ⟨s', -, rfl⟩ := Option.map_eq_some_iff.1 hj
          exact ⟨s', rfl⟩
        · exact ih hj

end Traffic

end SliceSync
