import SliceSync.Proofs.Feeding
/-!
# What goes through a stream

A source is looked at together with what was put into each of its streams and what was taken out. As long as a stream
has a follower, what was put in is what was taken out and what is queued (`Stream.Conducts`); whatever is done to the
source, it stays so (`Source.Conducts`). A pair that nobody follows any more is not followed again.
-/

namespace SliceSync

/-- What a key is bound to last counts. -/
theorem Listing.insert_insert {κ β : Type} [DecidableEq κ] (m : Listing κ β) (key : κ) (value value' : β) :
    (m.insert key value).insert key value' = m.insert key value' := by
  have hput (l : List (κ × β)) : put key value' (put key value l) = put key value' l := by
    induction l with
    | nil => simp [put]
    | cons e rest ih => by_cases he : e.1 = key <;> simp [put, he, ih]
  simp only [insert, hput]

/-- What a key is bound to after a binding: this, or what it was bound to before. -/
theorem Listing.get?_insert_eq_some_iff {κ β : Type} [DecidableEq κ] {m : Listing κ β} {key other : κ} {value bound : β} :
    (m.insert key value).get? other = some bound ↔
      key = other ∧ bound = value ∨ key ≠ other ∧ m.get? other = some bound := by
  rw [get?_insert]
  split <;> simp [*, eq_comm]

/-! ## One stream -/

/-- A stream into which some updates were put and out of which some were taken. -/
structure Stream.Conducts (capacity : Nat) (followed : Bool) (posted arrived : List Update) (s : Stream) : Prop where
  whole : followed = true → posted = arrived ++ s.queue
  beginning : arrived <+: posted
  /-- Nothing is left for a follower that is gone. -/
  empty : followed = false → s.queue = []
  /-- Also those who were given a place will find one. -/
  room : s.queue.length + s.granted.length ≤ capacity

namespace Stream.Conducts

variable {capacity : Nat} {followed : Bool} {posted arrived : List Update} {s s' : Stream} {u : Update}

theorem congr (h : s.Conducts capacity followed posted arrived) (hq : s'.queue = s.queue)
    (hg : s'.granted = s.granted) : s'.Conducts capacity followed posted arrived := by
  refine ⟨?_, h.beginning, ?_, ?_⟩
  · rw [hq]
    exact h.whole
  · rw [hq]
    exact h.empty
  · rw [hq, hg]
    exact h.room

theorem fresh (capacity : Nat) (senders : Nat) : Conducts capacity true [] [] { senders } :=
  ⟨fun _ => rfl, List.prefix_rfl, nofun, Nat.zero_le _⟩

/-- The follower goes. -/
theorem stop (h : s.Conducts capacity followed posted arrived) :
    Conducts capacity false posted arrived { s with queue := [] } := by
  refine ⟨nofun, h.beginning, fun _ => rfl, ?_⟩
  have := h.room
  simp only [List.length_nil]
  omega

/-- An update goes in behind all others. -/
theorem put (h : s.Conducts capacity true posted arrived) (hq : s'.queue = s.queue ++ [u])
    (hr : s'.queue.length + s'.granted.length ≤ capacity) : s'.Conducts capacity true (posted ++ [u]) arrived := by
  have hwhole := h.whole rfl
  refine ⟨fun _ => ?_, ?_, nofun, hr⟩
  · rw [hwhole, hq, List.append_assoc]
  · rw [hwhole, List.append_assoc]
    exact List.prefix_append _ _

/-- The oldest update comes out. -/
theorem take (h : s.Conducts capacity followed posted arrived) (ht : s.take = some (u, s')) :
    s'.Conducts capacity followed posted (arrived ++ [u]) := by
  obtain ⟨hq, hr⟩ : s.queue = u :: s'.queue ∧
      s'.queue.length + s'.granted.length ≤ s.queue.length + s.granted.length := by
    unfold Stream.take at ht
    cases hs : s.queue with
    | nil => simp [hs] at ht
    | cons first rest =>
      cases hw : s.waiting with
      | nil =>
        simp only [hs, hw] at ht
        cases ht
        exact ⟨rfl, by simp⟩
      | cons next others =>
        simp only [hs, hw] at ht
        cases ht
        exact ⟨rfl, by simp only [List.length_append, List.length_cons, List.length_nil]; omega⟩
  cases followed with
  | false =>
    rw [h.empty rfl] at hq
    cases hq
  | true =>
    have hwhole : posted = (arrived ++ [u]) ++ s'.queue := by rw [h.whole rfl, hq, List.append_assoc]; rfl
    exact ⟨fun _ => hwhole, ⟨s'.queue, hwhole.symm⟩, nofun, Nat.le_trans hr h.room⟩

end Stream.Conducts

/-- An update that gets into a stream finds room there. -/
theorem Source.put_room {s : Source} {p : StreamPair} {job : JobId} {waited : Bool} {u : Update} {stream : Stream}
    (h : s.put p job waited u = some stream)
    (hr : (p.stream u.kind).queue.length + (p.stream u.kind).granted.length ≤ s.capacity) :
    stream.queue.length + stream.granted.length ≤ s.capacity := by
  unfold put Stream.deliver Stream.offer at h
  split at h
  · split at h
    · rename_i hmem
      cases h
      have hlength := List.length_erase_of_mem (List.contains_iff_mem.1 hmem)
      have hpos := List.length_pos_of_mem (List.contains_iff_mem.1 hmem)
      simp only [List.length_append, List.length_cons, List.length_nil]
      omega
    · cases h
  · split at h
    · cases h
      simp only [List.length_append, List.length_cons, List.length_nil]
      omega
    · cases h

/-! ## All streams of a source -/

namespace Source

variable {s s' : Source} {slice : Slice} {pair other : Nat}

@[simp] theorem length_modifyPair (s : Source) (pair : Nat) (f : StreamPair → StreamPair) :
    (s.modifyPair pair f).pairs.length = s.pairs.length := List.length_modify ..

@[simp] theorem length_addSender (s : Source) (pair : Nat) : (s.addSender pair).pairs.length = s.pairs.length :=
  s.length_modifyPair pair _

@[simp] theorem length_dropSender (s : Source) (pair : Nat) : (s.dropSender pair).pairs.length = s.pairs.length :=
  s.length_modifyPair pair _

@[simp] theorem length_dropReceivers (s : Source) (pair : Nat) :
    (s.dropReceivers pair).pairs.length = s.pairs.length := s.length_modifyPair pair _

@[simp] theorem length_openFeed (s : Source) (slice : Slice) (taken : Bool) :
    (s.openFeed slice taken).1.pairs.length = s.pairs.length + 1 := List.length_append

/-- Taking a sender gives a slice a pair if it has none. -/
theorem feeds_sender {other : Slice} {feed : Feed} (h : (s.sender slice).1.feeds.get? other = some feed) :
    s.feeds.get? other = some feed ∨ slice = other ∧ s.feeds.get? slice = none ∧ feed = ⟨s.pairs.length, false⟩ := by
  unfold sender at h
  cases hfeed : s.feeds.get? slice with
  | some feed =>
    rw [hfeed] at h
    exact .inl h
  | none =>
    rw [hfeed] at h
    rcases Listing.get?_insert_eq_some_iff.1 h with ⟨hother, hnew⟩ | ⟨-, hold⟩
    · exact .inr ⟨hother, rfl, hnew⟩
    · exact .inl hold

/-- Who subscribes is handed the pair of the slice. -/
theorem feeds_subscribe (s : Source) (slice other : Slice) :
    (s.subscribe slice).1.feeds.get? other =
      if slice = other then some ⟨(s.subscribe slice).2, true⟩ else s.feeds.get? other := by
  unfold subscribe
  cases s.feeds.get? slice with
  | none => exact Listing.get?_insert ..
  | some feed =>
    dsimp only
    split <;> exact Listing.get?_insert ..

theorem feeds_close (s : Source) (slice other : Slice) :
    (s.close slice).feeds.get? other = if slice = other then none else s.feeds.get? other := by
  cases hfeed : s.feeds.get? slice with
  | none =>
    rw [close, hfeed]
    by_cases hother : slice = other
    · rw [if_pos hother, ← hother, hfeed]
    · rw [if_neg hother]
  | some feed =>
    rw [← Listing.get?_erase, close, hfeed]
    dsimp only
    split <;> rfl

/-- A source into whose streams some updates were put and out of which some were taken. -/
structure Conducts (capacity : Nat) (posted arrived : Nat → UpdateKind → List Update) (s : Source) : Prop where
  bound : s.capacity = capacity
  streams : ∀ {pair : Nat} {p : StreamPair}, s.pairs[pair]? = some p → ∀ kind,
    (p.stream kind).Conducts capacity p.followed (posted pair kind) (arrived pair kind)
  unopened : ∀ {pair}, s.pairs.length ≤ pair → ∀ kind, posted pair kind = [] ∧ arrived pair kind = []

/-- What is done to a pair of streams puts nothing in and takes nothing out. -/
def Calm (f : StreamPair → StreamPair) : Prop :=
  ∀ p kind capacity posted arrived, (p.stream kind).Conducts capacity p.followed posted arrived →
    ((f p).stream kind).Conducts capacity (f p).followed posted arrived

namespace Conducts

variable {capacity : Nat} {posted arrived posted' arrived' : Nat → UpdateKind → List Update}

theorem congr (h : s.Conducts capacity posted arrived) (hp : s'.pairs = s.pairs) (hc : s'.capacity = s.capacity) :
    s'.Conducts capacity posted arrived := by
  refine ⟨hc.trans h.bound, ?_, ?_⟩
  · intro pair p hpair
    exact h.streams (hp ▸ hpair)
  · intro pair hpair
    exact h.unopened (hp ▸ hpair)

theorem modifyPair (h : s.Conducts capacity posted arrived) {f : StreamPair → StreamPair} (hf : Calm f) (pair : Nat) :
    (s.modifyPair pair f).Conducts capacity posted arrived := by
  refine ⟨h.bound, ?_, ?_⟩
  · intro other p hp kind
    change (s.pairs.modify pair f)[other]? = some p at hp
    rw [List.getElem?_modify] at hp
    obtain ⟨q, hq, hqp⟩ := Option.map_eq_some_iff.1 hp
    by_cases hother : pair = other
    · rw [if_pos hother] at hqp
      exact hqp ▸ hf q kind _ _ _ (h.streams hq kind)
    · rw [if_neg hother] at hqp
      exact hqp ▸ h.streams hq kind
  · intro other hother
    exact h.unopened (s.length_modifyPair pair f ▸ hother)

/-- What goes through one stream leaves the others alone. -/
theorem setStream (h : s.Conducts capacity posted arrived) {p : StreamPair} (hp : s.pairs[pair]? = some p)
    {kind : UpdateKind} {stream : Stream} (hs : stream.Conducts capacity p.followed (posted' pair kind) (arrived' pair kind))
    (hsame : ∀ other kind', ¬(other = pair ∧ kind' = kind) →
      posted' other kind' = posted other kind' ∧ arrived' other kind' = arrived other kind') :
    (s.modifyPair pair (·.setStream kind stream)).Conducts capacity posted' arrived' := by
  refine ⟨h.bound, ?_, ?_⟩
  · intro other q hq kind'
    change (s.pairs.modify pair (·.setStream kind stream))[other]? = some q at hq
    rw [List.getElem?_modify] at hq
    obtain ⟨q', hq', hqq⟩ := Option.map_eq_some_iff.1 hq
    by_cases hother : pair = other
    · subst hother
      obtain rfl : q' = p := Option.some.inj (hq'.symm.trans hp)
      rw [if_pos rfl] at hqq
      subst hqq
      rw [StreamPair.followed_setStream]
      by_cases hkind : kind' = kind
      · subst hkind
        rw [StreamPair.stream_setStream_self]
        exact hs
      · obtain ⟨hposted, harrived⟩ := hsame pair kind' fun hboth => hkind hboth.2
        rw [StreamPair.stream_setStream_of_ne hkind, hposted, harrived]
        exact h.streams hp kind'
    · rw [if_neg hother] at hqq
      obtain ⟨hposted, harrived⟩ := hsame other kind' fun hboth => hother hboth.1.symm
      rw [hposted, harrived]
      exact hqq ▸ h.streams hq' kind'
  · intro other hother kind'
    rw [length_modifyPair] at hother
    have hpair : pair < s.pairs.length := (List.getElem?_eq_some_iff.1 hp).1
    obtain ⟨hposted, harrived⟩ := hsame other kind' fun hboth => by omega
    rw [hposted, harrived]
    exact h.unopened hother kind'

theorem openFeed (h : s.Conducts capacity posted arrived) (slice : Slice) (taken : Bool) :
    (s.openFeed slice taken).1.Conducts capacity posted arrived := by
  refine ⟨h.bound, ?_, ?_⟩
  · intro pair p hp kind
    change (s.pairs ++ [_])[pair]? = some p at hp
    rcases Nat.lt_or_ge pair s.pairs.length with hlt | hge
    · rw [List.getElem?_append_left hlt] at hp
      exact h.streams hp kind
    · obtain ⟨hposted, harrived⟩ := h.unopened hge kind
      rw [List.getElem?_append_right hge, List.getElem?_singleton] at hp
      split at hp
      · obtain rfl := Option.some.inj hp
        rw [hposted, harrived]
        cases kind <;> exact .fresh capacity 1
      · cases hp
  · intro pair hpair
    rw [length_openFeed] at hpair
    exact h.unopened (Nat.le_of_succ_le hpair)

theorem addSender (h : s.Conducts capacity posted arrived) (pair : Nat) :
    (s.addSender pair).Conducts capacity posted arrived :=
  h.modifyPair (fun _ kind _ _ _ hp => by cases kind <;> exact hp.congr rfl rfl) pair

theorem dropSender (h : s.Conducts capacity posted arrived) (pair : Nat) :
    (s.dropSender pair).Conducts capacity posted arrived :=
  h.modifyPair (fun _ kind _ _ _ hp => by cases kind <;> exact hp.congr rfl rfl) pair

theorem dropReceivers (h : s.Conducts capacity posted arrived) (pair : Nat) :
    (s.dropReceivers pair).Conducts capacity posted arrived :=
  h.modifyPair (fun _ kind _ _ _ hp => by cases kind <;> exact hp.stop) pair

theorem await (h : s.Conducts capacity posted arrived) (pair : Nat) (job : JobId) (kind : UpdateKind) :
    (s.await pair job kind).Conducts capacity posted arrived := by
  refine h.modifyPair (fun p kind' _ _ _ hp => ?_) pair
  cases kind <;> cases kind' <;> exact hp.congr rfl rfl

theorem sender (h : s.Conducts capacity posted arrived) (slice : Slice) :
    (s.sender slice).1.Conducts capacity posted arrived := by
  unfold Source.sender
  cases s.feeds.get? slice with
  | some feed => exact h.addSender feed.pair
  | none => exact (h.openFeed slice false).addSender s.pairs.length

theorem subscribe (h : s.Conducts capacity posted arrived) (slice : Slice) :
    (s.subscribe slice).1.Conducts capacity posted arrived := by
  unfold Source.subscribe
  cases s.feeds.get? slice with
  | none => exact h.openFeed slice true
  | some feed =>
    dsimp only
    split
    · exact (h.dropSender feed.pair).openFeed slice true
    · exact h.congr rfl rfl

theorem close (h : s.Conducts capacity posted arrived) (slice : Slice) :
    (s.close slice).Conducts capacity posted arrived := by
  unfold Source.close
  cases s.feeds.get? slice with
  | none => exact h
  | some feed =>
    have herased : Conducts capacity posted arrived { s with feeds := s.feeds.erase slice } := h.congr rfl rfl
    dsimp only
    split
    · exact herased.dropSender feed.pair
    · exact (herased.dropSender feed.pair).dropReceivers feed.pair

end Conducts

/-- What is received has been taken out of its stream. -/
theorem takes_of_receive {kind : UpdateKind} {u : Update} (h : s.receive pair kind = (s', .update u)) :
    s.Takes pair kind u s' := by
  unfold receive at h
  cases hp : s.pairs[pair]? with
  | none => simp [hp] at h
  | some p =>
    rw [hp] at h
    dsimp only at h
    cases ht : (p.stream kind).take with
    | none =>
      rw [ht] at h
      dsimp only at h
      split at h <;> cases h
    | some taken =>
      rw [ht] at h
      cases h
      exact ⟨p, taken.2, hp, ht, rfl⟩

/-- The oldest update in a stream is what is received. -/
theorem receive_of_queue {p : StreamPair} {kind : UpdateKind} {u : Update} {rest : List Update}
    (hp : s.pairs[pair]? = some p) (hq : (p.stream kind).queue = u :: rest) :
    ∃ s', s.receive pair kind = (s', .update u) := by
  unfold receive Stream.take
  rw [hp]
  dsimp only
  rw [hq]
  cases (p.stream kind).waiting <;> exact ⟨_, rfl⟩

/-! ## Subscribing -/

/-- The receiving ends of a slice's pair, if they are there. -/
def takeStreams? (s : Source) (slice : Slice) : Option (Source × Nat) :=
  match s.feeds.get? slice with
  | some feed =>
    if feed.taken then none
    else some ({ s with feeds := s.feeds.insert slice { feed with taken := true } }, feed.pair)
  | none => none

/-- Subscribing with the failure it provides for: a pair is opened if the slice has none, and once more if the receiving
ends of the pair are not there; then they have to be. -/
def subscribeOrFail (s : Source) (slice : Slice) : Source × Except SyncError Nat :=
  let opened :=
    match s.feeds.get? slice with
    | some _ => s
    | none => (s.openFeed slice false).1
  match opened.takeStreams? slice with
  | some (s, pair) => (s, .ok pair)
  | none =>
    let reopened :=
      match opened.feeds.get? slice with
      | some feed => ((opened.dropSender feed.pair).openFeed slice false).1
      | none => (opened.openFeed slice false).1
    match reopened.takeStreams? slice with
    | some (s, pair) => (s, .ok pair)
    | none => (reopened, .error (.subscription ("no streams for slice `" ++ slice.display ++ "`")))

/-- A pair that was just opened has its receiving ends. -/
theorem takeStreams?_openFeed (s : Source) (slice : Slice) :
    (s.openFeed slice false).1.takeStreams? slice = some (s.openFeed slice true) := by
  simp [takeStreams?, openFeed, Listing.insert_insert]

/-- Subscribing never fails. -/
theorem subscribeOrFail_eq (s : Source) (slice : Slice) :
    s.subscribeOrFail slice = ((s.subscribe slice).1, .ok (s.subscribe slice).2) := by
  unfold subscribeOrFail subscribe
  cases hfeed : s.feeds.get? slice with
  | none =>
    dsimp only
    rw [takeStreams?_openFeed]
  | some feed =>
    cases htaken : feed.taken with
    | true =>
      have hnone : s.takeStreams? slice = none := by simp [takeStreams?, hfeed, htaken]
      dsimp only
      rw [hnone, hfeed]
      dsimp only
      rw [takeStreams?_openFeed, htaken]
      rfl
    | false =>
      have hsome : s.takeStreams? slice =
          some ({ s with feeds := s.feeds.insert slice { feed with taken := true } }, feed.pair) := by
        simp [takeStreams?, hfeed, htaken]
      dsimp only
      rw [hsome, htaken]
      rfl

/-! ## Pairs that are followed -/

theorem isClosed_modifyPair {f : StreamPair → StreamPair} (hf : ∀ p, (f p).followed = p.followed) (s : Source)
    (pair other : Nat) : (s.modifyPair pair f).isClosed other = s.isClosed other := by
  simp only [isClosed, modifyPair, List.getElem?_modify]
  cases s.pairs[other]? with
  | none => rfl
  | some p =>
    by_cases hother : pair = other
    · simp [hother, hf]
    · simp [hother]

theorem isClosed_openFeed (h : other < s.pairs.length) (slice : Slice) (taken : Bool) :
    (s.openFeed slice taken).1.isClosed other = s.isClosed other := by
  simp only [isClosed, openFeed, List.getElem?_append_left h]

theorem isClosed_openFeed_self (s : Source) (slice : Slice) (taken : Bool) :
    (s.openFeed slice taken).1.isClosed s.pairs.length = false := by
  simp [isClosed, openFeed]

theorem isClosed_dropReceivers (s : Source) (pair other : Nat) :
    (s.dropReceivers pair).isClosed other = (s.isClosed other || decide (pair = other)) := by
  simp only [isClosed, dropReceivers, modifyPair, List.getElem?_modify]
  cases s.pairs[other]? with
  | none => rfl
  | some p => by_cases hother : pair = other <;> simp [hother]

theorem isClosed_addSender (s : Source) (pair other : Nat) : (s.addSender pair).isClosed other = s.isClosed other :=
  isClosed_modifyPair (by exact fun _ => rfl) s pair other

theorem isClosed_dropSender (s : Source) (pair other : Nat) : (s.dropSender pair).isClosed other = s.isClosed other :=
  isClosed_modifyPair (by exact fun _ => rfl) s pair other

theorem isClosed_setStream (s : Source) (pair other : Nat) (kind : UpdateKind) (stream : Stream) :
    (s.modifyPair pair (·.setStream kind stream)).isClosed other = s.isClosed other :=
  isClosed_modifyPair (fun _ => StreamPair.followed_setStream) s pair other

theorem isClosed_await (s : Source) (pair other : Nat) (job : JobId) (kind : UpdateKind) :
    (s.await pair job kind).isClosed other = s.isClosed other :=
  isClosed_modifyPair (fun _ => StreamPair.followed_setStream) s pair other

theorem isClosed_sender (h : other < s.pairs.length) (slice : Slice) :
    (s.sender slice).1.isClosed other = s.isClosed other := by
  unfold sender
  cases s.feeds.get? slice with
  | some feed => exact isClosed_addSender s feed.pair other
  | none => exact (isClosed_addSender _ _ other).trans (isClosed_openFeed h slice false)

theorem isClosed_subscribe (h : other < s.pairs.length) (slice : Slice) :
    (s.subscribe slice).1.isClosed other = s.isClosed other := by
  unfold subscribe
  cases s.feeds.get? slice with
  | none => exact isClosed_openFeed h slice true
  | some feed =>
    dsimp only
    split
    · have hlt : other < (s.dropSender feed.pair).pairs.length := by rwa [length_dropSender]
      exact (isClosed_openFeed hlt slice true).trans (isClosed_dropSender s feed.pair other)
    · rfl

/-- Closing a slice closes its pair if nobody follows it yet. -/
theorem isClosed_close (s : Source) (slice : Slice) (other : Nat) :
    (s.close slice).isClosed other = (s.isClosed other || decide (s.feeds.get? slice = some ⟨other, false⟩)) := by
  unfold close
  cases s.feeds.get? slice with
  | none => simp
  | some feed =>
    obtain ⟨pair, taken⟩ := feed
    have herased : isClosed { s with feeds := s.feeds.erase slice } other = s.isClosed other := rfl
    cases taken <;> simp [isClosed_dropReceivers, isClosed_dropSender, herased]

end Source

end SliceSync
