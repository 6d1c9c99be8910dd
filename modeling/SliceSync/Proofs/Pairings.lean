import SliceSync.Proofs.Traffic
/-!
# Senders and subscriptions have a pair in common

Which pair of streams a slice has now, and which pairs its senders and subscriptions were given, is what a source writes
into its books (`Traffic.Ledger`). The books tell the same as what happened (`Traffic.Ledger.Tells`): the pair of a
slice was handed out exactly if somebody follows it, and a sender and a subscription have a pair in common exactly if
one feeds the other.

Main statement: `Traffic.ledger_tells`.
-/

namespace SliceSync

namespace Traffic

theorem getElem?_concat_eq_some_iff {α : Type} {l : List α} {a b : α} {n : Nat} :
    (l ++ [a])[n]? = some b ↔ l[n]? = some b ∨ n = l.length ∧ a = b := by
  rcases Nat.lt_trichotomy n l.length with hlt | rfl | hgt
  · rw [List.getElem?_append_left hlt]
    simp [Nat.ne_of_lt hlt]
  · simp
  · rw [List.getElem?_eq_none (by simp; omega), List.getElem?_eq_none (Nat.le_of_lt hgt)]
    simp [Nat.ne_of_gt hgt]

/-- An act that does not touch the books: it neither takes, nor follows, nor closes. -/
def Act.IsAside : Act → Prop
  | .take _ | .follow _ | .close _ => False
  | _ => True

/-- What is known of the pairs of streams. -/
structure Ledger where
  feeds : Listing Slice Feed
  /-- How many pairs there are. -/
  opened : Nat
  /-- The pairs of all senders, in the order in which they were taken. -/
  senders : List Nat
  subscriptions : List Nat

namespace Ledger

/-- The books tell what happened. -/
structure Tells (acts : List Act) (b : Ledger) : Prop where
  senders : b.senders.length = (taken acts).length
  subscriptions : b.subscriptions.length = (followed acts).length
  feedOpened : ∀ {slice feed}, b.feeds.get? slice = some feed → feed.pair < b.opened
  senderOpened : ∀ {pair}, pair ∈ b.senders → pair < b.opened
  subscriptionOpened : ∀ {pair}, pair ∈ b.subscriptions → pair < b.opened
  /-- Two slices have two pairs. -/
  apart : ∀ {slice slice' feed feed'}, b.feeds.get? slice = some feed → b.feeds.get? slice' = some feed' →
    feed.pair = feed'.pair → slice = slice'
  /-- Two subscriptions have two pairs. -/
  distinct : b.subscriptions.Nodup
  handedOut : ∀ {slice feed}, b.feeds.get? slice = some feed → (feed.taken = true ↔ feed.pair ∈ b.subscriptions)
  current : ∀ {slice j}, Current acts slice j ↔
    ∃ pair, b.subscriptions[j]? = some pair ∧ b.feeds.get? slice = some ⟨pair, true⟩
  awaiting : ∀ {slice k}, Awaiting acts slice k ↔
    ∃ pair, b.senders[k]? = some pair ∧ b.feeds.get? slice = some ⟨pair, false⟩
  feeds : ∀ {k j}, Feeds acts k j ↔ ∃ pair, b.senders[k]? = some pair ∧ b.subscriptions[j]? = some pair

namespace Tells

variable {acts : List Act} {b : Ledger} {a : Act} {slice : Slice} {pair k j : Nat}

theorem nil : Tells [] ⟨∅, 0, [], []⟩ := by
  have since_nil {slice : Slice} {x : Act} {stood : List Act → Prop} : ¬Since slice x stood [] := by
    rintro ⟨before, since, h, -⟩
    simp at h
  have feeds_nil {k j : Nat} : ¬Feeds [] k j := by
    rintro (⟨h, -, -⟩ | ⟨h, -, -⟩) <;> simp at h
  exact
    { senders := rfl
      subscriptions := rfl
      feedOpened := by simp
      senderOpened := by simp
      subscriptionOpened := by simp
      apart := by simp
      distinct := List.nodup_nil
      handedOut := by simp
      current := iff_of_false since_nil (by simp)
      awaiting := iff_of_false since_nil (by simp)
      feeds := iff_of_false feeds_nil (by simp) }

/-- The books need not be changed. -/
theorem aside (h : b.Tells acts) (ha : a.IsAside) : b.Tells (acts ++ [a]) := by
  have htake (slice : Slice) : a ≠ .take slice := fun heq => by rwa [heq] at ha
  have hfollow (slice : Slice) : a ≠ .follow slice := fun heq => by rwa [heq] at ha
  have hspares (slice : Slice) : a.Spares slice := by
    cases a with
    | follow | close => exact ha.elim
    | _ => trivial
  have htaken : taken (acts ++ [a]) = taken acts := by
    cases a with
    | take => exact ha.elim
    | _ => simp [taken]
  have hfollowed : followed (acts ++ [a]) = followed acts := by
    cases a with
    | follow => exact ha.elim
    | _ => simp [followed]
  refine
    { h with
      senders := htaken ▸ h.senders
      subscriptions := hfollowed ▸ h.subscriptions
      current := ?_
      awaiting := ?_
      feeds := ?_ }
  · intro slice j
    rw [← h.current]
    exact since_concat.trans (by simp [hfollow, hspares, Current])
  · intro slice k
    rw [← h.awaiting]
    exact since_concat.trans (by simp [htake, hspares, Awaiting])
  · intro k j
    rw [← h.feeds, feeds_concat]
    simp [htake, hfollow]

/-- A slice without a pair gets one, and nobody has followed it. -/
theorem openFeed (h : b.Tells acts) (hnone : b.feeds.get? slice = none) :
    Tells acts { b with feeds := b.feeds.insert slice ⟨b.opened, false⟩, opened := b.opened + 1 } := by
  have hfeeds {other : Slice} {feed : Feed} (hf : (b.feeds.insert slice ⟨b.opened, false⟩).get? other = some feed) :
      slice = other ∧ feed = ⟨b.opened, false⟩ ∨ slice ≠ other ∧ b.feeds.get? other = some feed :=
    Listing.get?_insert_eq_some_iff.1 hf
  refine
    { h with
      feedOpened := ?_
      senderOpened := fun hp => Nat.lt_succ_of_lt (h.senderOpened hp)
      subscriptionOpened := fun hp => Nat.lt_succ_of_lt (h.subscriptionOpened hp)
      apart := ?_
      handedOut := ?_
      current := ?_
      awaiting := ?_ }
  · intro other feed hf
    rcases hfeeds hf with ⟨-, rfl⟩ | ⟨-, hf⟩
    · exact Nat.lt_succ_self _
    · exact Nat.lt_succ_of_lt (h.feedOpened hf)
  · intro one other feed feed' hf hf' hpair
    rcases hfeeds hf with ⟨rfl, rfl⟩ | ⟨-, hf⟩ <;> rcases hfeeds hf' with ⟨rfl, rfl⟩ | ⟨-, hf'⟩
    · rfl
    · exact absurd hpair (Nat.ne_of_gt (h.feedOpened hf'))
    · exact absurd hpair (Nat.ne_of_lt (h.feedOpened hf))
    · exact h.apart hf hf' hpair
  · intro other feed hf
    rcases hfeeds hf with ⟨-, rfl⟩ | ⟨-, hf⟩
    · exact iff_of_false Bool.false_ne_true fun hp => Nat.lt_irrefl _ (h.subscriptionOpened hp)
    · exact h.handedOut hf
  · intro other j
    rw [h.current]
    refine exists_congr fun pair => and_congr_right fun hp => ?_
    by_cases hother : slice = other
    · subst hother
      simp [hnone]
    · simp [hother]
  · intro other k
    rw [h.awaiting]
    refine exists_congr fun pair => and_congr_right fun hp => ?_
    by_cases hother : slice = other
    · subst hother
      have hne : b.opened ≠ pair := Nat.ne_of_gt (h.senderOpened (List.mem_of_getElem? hp))
      simp [hnone, hne]
    · simp [hother]

/-- Who is taken gets the pair of his slice. -/
theorem take (h : b.Tells acts) {feed : Feed} (hfeed : b.feeds.get? slice = some feed) :
    Tells (acts ++ [.take slice]) { b with senders := b.senders ++ [feed.pair] } := by
  -- somebody follows exactly if the pair was handed out
  have hcurrent {j : Nat} : Current acts slice j ↔ b.subscriptions[j]? = some feed.pair := by
    rw [h.current]
    constructor
    · rintro ⟨pair, hj, hf⟩
      rwa [Option.some.inj (hfeed.symm.trans hf)]
    · intro hj
      refine ⟨feed.pair, hj, ?_⟩
      rw [hfeed, ← (h.handedOut hfeed).2 (List.mem_of_getElem? hj)]
  have hnobody : (∀ j, ¬Current acts slice j) ↔ feed.taken = false := by
    rw [← Bool.not_eq_true, h.handedOut hfeed, List.mem_iff_getElem?, not_exists]
    exact forall_congr' fun j => not_congr hcurrent
  refine
    { h with
      senders := ?_
      subscriptions := ?_
      senderOpened := ?_
      current := ?_
      awaiting := ?_
      feeds := ?_ }
  · simp [taken, h.senders]
  · simp [followed, h.subscriptions]
  · intro pair hp
    rcases List.mem_append.1 hp with hp | hp
    · exact h.senderOpened hp
    · exact List.mem_singleton.1 hp ▸ h.feedOpened hfeed
  · intro other j
    rw [← h.current]
    exact since_concat.trans (by simp [Act.Spares, Current])
  · intro other k
    refine since_concat.trans ?_
    simp only [Act.take.injEq, Act.Spares, true_and, getElem?_concat_eq_some_iff]
    constructor
    · rintro (⟨rfl, rfl, hnone⟩ | hk)
      · refine ⟨feed.pair, .inr ⟨h.senders.symm, rfl⟩, ?_⟩
        rw [hfeed, ← hnobody.1 hnone]
      · obtain ⟨pair, hk, hf⟩ := h.awaiting.1 hk
        exact ⟨pair, .inl hk, hf⟩
    · rintro ⟨pair, hk | ⟨hk, rfl⟩, hf⟩
      · exact .inr (h.awaiting.2 ⟨pair, hk, hf⟩)
      · obtain rfl := h.apart hfeed hf rfl
        refine .inl ⟨rfl, h.senders.symm.trans hk.symm, hnobody.2 ?_⟩
        rw [Option.some.inj (hfeed.symm.trans hf)]
  · intro k j
    rw [feeds_concat, h.feeds]
    simp only [reduceCtorEq, false_and, exists_false, false_or, Act.take.injEq, exists_eq_left', hcurrent,
      getElem?_concat_eq_some_iff]
    constructor
    · rintro (⟨pair, hk, hj⟩ | ⟨hk, hj⟩)
      · exact ⟨pair, .inl hk, hj⟩
      · exact ⟨feed.pair, .inr ⟨hk.symm.trans h.senders.symm, rfl⟩, hj⟩
    · rintro ⟨pair, hk | ⟨hk, rfl⟩, hj⟩
      · exact .inl ⟨pair, hk, hj⟩
      · exact .inr ⟨h.senders.symm.trans hk.symm, hj⟩

/-- Who follows gets a pair that nobody has, from now on that of his slice: the one that its senders have who are waiting
for him. -/
theorem follow (h : b.Tells acts) {opened : Nat} (hopened : b.opened ≤ opened) (hpair : pair < opened)
    (hnew : pair ∉ b.subscriptions)
    (hother : ∀ other feed, b.feeds.get? other = some feed → feed.pair = pair → other = slice)
    (hsenders : ∀ k, b.senders[k]? = some pair ↔ Awaiting acts slice k) :
    Tells (acts ++ [.follow slice])
      ⟨b.feeds.insert slice ⟨pair, true⟩, opened, b.senders, b.subscriptions ++ [pair]⟩ := by
  have hfeeds {other : Slice} {feed : Feed} :
      (b.feeds.insert slice ⟨pair, true⟩).get? other = some feed ↔
        slice = other ∧ feed = ⟨pair, true⟩ ∨ slice ≠ other ∧ b.feeds.get? other = some feed :=
    Listing.get?_insert_eq_some_iff
  refine
    { senders := ?_
      subscriptions := ?_
      feedOpened := ?_
      senderOpened := fun hp => Nat.lt_of_lt_of_le (h.senderOpened hp) hopened
      subscriptionOpened := ?_
      apart := ?_
      distinct := ?_
      handedOut := ?_
      current := ?_
      awaiting := ?_
      feeds := ?_ }
  · simp [taken, h.senders]
  · simp [followed, h.subscriptions]
  · intro other feed hf
    rcases hfeeds.1 hf with ⟨-, rfl⟩ | ⟨-, hf⟩
    · exact hpair
    · exact Nat.lt_of_lt_of_le (h.feedOpened hf) hopened
  · intro p hp
    rcases List.mem_append.1 hp with hp | hp
    · exact Nat.lt_of_lt_of_le (h.subscriptionOpened hp) hopened
    · exact List.mem_singleton.1 hp ▸ hpair
  · intro one other feed feed' hf hf' hsame
    rcases hfeeds.1 hf with ⟨rfl, rfl⟩ | ⟨hone, hf⟩ <;> rcases hfeeds.1 hf' with ⟨rfl, rfl⟩ | ⟨htwo, hf'⟩
    · rfl
    · exact (hother other feed' hf' hsame.symm).symm
    · exact hother one feed hf hsame
    · exact h.apart hf hf' hsame
  · rw [List.nodup_append]
    exact ⟨h.distinct, by simp, fun p hp q hq heq => hnew (by rwa [← List.mem_singleton.1 hq, ← heq])⟩
  · intro other feed hf
    rcases hfeeds.1 hf with ⟨-, rfl⟩ | ⟨hne, hf⟩
    · simp
    · have hpairs : feed.pair ≠ pair := fun heq => hne (hother other feed hf heq).symm
      simp [h.handedOut hf, hpairs]
  · intro other j
    refine since_concat.trans ?_
    simp only [Act.follow.injEq, Act.Spares, getElem?_concat_eq_some_iff, hfeeds]
    constructor
    · rintro (⟨rfl, rfl⟩ | ⟨hne, hj⟩)
      · exact ⟨pair, .inr ⟨h.subscriptions.symm, rfl⟩, .inl ⟨rfl, rfl⟩⟩
      · obtain ⟨p, hj, hf⟩ := h.current.1 hj
        exact ⟨p, .inl hj, .inr ⟨hne, hf⟩⟩
    · rintro ⟨p, hj | ⟨rfl, rfl⟩, ⟨rfl, hp⟩ | ⟨hne, hf⟩⟩
      · cases hp
        exact absurd (List.mem_of_getElem? hj) hnew
      · exact .inr ⟨hne, h.current.2 ⟨p, hj, hf⟩⟩
      · exact .inl ⟨rfl, h.subscriptions.symm⟩
      · exact absurd (hother other _ hf rfl).symm hne
  · intro other k
    refine since_concat.trans ?_
    simp only [reduceCtorEq, false_and, false_or, Act.Spares, hfeeds, Feed.mk.injEq, Bool.false_eq_true, and_false,
      false_or]
    constructor
    · rintro ⟨hne, hk⟩
      obtain ⟨p, hk, hf⟩ := h.awaiting.1 hk
      exact ⟨p, hk, hne, hf⟩
    · rintro ⟨p, hk, hne, hf⟩
      exact ⟨hne, h.awaiting.2 ⟨p, hk, hf⟩⟩
  · intro k j
    rw [feeds_concat, h.feeds]
    simp only [reduceCtorEq, false_and, exists_false, or_false, Act.follow.injEq, exists_eq_left', ← hsenders,
      getElem?_concat_eq_some_iff]
    constructor
    · rintro (⟨p, hk, hj⟩ | ⟨hj, hk⟩)
      · exact ⟨p, hk, .inl hj⟩
      · exact ⟨pair, hk, .inr ⟨hj.symm.trans h.subscriptions.symm, rfl⟩⟩
    · rintro ⟨p, hk, hj | ⟨hj, rfl⟩⟩
      · exact .inl ⟨p, hk, hj⟩
      · exact .inr ⟨h.subscriptions.symm.trans hj.symm, hk⟩

/-- A slice that is closed has no pair. -/
theorem close (h : b.Tells acts) {feeds : Listing Slice Feed}
    (hfeeds : ∀ {other feed}, feeds.get? other = some feed ↔ slice ≠ other ∧ b.feeds.get? other = some feed) :
    Tells (acts ++ [.close slice]) { b with feeds } := by
  refine
    { h with
      senders := ?_
      subscriptions := ?_
      feedOpened := fun hf => h.feedOpened (hfeeds.1 hf).2
      apart := fun hf hf' => h.apart (hfeeds.1 hf).2 (hfeeds.1 hf').2
      handedOut := fun hf => h.handedOut (hfeeds.1 hf).2
      current := ?_
      awaiting := ?_
      feeds := ?_ }
  · simp [taken, h.senders]
  · simp [followed, h.subscriptions]
  · intro other j
    refine since_concat.trans ?_
    have hcurrent : Current acts other j ↔ _ := h.current
    unfold Current at hcurrent
    simp only [reduceCtorEq, false_and, false_or, Act.Spares, hfeeds, hcurrent]
    simp only [← exists_and_left, and_left_comm]
  · intro other k
    refine since_concat.trans ?_
    have hawaiting : Awaiting acts other k ↔ _ := h.awaiting
    unfold Awaiting at hawaiting
    simp only [reduceCtorEq, false_and, false_or, Act.Spares, hfeeds, hawaiting]
    simp only [← exists_and_left, and_left_comm]
  · intro k j
    rw [feeds_concat, h.feeds]
    simp

/-- A sender feeds at most one subscription. -/
theorem feedsOne (h : b.Tells acts) {j' : Nat} (hj : Feeds acts k j) (hj' : Feeds acts k j') : j = j' := by
  obtain ⟨pair, hk, hpair⟩ := h.feeds.1 hj
  obtain ⟨pair', hk', hpair'⟩ := h.feeds.1 hj'
  cases hk.symm.trans hk'
  exact (List.getElem?_inj (List.getElem?_eq_some_iff.1 hpair).1 h.distinct).1 (hpair.trans hpair'.symm)

end Tells

end Ledger

/-! ## The books of a source -/

variable {t : Traffic}

/-- What the source and those who hold its ends know of the pairs. -/
def ledger (t : Traffic) : Ledger :=
  ⟨t.source.feeds, t.source.pairs.length, t.senders.map (·.pair), t.subscriptions.map (·.pair)⟩

theorem map_dropEnd {α : Type} {g : StreamEnd → α} (hg : ∀ e, g { e with held := false } = g e) (ends : List StreamEnd)
    (n : Nat) : (dropEnd ends n).map g = ends.map g := by
  refine List.ext_getElem? fun m => ?_
  simp only [dropEnd, List.getElem?_map, List.getElem?_modify]
  cases ends[m]? with
  | none => rfl
  | some e => by_cases hm : n = m <;> simp [hm, hg]

/-- The books say the same as long as the feeds do and there are as many pairs. -/
theorem ledger_congr {t' : Traffic} (hf : t'.source.feeds = t.source.feeds)
    (hp : t'.source.pairs.length = t.source.pairs.length) (hs : t'.senders.map (·.pair) = t.senders.map (·.pair))
    (hr : t'.subscriptions.map (·.pair) = t.subscriptions.map (·.pair)) : t'.ledger = t.ledger := by
  rw [ledger, hf, hp, hs, hr, ledger]

theorem ledger_take (t : Traffic) (slice : Slice) :
    (t.perform (.take slice)).ledger =
      ⟨(t.source.sender slice).1.feeds, (t.source.sender slice).1.pairs.length,
        t.ledger.senders ++ [(t.source.sender slice).2], t.ledger.subscriptions⟩ := by
  simp only [ledger, perform, List.map_append, List.map_cons, List.map_nil]
  rfl

theorem ledger_follow (t : Traffic) (slice : Slice) :
    (t.perform (.follow slice)).ledger =
      ⟨(t.source.subscribe slice).1.feeds, (t.source.subscribe slice).1.pairs.length, t.ledger.senders,
        t.ledger.subscriptions ++ [(t.source.subscribe slice).2]⟩ := by
  simp only [ledger, perform, List.map_append, List.map_cons, List.map_nil]
  rfl

namespace Ledger.Tells

variable {acts : List Act}

theorem perform_take (h : t.ledger.Tells acts) (slice : Slice) :
    (t.perform (.take slice)).ledger.Tells (acts ++ [.take slice]) := by
  rw [ledger_take, Source.sender]
  cases hfeed : t.source.feeds.get? slice with
  | some feed =>
    simp only [Source.length_addSender]
    exact h.take hfeed
  | none =>
    simp only [Source.length_addSender, Source.length_openFeed]
    have hopened : (t.source.feeds.insert slice ⟨t.source.pairs.length, false⟩).get? slice =
        some ⟨t.source.pairs.length, false⟩ := by simp
    exact (h.openFeed hfeed).take hopened

theorem perform_follow (h : t.ledger.Tells acts) (slice : Slice) :
    (t.perform (.follow slice)).ledger.Tells (acts ++ [.follow slice]) := by
  -- who is waiting for the slice has its pair, unless that was handed out
  have hawaiting (k : Nat) (hk : Awaiting acts slice k) :
      ∃ pair, t.ledger.senders[k]? = some pair ∧ t.source.feeds.get? slice = some ⟨pair, false⟩ := h.awaiting.1 hk
  have hanew (hanew : ∀ feed, t.source.feeds.get? slice = some feed → feed.taken = true) :
      Tells (acts ++ [.follow slice])
        ⟨t.source.feeds.insert slice ⟨t.source.pairs.length, true⟩, t.source.pairs.length + 1, t.ledger.senders,
          t.ledger.subscriptions ++ [t.source.pairs.length]⟩ := by
    refine h.follow (Nat.le_succ _) (Nat.lt_succ_self _) (fun hp => Nat.lt_irrefl _ (h.subscriptionOpened hp)) ?_ ?_
    · intro other feed hf hpair
      exact absurd hpair (Nat.ne_of_lt (h.feedOpened hf))
    · intro k
      refine iff_of_false (fun hk => Nat.lt_irrefl _ (h.senderOpened (List.mem_of_getElem? hk))) fun hk => ?_
      obtain ⟨pair, -, hf⟩ := hawaiting k hk
      exact absurd (hanew _ hf) Bool.false_ne_true
  rw [ledger_follow, Source.subscribe]
  cases hfeed : t.source.feeds.get? slice with
  | none =>
    simp only [Source.length_openFeed]
    exact hanew fun feed hf => absurd (hfeed.symm.trans hf) (Option.some_ne_none feed).symm
  | some feed =>
    dsimp only
    cases htaken : feed.taken with
    | true =>
      simp only [if_true, Source.openFeed, List.length_append, List.length_singleton, Source.length_dropSender]
      exact hanew fun feed' hf => Option.some.inj (hfeed.symm.trans hf) ▸ htaken
    | false =>
      rw [if_neg Bool.false_ne_true]
      refine h.follow (Nat.le_refl _) (h.feedOpened hfeed) ?_ ?_ ?_
      · rw [← h.handedOut hfeed, htaken]
        exact Bool.false_ne_true
      · intro other feed' hf hpair
        exact h.apart hf hfeed hpair
      · intro k
        rw [h.awaiting]
        constructor
        · intro hk
          exact ⟨feed.pair, hk, by rw [← htaken]; exact hfeed⟩
        · rintro ⟨pair, hk, hf⟩
          rwa [Option.some.inj (hfeed.symm.trans hf)]

theorem perform_close (h : t.ledger.Tells acts) (slice : Slice) :
    (t.perform (.close slice)).ledger.Tells (acts ++ [.close slice]) := by
  have hledger : (t.perform (.close slice)).ledger = { t.ledger with feeds := (t.source.close slice).feeds } := by
    refine congrArg (fun n => Ledger.mk _ n _ _) ?_
    show (t.source.close slice).pairs.length = t.source.pairs.length
    unfold Source.close
    split
    · dsimp only
      split <;> simp
    · rfl
  rw [hledger]
  refine h.close fun {other feed} => ?_
  rw [Source.feeds_close]
  split <;> simp [*, ledger]

end Ledger.Tells

/-- A step of a sender leaves the books alone. -/
theorem ledger_turn {source source' : Source} {me : JobId} {s : Sending} {posted : Option Update}
    {onward : Onward Sending (Except SyncError Unit)} (h : s.Turn source me source' posted onward) :
    source'.feeds = source.feeds ∧ source'.pairs.length = source.pairs.length := by
  cases h with
  | ends | stops => exact ⟨rfl, source.length_dropSender s.pair⟩
  | sends | waits => exact ⟨rfl, source.length_modifyPair s.pair _⟩
  | stays => exact ⟨rfl, rfl⟩

/-- Only who takes, follows or closes changes the books. -/
theorem ledger_perform (setup : Setup) (acts : List Act) {a : Act} (ha : a.IsAside) :
    ((run setup acts).perform a).ledger = (run setup acts).ledger := by
  cases a with
  | take | follow | close => exact ha.elim
  | drop k =>
    rw [perform]
    split
    · exact ledger_congr rfl (Source.length_dropSender ..) (map_dropEnd (fun _ => rfl) ..) rfl
    · rfl
  | leave j =>
    rw [perform]
    split
    · exact ledger_congr rfl (Source.length_dropReceivers ..) rfl (map_dropEnd (fun _ => rfl) ..)
    · rfl
  | send k updates =>
    rw [perform]
    split
    · exact ledger_congr rfl (Source.length_addSender ..) rfl rfl
    · rfl
  | advance env me =>
    cases hj : (run setup acts).world.job? me with
    | none => rw [perform_advance_of_none hj]
    | some job =>
      obtain ⟨hk, hn⟩ := keeps_run setup acts
      obtain ⟨s, rfl⟩ := sends_run setup acts hj
      obtain ⟨source, posted, onward, hturn, rfl, -⟩ := advance_turn hk hn hj env
      exact ledger_congr (ledger_turn hturn).1 (ledger_turn hturn).2 rfl rfl
  | receive j kind =>
    rw [perform]
    split
    · split
      · rename_i hreceive
        obtain ⟨p, stream, -, -, rfl⟩ := Source.takes_of_receive hreceive
        exact ledger_congr rfl (Source.length_modifyPair ..) rfl rfl
      · rfl
    · rfl

/-- The books of a source tell what happened. -/
theorem ledger_tells (setup : Setup) (acts : List Act) : (run setup acts).ledger.Tells acts := by
  induction acts using List.reverseRecOn with
  | nil => exact .nil
  | append_singleton acts a ih =>
    have haside (ha : a.IsAside) : ((run setup acts).perform a).ledger.Tells (acts ++ [a]) := by
      rw [ledger_perform setup acts ha]
      exact ih.aside ha
    rw [run_concat]
    cases a with
    | take slice => exact ih.perform_take slice
    | follow slice => exact ih.perform_follow slice
    | close slice => exact ih.perform_close slice
    | _ => exact haside trivial

-- The first two senders feed the first subscription, one from before; the third comes after the slice was closed.
example :
    let t := run {} [.take .empty, .follow .empty, .take .empty, .close .empty, .take .empty, .follow .empty]
    t.ledger.senders = [0, 0, 1] ∧ t.ledger.subscriptions = [0, 1] := by
  decide +kernel

end Traffic

end SliceSync
