import SliceSync.Proofs.Pairings
/-!
# What is sent arrives

What is put into a stream is taken out of it in the same order, as long as somebody follows (`Traffic.conducts_run`). A
job puts into the stream what it was given to send, in order, and is refused only if the follower is gone
(`Traffic.busy_run`). With who has a pair of streams in common this says what arrives where.

Main statement: `Traffic.delivers`.
-/

namespace SliceSync

namespace Traffic

variable {setup : Setup} {acts : List Act} {t t' : Traffic} {me : JobId}

/-! ## What goes through the streams -/

/-- What was put into a stream, in order. -/
def posted (t : Traffic) (pair : Nat) (kind : UpdateKind) : List Update :=
  (t.postings.filter fun x => x.pair = pair ∧ x.update.kind = kind).map (·.update)

/-- What was taken out of a stream, in order. -/
def arrived (t : Traffic) (pair : Nat) (kind : UpdateKind) : List Update :=
  (t.arrivals.filter fun x => x.pair = pair ∧ x.kind = kind).map (·.update)

/-- What is in a stream. -/
def queued (t : Traffic) (pair : Nat) (kind : UpdateKind) : List Update :=
  ((t.source.pairs[pair]?).map fun p => (p.stream kind).queue).getD []

theorem posted_append {x : Posting} (h : t'.postings = t.postings ++ [x]) (pair : Nat) (kind : UpdateKind) :
    t'.posted pair kind =
      if x.pair = pair ∧ x.update.kind = kind then t.posted pair kind ++ [x.update] else t.posted pair kind := by
  unfold posted
  rw [h, List.filter_append, List.map_append]
  split <;> simp [*]

theorem posted_congr (h : t'.postings = t.postings) : t'.posted = t.posted := by
  unfold posted
  rw [h]

theorem arrived_append {x : Arrival} (h : t'.arrivals = t.arrivals ++ [x]) (pair : Nat) (kind : UpdateKind) :
    t'.arrived pair kind =
      if x.pair = pair ∧ x.kind = kind then t.arrived pair kind ++ [x.update] else t.arrived pair kind := by
  unfold arrived
  rw [h, List.filter_append, List.map_append]
  split <;> simp [*]

/-- A step of a sender puts what it sends behind everything else in the stream. -/
theorem conducts_turn {capacity : Nat} {s : Sending} {source : Source} {posted : Option Update}
    {onward : Onward Sending (Except SyncError Unit)} (h : t.source.Conducts capacity t.posted t.arrived)
    (hturn : s.Turn t.source me source posted onward) (hsource : t'.source = source)
    (hpostings : t'.postings = t.postings ++ (posted.map fun u => ⟨me, s.pair, u⟩).toList)
    (harrivals : t'.arrivals = t.arrivals) : t'.source.Conducts capacity t'.posted t'.arrived := by
  have harrived : t'.arrived = t.arrived := by
    unfold arrived
    rw [harrivals]
  rw [hsource, harrived]
  cases hturn with
  | ends | stops =>
    rw [posted_congr (hpostings.trans (List.append_nil _))]
    exact h.dropSender s.pair
  | stays =>
    rw [posted_congr (hpostings.trans (List.append_nil _))]
    exact h
  | waits kind =>
    rw [posted_congr (hpostings.trans (List.append_nil _))]
    exact h.await s.pair me kind
  | @sends u rest p stream hp hpair hf hput =>
    have hposted := posted_append hpostings
    have hstream := h.streams hpair u.kind
    rw [hf] at hstream
    refine h.setStream hpair ?_ fun other kind hne => ⟨?_, rfl⟩
    · rw [hposted, if_pos ⟨rfl, rfl⟩, hf]
      exact hstream.put (Source.put_queue hput) (h.bound ▸ Source.put_room hput (h.bound.symm ▸ hstream.room))
    · rw [hposted, if_neg fun heq => hne ⟨heq.1.symm, heq.2.symm⟩]

/-- What a subscription receives comes out of its stream. -/
theorem conducts_receive {capacity pair : Nat} {kind : UpdateKind} {u : Update}
    (h : t.source.Conducts capacity t.posted t.arrived)
    (htakes : t.source.Takes pair kind u t'.source) (hpostings : t'.postings = t.postings)
    (harrivals : t'.arrivals = t.arrivals ++ [⟨pair, kind, u⟩]) : t'.source.Conducts capacity t'.posted t'.arrived := by
  obtain ⟨p, stream, hp, htake, hsource⟩ := htakes
  have harrived := arrived_append harrivals
  rw [hsource, posted_congr hpostings]
  refine h.setStream hp ?_ fun other kind' hne => ⟨rfl, ?_⟩
  · rw [harrived, if_pos ⟨rfl, rfl⟩]
    exact (h.streams hp kind).take htake
  · rw [harrived, if_neg fun heq => hne ⟨heq.1.symm, heq.2.symm⟩]

theorem conducts_initial (setup : Setup) :
    (initial setup).source.Conducts (max setup.settings.updateChannelCapacity 1) (initial setup).posted
      (initial setup).arrived := by
  refine ⟨rfl, fun hp => ?_, fun _ _ => ⟨rfl, rfl⟩⟩
  cases hp

/-- At any time a stream has in it what was put in and not taken out. -/
theorem conducts_run (setup : Setup) (acts : List Act) :
    (run setup acts).source.Conducts (max setup.settings.updateChannelCapacity 1) (run setup acts).posted
      (run setup acts).arrived := by
  induction acts using List.reverseRecOn with
  | nil => exact conducts_initial setup
  | append_singleton acts a ih =>
    rw [run_concat]
    cases a with
    | take slice => exact ih.sender slice
    | follow slice => exact ih.subscribe slice
    | close slice => exact ih.close slice
    | drop k =>
      rw [perform]
      split
      · exact ih.dropSender _
      · exact ih
    | leave j =>
      rw [perform]
      split
      · exact ih.dropReceivers _
      · exact ih
    | send k updates =>
      rw [perform]
      split
      · exact ih.addSender _
      · exact ih
    | advance env me =>
      cases hj : (run setup acts).world.job? me with
      | none =>
        rw [perform_advance_of_none hj]
        exact ih
      | some job =>
        obtain ⟨hk, hn⟩ := keeps_run setup acts
        obtain ⟨s, rfl⟩ := sends_run setup acts hj
        obtain ⟨source, posted, onward, hturn, hsource, -, -, hpostings, -⟩ := advance_turn hk hn hj env
        exact conducts_turn ih hturn hsource hpostings rfl
    | receive j kind =>
      rw [perform]
      split
      · split
        · rename_i hreceive
          exact conducts_receive ih (Source.takes_of_receive hreceive) rfl rfl
        · exact ih
      · exact ih

/-! ## Followers that are gone -/

/-- An act after which nobody follows a pair: its subscription is dropped, or its slice is closed before anyone
follows. -/
def Loses (t : Traffic) (pair : Nat) : Act → Prop
  | .leave j => ∃ f, heldEnd? t.subscriptions j = some f ∧ f.pair = pair
  | .close slice => t.source.feeds.get? slice = some ⟨pair, false⟩
  | _ => False

theorem isClosed_turn {source source' : Source} {s : Sending} {posted : Option Update}
    {onward : Onward Sending (Except SyncError Unit)} (h : s.Turn source me source' posted onward) (pair : Nat) :
    source'.isClosed pair = source.isClosed pair := by
  cases h with
  | ends | stops => exact source.isClosed_dropSender s.pair pair
  | sends => exact source.isClosed_setStream ..
  | stays => rfl
  | waits kind => exact source.isClosed_await ..

theorem isClosed_perform (setup : Setup) (acts : List Act) (a : Act) {pair : Nat}
    (hpair : pair < (run setup acts).source.pairs.length) :
    ((run setup acts).perform a).source.isClosed pair = true ↔
      (run setup acts).source.isClosed pair = true ∨ (run setup acts).Loses pair a := by
  cases a with
  | take slice =>
    simp only [Loses, or_false]
    exact Bool.eq_iff_iff.1 (Source.isClosed_sender hpair slice)
  | follow slice =>
    simp only [Loses, or_false]
    exact Bool.eq_iff_iff.1 (Source.isClosed_subscribe hpair slice)
  | close slice =>
    show ((run setup acts).source.close slice).isClosed pair = true ↔ _
    rw [Source.isClosed_close, Bool.or_eq_true, decide_eq_true_eq]
    rfl
  | drop k =>
    simp only [Loses, or_false]
    rw [perform]
    split
    · exact Bool.eq_iff_iff.1 (Source.isClosed_dropSender ..)
    · rfl
  | leave j =>
    rw [perform, Loses]
    split
    · rename_i f hf
      show ((run setup acts).source.dropReceivers f.pair).isClosed pair = true ↔ _
      rw [Source.isClosed_dropReceivers, Bool.or_eq_true, decide_eq_true_eq]
      simp [hf]
    · rename_i hf
      simp [hf]
  | send k updates =>
    simp only [Loses, or_false]
    rw [perform]
    split
    · exact Bool.eq_iff_iff.1 (Source.isClosed_addSender ..)
    · rfl
  | advance env me =>
    simp only [Loses, or_false]
    cases hj : (run setup acts).world.job? me with
    | none => rw [perform_advance_of_none hj]
    | some job =>
      obtain ⟨hk, hn⟩ := keeps_run setup acts
      obtain ⟨s, rfl⟩ := sends_run setup acts hj
      obtain ⟨source, posted, onward, hturn, hsource, -⟩ := advance_turn hk hn hj env
      rw [hsource, isClosed_turn hturn]
  | receive j kind =>
    simp only [Loses, or_false]
    rw [perform]
    split
    · split
      · rename_i hreceive
        obtain ⟨p, stream, -, -, rfl⟩ := Source.takes_of_receive hreceive
        exact Bool.eq_iff_iff.1 (Source.isClosed_setStream ..)
      · rfl
    · rfl

/-- Where a slice waits to be followed it has waited before, or a sender was taken. -/
theorem waiting_perform (setup : Setup) (acts : List Act) (a : Act) {slice : Slice} {pair : Nat}
    (h : ((run setup acts).perform a).source.feeds.get? slice = some ⟨pair, false⟩) :
    (run setup acts).source.feeds.get? slice = some ⟨pair, false⟩ ∧ a ≠ .close slice ∨
      a = .take slice ∧ (run setup acts).source.feeds.get? slice = none ∧ pair = (run setup acts).source.pairs.length := by
  have haside (ha : a.IsAside) : (run setup acts).source.feeds.get? slice = some ⟨pair, false⟩ := by
    rw [← h]
    exact congrArg (·.feeds.get? slice) (ledger_perform setup acts ha).symm
  cases a with
  | take other =>
    rcases Source.feeds_sender h with h | ⟨rfl, hnone, hfeed⟩
    · exact .inl ⟨h, by simp⟩
    · exact .inr ⟨rfl, hnone, congrArg Feed.pair hfeed⟩
  | follow other =>
    change ((run setup acts).source.subscribe other).1.feeds.get? slice = _ at h
    rw [Source.feeds_subscribe] at h
    split at h
    · cases h
    · exact .inl ⟨h, by simp⟩
  | close other =>
    change ((run setup acts).source.close other).feeds.get? slice = _ at h
    rw [Source.feeds_close] at h
    split at h
    · cases h
    · rename_i hne
      refine .inl ⟨h, ?_⟩
      rintro ⟨⟩
      exact hne rfl
  | _ => exact .inl ⟨haside trivial, by simp⟩

/-- The pair of a slice that waits to be followed is open. -/
theorem open_of_waiting (setup : Setup) (acts : List Act) {slice : Slice} {pair : Nat}
    (h : (run setup acts).source.feeds.get? slice = some ⟨pair, false⟩) :
    (run setup acts).source.isClosed pair = false := by
  induction acts using List.reverseRecOn generalizing slice pair with
  | nil => cases h
  | append_singleton acts a ih =>
    rw [run_concat] at h ⊢
    have htells := ledger_tells setup acts
    rcases waiting_perform setup acts a h with ⟨hold, hne⟩ | ⟨rfl, hnone, rfl⟩
    · rw [← Bool.not_eq_true, isClosed_perform setup acts a (htells.feedOpened hold), not_or]
      refine ⟨Bool.eq_false_iff.1 (ih hold), fun hloses => ?_⟩
      cases a with
      | leave j =>
        obtain ⟨f, hf, rfl⟩ := hloses
        have hmem : f.pair ∈ (run setup acts).ledger.subscriptions :=
          List.mem_map_of_mem (List.mem_of_getElem? (heldEnd?_eq_some_iff.1 hf).1)
        exact absurd ((htells.handedOut hold).2 hmem) Bool.false_ne_true
      | close other => exact hne (htells.apart hloses hold rfl ▸ rfl)
      | _ => exact hloses
    · show ((run setup acts).source.sender slice).1.isClosed _ = false
      rw [Source.sender, hnone]
      exact (Source.isClosed_addSender ..).trans (Source.isClosed_openFeed_self ..)

/-- The pair that is handed out is open. -/
theorem open_of_subscribe (setup : Setup) (acts : List Act) (slice : Slice) :
    ((run setup acts).source.subscribe slice).1.isClosed ((run setup acts).source.subscribe slice).2 = false := by
  cases hfeed : (run setup acts).source.feeds.get? slice with
  | none =>
    rw [Source.subscribe, hfeed]
    exact Source.isClosed_openFeed_self ..
  | some feed =>
    obtain ⟨pair, taken⟩ := feed
    rw [Source.subscribe, hfeed]
    cases taken with
    | true => exact Source.isClosed_openFeed_self ..
    | false => exact open_of_waiting setup acts hfeed

/-- A subscription that is held was held before, or is new. -/
theorem held_perform (t : Traffic) (a : Act) {j : Nat} {f : StreamEnd} (h : (t.perform a).subscriptions[j]? = some f)
    (hf : f.held = true) :
    t.subscriptions[j]? = some f ∧ a ≠ .leave j ∨
      ∃ slice, a = .follow slice ∧ f.pair = (t.source.subscribe slice).2 := by
  cases a with
  | follow slice =>
    rcases getElem?_concat_eq_some_iff.1 h with h | ⟨-, rfl⟩
    · exact .inl ⟨h, by simp⟩
    · exact .inr ⟨slice, rfl, rfl⟩
  | leave i =>
    left
    rw [perform] at h
    split at h
    · change (dropEnd t.subscriptions i)[j]? = some f at h
      rw [dropEnd, List.getElem?_modify] at h
      obtain ⟨g, hg, hgf⟩ := Option.map_eq_some_iff.1 h
      by_cases hij : i = j
      · rw [if_pos hij] at hgf
        rw [← hgf] at hf
        cases hf
      · rw [if_neg hij] at hgf
        refine ⟨hgf ▸ hg, ?_⟩
        rintro ⟨⟩
        exact hij rfl
    · rename_i hnone
      refine ⟨h, ?_⟩
      rintro ⟨⟩
      rw [heldEnd?_eq_some_iff.2 ⟨h, hf⟩] at hnone
      cases hnone
  | drop k | send k updates =>
    rw [perform] at h
    split at h <;> exact .inl ⟨h, by simp⟩
  | receive i kind =>
    rw [perform] at h
    split at h
    · split at h <;> exact .inl ⟨h, by simp⟩
    · exact .inl ⟨h, by simp⟩
  | _ => exact .inl ⟨h, by simp⟩

/-- The pair of a subscription that is held is open. -/
theorem open_of_held (setup : Setup) (acts : List Act) {j : Nat} {f : StreamEnd}
    (h : (run setup acts).subscriptions[j]? = some f) (hf : f.held = true) :
    (run setup acts).source.isClosed f.pair = false := by
  induction acts using List.reverseRecOn generalizing j f with
  | nil => cases h
  | append_singleton acts a ih =>
    rw [run_concat] at h ⊢
    have htells := ledger_tells setup acts
    rcases held_perform _ a h hf with ⟨hold, hne⟩ | ⟨slice, rfl, hpair⟩
    · have hledger : (run setup acts).ledger.subscriptions[j]? = some f.pair := by
        simp [ledger, hold]
      have hmem := List.mem_of_getElem? hledger
      rw [← Bool.not_eq_true, isClosed_perform setup acts a (htells.subscriptionOpened hmem), not_or]
      refine ⟨Bool.eq_false_iff.1 (ih hold hf), fun hloses => ?_⟩
      cases a with
      | leave i =>
        obtain ⟨g, hg, hpair⟩ := hloses
        have hsame : (run setup acts).ledger.subscriptions[i]? = some f.pair := by
          simp [ledger, (heldEnd?_eq_some_iff.1 hg).1, hpair]
        have hlt : i < (run setup acts).ledger.subscriptions.length := (List.getElem?_eq_some_iff.1 hsame).1
        rw [(List.getElem?_inj hlt htells.distinct).1 (hsame.trans hledger.symm)] at hne
        exact hne rfl
      | close slice => exact absurd ((htells.handedOut hloses).2 hmem) Bool.false_ne_true
      | _ => exact hloses
    · rw [hpair]
      exact open_of_subscribe setup acts slice

/-! ## Errands -/

/-- What a job put into streams, in order. -/
def postedBy (t : Traffic) (me : JobId) : List Update := (t.postings.filter (·.job = me)).map (·.update)

theorem postedBy_append {l : List Posting} (h : t'.postings = t.postings ++ l) (me : JobId) :
    t'.postedBy me = t.postedBy me ++ (l.filter (·.job = me)).map (·.update) := by
  rw [postedBy, h, List.filter_append, List.map_append, postedBy]

/-- How far an errand has come: what it put into the stream is a beginning of what it was given. -/
inductive Fares (t : Traffic) (me : JobId) (x : Errand) (pair : Nat) : Prop
  | underway {s : Sending} (hj : t.world.job? me = some (.send s)) (hs : s.pair = pair)
      (hu : x.updates = t.postedBy me ++ s.pending)
  | done (ho : t.world.outcome? me = some (.sent (.ok ()))) (hu : t.postedBy me = x.updates)
  /-- The follower is gone. -/
  | refused (ho : t.world.outcome? me = some (.sent (.error Source.closedError))) (hu : t.postedBy me <+: x.updates)
      (hc : t.source.isClosed pair = true)

/-- Every job has its errand, and every update in a stream is from an errand on a sender of that stream. -/
structure Busy (t : Traffic) : Prop where
  numbers : t.errands.length = t.world.nextJob
  fares : ∀ {me x}, t.errands[me]? = some x → ∃ pair, t.ledger.senders[x.sender]? = some pair ∧ t.Fares me x pair
  postings : ∀ {y}, y ∈ t.postings → ∃ x, t.errands[y.job]? = some x ∧ t.ledger.senders[x.sender]? = some y.pair

theorem outcome?_perform (t : Traffic) (a : Act) {outcome : Outcome} (h : t.world.outcome? me = some outcome) :
    (t.perform a).world.outcome? me = some outcome := by
  rcases t.world_perform a with ⟨_, hw⟩ | ⟨_, _, _, hw⟩ | ⟨_, _, hw⟩
  · rw [hw]
    exact World.outcome?_perform h _
  · rw [hw]
    exact World.outcome?_perform (World.outcome?_perform h _) _
  · rw [hw]
    exact World.outcome?_perform h _

/-- A sender keeps its pair. -/
theorem senders_perform (setup : Setup) (acts : List Act) (a : Act) {k pair : Nat}
    (h : (run setup acts).ledger.senders[k]? = some pair) :
    ((run setup acts).perform a).ledger.senders[k]? = some pair := by
  have haside (ha : a.IsAside) : ((run setup acts).perform a).ledger.senders[k]? = some pair := by
    rw [ledger_perform setup acts ha]
    exact h
  cases a with
  | take slice =>
    rw [ledger_take]
    exact getElem?_concat_eq_some_iff.2 (.inl h)
  | follow slice => exact h
  | close slice => exact h
  | _ => exact haside trivial

/-- What others do leaves an errand where it is. -/
theorem Fares.perform {x : Errand} {pair : Nat} (h : (run setup acts).Fares me x pair) (a : Act)
    (hpair : pair < (run setup acts).source.pairs.length)
    (hjob : ((run setup acts).perform a).world.job? me = (run setup acts).world.job? me)
    (hposted : ((run setup acts).perform a).postedBy me = (run setup acts).postedBy me) :
    ((run setup acts).perform a).Fares me x pair := by
  cases h with
  | underway hj hs hu => exact .underway (hjob.trans hj) hs (hposted ▸ hu)
  | done ho hu => exact .done (outcome?_perform _ a ho) (hposted.trans hu)
  | refused ho hu hc =>
    exact .refused (outcome?_perform _ a ho) (hposted ▸ hu) ((isClosed_perform setup acts a hpair).2 (.inl hc))

/-- A job that is at work on an errand still has to do what it has not put into the stream. -/
theorem Fares.pending {x : Errand} {pair : Nat} {s : Sending} (h : (run setup acts).Fares me x pair)
    (hj : (run setup acts).world.job? me = some (.send s)) :
    s.pair = pair ∧ x.updates = (run setup acts).postedBy me ++ s.pending := by
  cases h with
  | underway hj' hs hu =>
    cases hj.symm.trans hj'
    exact ⟨hs, hu⟩
  | done ho | refused ho =>
    rw [(keeps_run setup acts).2.apart hj] at ho
    cases ho

/-- A step of its job takes an errand further, or to its end. -/
theorem Fares.advance {x : Errand} {pair : Nat} {s : Sending} (h : (run setup acts).Fares me x pair)
    (hj : (run setup acts).world.job? me = some (.send s)) (hpair : pair < (run setup acts).source.pairs.length)
    (env : Environment) : ((run setup acts).perform (.advance env me)).Fares me x pair := by
  obtain ⟨rfl, hu⟩ := h.pending hj
  obtain ⟨hk, hn⟩ := keeps_run setup acts
  obtain ⟨source, posted, onward, hturn, -, hjob, -, hpostings, hout⟩ := advance_turn hk hn hj env
  have hmine := postedBy_append hpostings me
  have hgoing {s' : Sending} (ho : onward = .going s') :
      ((run setup acts).perform (.advance env me)).world.job? me = some (.send s') := by
    rw [hjob, ho, Function.update_self]
    rfl
  cases hturn with
  | ends hp =>
    refine .done (hout _ rfl) ?_
    rw [hmine, hu, hp]
    rfl
  | stops hp hc =>
    refine .refused (hout _ rfl) ?_ ((isClosed_perform setup acts _ hpair).2 (.inl hc))
    rw [hmine, hu]
    exact ⟨s.pending, by simp⟩
  | sends hp =>
    refine .underway (hgoing rfl) rfl ?_
    rw [hmine, hu, hp]
    simp
  | stays | waits =>
    refine .underway (hgoing rfl) rfl ?_
    rw [hmine, hu]
    simp

/-- An act that begins no job and is no step of one. -/
def Act.IsQuiet : Act → Prop
  | .send _ _ | .advance _ _ => False
  | _ => True

/-- Only who sends begins a job, and only a step of a job puts something into a stream. -/
theorem perform_quiet (t : Traffic) {a : Act} (ha : a.IsQuiet) :
    (t.perform a).world.job? = t.world.job? ∧ (t.perform a).world.nextJob = t.world.nextJob ∧
      (t.perform a).errands = t.errands ∧ (t.perform a).postings = t.postings := by
  cases a with
  | send | advance => exact ha.elim
  | take | follow | close => exact ⟨rfl, rfl, rfl, rfl⟩
  | drop | leave =>
    rw [perform]
    split <;> exact ⟨rfl, rfl, rfl, rfl⟩
  | receive =>
    rw [perform]
    split
    · split <;> exact ⟨rfl, rfl, rfl, rfl⟩
    · exact ⟨rfl, rfl, rfl, rfl⟩

namespace Busy

/-- What is done without a job leaves its errand where it is. -/
theorem fares_perform (h : (run setup acts).Busy) {x : Errand} (hx : (run setup acts).errands[me]? = some x) (a : Act)
    (hjob : ((run setup acts).perform a).world.job? me = (run setup acts).world.job? me)
    (hposted : ((run setup acts).perform a).postedBy me = (run setup acts).postedBy me) :
    ∃ pair, ((run setup acts).perform a).ledger.senders[x.sender]? = some pair ∧
      ((run setup acts).perform a).Fares me x pair := by
  obtain ⟨pair, hpair, hfares⟩ := h.fares hx
  have hopened := (ledger_tells setup acts).senderOpened (List.mem_of_getElem? hpair)
  exact ⟨pair, senders_perform setup acts a hpair, hfares.perform a hopened hjob hposted⟩

/-- A job that is yet to begin has put nothing into a stream. -/
theorem postedBy_nextJob (h : (run setup acts).Busy) :
    (run setup acts).postedBy (run setup acts).world.nextJob = [] := by
  refine List.map_eq_nil_iff.2 (List.filter_eq_nil_iff.2 fun y hy hjob => ?_)
  obtain ⟨x, hx, -⟩ := h.postings hy
  rw [of_decide_eq_true hjob, ← h.numbers, List.getElem?_eq_none (Nat.le_refl _)] at hx
  cases hx

theorem quiet (h : (run setup acts).Busy) {a : Act} (ha : a.IsQuiet) : ((run setup acts).perform a).Busy := by
  obtain ⟨hjob, hnext, herrands, hpostings⟩ := (run setup acts).perform_quiet ha
  refine ⟨by rw [herrands, hnext, h.numbers], fun {me x} hx => ?_, fun {y} hy => ?_⟩
  · exact h.fares_perform (herrands ▸ hx) a (congrFun hjob me) (by rw [postedBy, hpostings, postedBy])
  · obtain ⟨x, hx, hpair⟩ := h.postings (hpostings ▸ hy)
    exact ⟨x, herrands.symm ▸ hx, senders_perform setup acts a hpair⟩

theorem send (h : (run setup acts).Busy) (k : Nat) (updates : List Update) :
    ((run setup acts).perform (.send k updates)).Busy := by
  cases he : heldEnd? (run setup acts).senders k with
  | none =>
    rw [perform, he]
    exact h
  | some e =>
    have hsender : (run setup acts).ledger.senders[k]? = some e.pair := by
      simp [ledger, (heldEnd?_eq_some_iff.1 he).1]
    obtain ⟨hjob, hpostings, herrands, hnext⟩ : (((run setup acts).perform (.send k updates)).world.job? =
          Function.update (run setup acts).world.job? (run setup acts).world.nextJob
            (some (.send { pair := e.pair, pending := updates }))) ∧
        ((run setup acts).perform (.send k updates)).postings = (run setup acts).postings ∧
        ((run setup acts).perform (.send k updates)).errands = (run setup acts).errands ++ [⟨k, updates⟩] ∧
        ((run setup acts).perform (.send k updates)).world.nextJob = (run setup acts).world.nextJob + 1 := by
      rw [perform, he]
      exact ⟨World.job?_spawn (w := (run setup acts).world.perform (.setSource _)) (keeps_run setup acts).1.fresh _,
        rfl, rfl, rfl⟩
    have hposted (me : JobId) :
        ((run setup acts).perform (.send k updates)).postedBy me = (run setup acts).postedBy me := by
      rw [postedBy, hpostings, postedBy]
    refine ⟨?_, fun {me x} hx => ?_, fun {y} hy => ?_⟩
    · rw [herrands, hnext, List.length_append, h.numbers, List.length_singleton]
    · rw [herrands] at hx
      rcases getElem?_concat_eq_some_iff.1 hx with hx | ⟨rfl, rfl⟩
      · have hne : me ≠ (run setup acts).world.nextJob := by
          rw [← h.numbers]
          exact Nat.ne_of_lt (List.getElem?_eq_some_iff.1 hx).1
        exact h.fares_perform hx _ (by rw [hjob, Function.update_of_ne hne]) (hposted me)
      · -- the new job has everything still to do
        refine ⟨e.pair, senders_perform setup acts _ hsender, ?_⟩
        refine .underway (s := { pair := e.pair, pending := updates }) ?_ rfl ?_
        · rw [hjob, h.numbers, Function.update_self]
        · rw [hposted, h.numbers, h.postedBy_nextJob, List.nil_append]
    · obtain ⟨x, hx, hpair⟩ := h.postings (hpostings ▸ hy)
      exact ⟨x, herrands ▸ getElem?_concat_eq_some_iff.2 (.inl hx), senders_perform setup acts _ hpair⟩

theorem advance (h : (run setup acts).Busy) (env : Environment) (me : JobId) :
    ((run setup acts).perform (.advance env me)).Busy := by
  cases hj : (run setup acts).world.job? me with
  | none =>
    rw [perform_advance_of_none hj]
    exact h
  | some job =>
    obtain ⟨hk, hn⟩ := keeps_run setup acts
    obtain ⟨s, rfl⟩ := sends_run setup acts hj
    obtain ⟨source, posted, onward, -, -, hjob, hnext, hpostings, -⟩ := advance_turn hk hn hj env
    -- the job has an errand, which is not at its end
    have hme : me < (run setup acts).errands.length := by
      rw [h.numbers]
      exact World.job?_lt hk.fresh hj
    have herrand := List.getElem?_eq_getElem hme
    obtain ⟨pair, hpair, hfares⟩ := h.fares herrand
    obtain ⟨rfl, -⟩ := hfares.pending hj
    have hsender := senders_perform setup acts (.advance env me) hpair
    refine ⟨h.numbers.trans hnext.symm, fun {other x} hx => ?_, fun {y} hy => ?_⟩
    · by_cases hother : other = me
      · subst hother
        obtain rfl : (run setup acts).errands[other] = x := Option.some.inj (herrand.symm.trans hx)
        have hopened := (ledger_tells setup acts).senderOpened (List.mem_of_getElem? hpair)
        exact ⟨s.pair, hsender, hfares.advance hj hopened env⟩
      · refine h.fares_perform hx _ (by rw [hjob, Function.update_of_ne hother]) ?_
        rw [postedBy_append hpostings]
        cases posted with
        | none => simp
        | some u => simp [Ne.symm hother]
    · rw [hpostings] at hy
      rcases List.mem_append.1 hy with hy | hy
      · obtain ⟨x, hx, hpair⟩ := h.postings hy
        exact ⟨x, hx, senders_perform setup acts _ hpair⟩
      · obtain ⟨u, -, rfl⟩ := Option.map_eq_some_iff.1 (Option.mem_toList.1 hy)
        exact ⟨_, herrand, hsender⟩

end Busy

theorem busy_run (setup : Setup) (acts : List Act) : (run setup acts).Busy := by
  induction acts using List.reverseRecOn with
  | nil => exact ⟨rfl, by simp [run, initial], by simp [run, initial]⟩
  | append_singleton acts a ih =>
    rw [run_concat]
    cases a with
    | send k updates => exact ih.send k updates
    | advance env me => exact ih.advance env me
    | _ => exact ih.quiet trivial

/-! ## What arrives -/

theorem map_slice_dropEnd (ends : List StreamEnd) (n : Nat) : (dropEnd ends n).map (·.slice) = ends.map (·.slice) :=
  map_dropEnd (fun _ => rfl) ends n

/-- Senders and subscriptions are numbered in the order in which they were taken. -/
theorem slices_run (setup : Setup) (acts : List Act) :
    (run setup acts).senders.map (·.slice) = taken acts ∧
      (run setup acts).subscriptions.map (·.slice) = followed acts := by
  induction acts using List.reverseRecOn with
  | nil => exact ⟨rfl, rfl⟩
  | append_singleton acts a ih =>
    rw [run_concat, taken, followed, List.filterMap_append, List.filterMap_append]
    cases a with
    | take slice => exact ⟨by simp [perform, ih.1, taken], by simp [perform, setSource, ih.2, followed]⟩
    | follow slice => exact ⟨by simp [perform, setSource, ih.1, taken], by simp [perform, ih.2, followed]⟩
    | close | advance => exact ⟨by simp [perform, setSource, ih.1, taken], by simp [perform, setSource, ih.2, followed]⟩
    | drop k =>
      rw [perform]
      split
      · exact ⟨by simp [map_slice_dropEnd, ih.1, taken], by simp [setSource, ih.2, followed]⟩
      · exact ⟨by simp [ih.1, taken], by simp [ih.2, followed]⟩
    | leave j =>
      rw [perform]
      split
      · exact ⟨by simp [setSource, ih.1, taken], by simp [map_slice_dropEnd, ih.2, followed]⟩
      · exact ⟨by simp [ih.1, taken], by simp [ih.2, followed]⟩
    | send k updates =>
      rw [perform]
      split <;> exact ⟨by simp [ih.1, taken], by simp [ih.2, followed]⟩
    | receive j kind =>
      rw [perform]
      split
      · split <;> exact ⟨by simp [setSource, ih.1, taken], by simp [setSource, ih.2, followed]⟩
      · exact ⟨by simp [ih.1, taken], by simp [ih.2, followed]⟩

/-- The stream behind the receiving end of a subscription that is held. -/
theorem stream_of_held {j : Nat} {f : StreamEnd} (h : (run setup acts).subscriptions[j]? = some f) (hf : f.held = true) :
    ∃ p, (run setup acts).source.pairs[f.pair]? = some p ∧ p.followed = true := by
  have hopen := open_of_held setup acts h hf
  unfold Source.isClosed at hopen
  cases hp : (run setup acts).source.pairs[f.pair]? with
  | none => simp [hp] at hopen
  | some p => exact ⟨p, rfl, by simpa [hp] using hopen⟩

/-- What is queued first is received next. -/
theorem receive_queued {j : Nat} {f : StreamEnd} {kind : UpdateKind} {u : Update} {rest : List Update}
    (h : t.subscriptions[j]? = some f) (hf : f.held = true) (hq : t.queued f.pair kind = u :: rest) :
    (t.perform (.receive j kind)).arrived f.pair kind = t.arrived f.pair kind ++ [u] := by
  obtain ⟨source, hreceive⟩ : ∃ source, t.source.receive f.pair kind = (source, .update u) := by
    unfold queued at hq
    cases hp : t.source.pairs[f.pair]? with
    | none => simp [hp] at hq
    | some p => exact Source.receive_of_queue hp (by simpa [hp] using hq)
  have hheld : heldEnd? t.subscriptions j = some f := heldEnd?_eq_some_iff.2 ⟨h, hf⟩
  have harrivals : (t.perform (.receive j kind)).arrivals = t.arrivals ++ [⟨f.pair, kind, u⟩] := by
    rw [perform, hheld]
    dsimp only
    rw [hreceive]
  rw [arrived_append harrivals, if_pos ⟨rfl, rfl⟩]

/-- What those who send and receive can rely on. -/
structure Delivers (setup : Setup) (acts : List Act) (t : Traffic) : Prop where
  subscribes : ∀ slice,
    t.source.subscribeOrFail slice = ((t.source.subscribe slice).1, .ok (t.source.subscribe slice).2)
  /-- No pair of streams is handed out twice. -/
  distinct : (t.subscriptions.map (·.pair)).Nodup
  senders : t.senders.map (·.slice) = taken acts
  subscriptions : t.subscriptions.map (·.slice) = followed acts
  /-- A sender and a subscription are ends of one pair exactly if one feeds the other. -/
  feeds : ∀ {k j : Nat} {e f : StreamEnd}, t.senders[k]? = some e → t.subscriptions[j]? = some f →
    (e.pair = f.pair ↔ Feeds acts k j)
  feedsOne : ∀ {k j j' : Nat}, Feeds acts k j → Feeds acts k j' → j = j'
  sameSlice : ∀ {k j : Nat}, Feeds acts k j →
    ∃ slice, (taken acts)[k]? = some slice ∧ (Traffic.followed acts)[j]? = some slice
  /-- Nobody is refused while the follower is there, or still to come. -/
  present : ∀ {j : Nat} {f : StreamEnd}, t.subscriptions[j]? = some f → f.held = true → t.source.isClosed f.pair = false
  awaited : ∀ {slice : Slice} {k : Nat} {e : StreamEnd}, Awaiting acts slice k → t.senders[k]? = some e →
    t.source.isClosed e.pair = false
  /-- What is sent gets into the stream of the sender, in order. -/
  sends : ∀ {me : JobId} {x : Errand}, t.errands[me]? = some x →
    ∃ e, t.senders[x.sender]? = some e ∧ t.Fares me x e.pair
  /-- Nothing else gets there. -/
  sent : ∀ {y : Posting}, y ∈ t.postings →
    ∃ x e, t.errands[y.job]? = some x ∧ t.senders[x.sender]? = some e ∧ e.pair = y.pair
  /-- What got into a stream has arrived or is queued, as long as the subscription is held. -/
  arrives : ∀ {j : Nat} {f : StreamEnd}, t.subscriptions[j]? = some f → f.held = true → ∀ kind,
    t.posted f.pair kind = t.arrived f.pair kind ++ t.queued f.pair kind
  /-- What arrived was sent in this order, also if the subscription has been dropped. -/
  arrived : ∀ pair kind, t.arrived pair kind <+: t.posted pair kind
  /-- What is queued arrives when it is received. -/
  receives : ∀ {j : Nat} {f : StreamEnd} {kind : UpdateKind} {u : Update} {rest : List Update},
    t.subscriptions[j]? = some f → f.held = true → t.queued f.pair kind = u :: rest →
      (t.perform (.receive j kind)).arrived f.pair kind = t.arrived f.pair kind ++ [u]
  bounded : ∀ pair kind, (t.queued pair kind).length ≤ max setup.settings.updateChannelCapacity 1

/-- Whatever is done with a source, and in whatever order: a sender feeds the one subscription that the history of its
slice tells, and what is sent on it arrives there, in order and complete. -/
theorem delivers (setup : Setup) (acts : List Act) : Delivers setup acts (run setup acts) := by
  have htells := ledger_tells setup acts
  have hconducts := conducts_run setup acts
  have hbusy := busy_run setup acts
  have hsender {k pair : Nat} (h : (run setup acts).ledger.senders[k]? = some pair) :
      ∃ e, (run setup acts).senders[k]? = some e ∧ e.pair = pair := by
    simpa [ledger] using h
  exact {
    subscribes := fun slice => Source.subscribeOrFail_eq _ slice
    distinct := htells.distinct
    senders := (slices_run setup acts).1
    subscriptions := (slices_run setup acts).2
    feeds := fun he hf => by
      rw [htells.feeds]
      simp [ledger, he, hf, eq_comm]
    feedsOne := htells.feedsOne
    sameSlice := Feeds.same_slice
    present := open_of_held setup acts
    awaited := fun hk he => by
      obtain ⟨pair, hpair, hfeed⟩ := htells.awaiting.1 hk
      obtain ⟨e', he', rfl⟩ := hsender hpair
      cases he.symm.trans he'
      exact open_of_waiting setup acts hfeed
    sends := fun hx => by
      obtain ⟨pair, hpair, hfares⟩ := hbusy.fares hx
      obtain ⟨e, he, rfl⟩ := hsender hpair
      exact ⟨e, he, hfares⟩
    sent := fun hy => by
      obtain ⟨x, hx, hpair⟩ := hbusy.postings hy
      obtain ⟨e, he, hpair⟩ := hsender hpair
      exact ⟨x, e, hx, he, hpair⟩
    arrives := fun hj hf kind => by
      obtain ⟨p, hp, hfollowed⟩ := stream_of_held hj hf
      rw [(hconducts.streams hp kind).whole hfollowed, queued, hp]
      rfl
    arrived := fun pair kind => by
      cases hp : (run setup acts).source.pairs[pair]? with
      | some p => exact (hconducts.streams hp kind).beginning
      | none =>
        rw [(hconducts.unopened (List.getElem?_eq_none_iff.1 hp) kind).2]
        exact List.nil_prefix
    receives := receive_queued
    bounded := fun pair kind => by
      unfold queued
      cases hp : (run setup acts).source.pairs[pair]? with
      | none => exact Nat.zero_le _
      | some p => exact Nat.le_trans (Nat.le_add_right _ _) (hconducts.streams hp kind).room }

end Traffic

end SliceSync
