import SliceSync.Proofs.Lanes
/-!
# Scripts are fed

While scripts are fed every lane goes on by itself: a step of its sender or its driver leaves it where lanes can get to
(`Lane.Follows`), and all others where they are. A lane in which nobody can go on has come to its end: its sender and
its driver are through (`Lane.Follows.over_of_atRest`).
-/

namespace SliceSync

open Event (tellings creations)

/-! ## What a step leaves of the world -/

namespace World

/-- A world that differs in its jobs and their outcomes only. -/
structure Beside (w v : World) : Prop where
  setup : v.setup = w.setup
  session : v.session = w.session
  hosted : v.hosted = w.hosted
  source : v.source = w.source
  slots : v.slots = w.slots
  nextJob : v.nextJob = w.nextJob
  log : v.log = w.log

variable {w w' : World} {env : Environment} {me : JobId} {job : Job} {onward : Onward Job Outcome}

/-- What a step leaves, but for the job that took it. -/
theorem advance_beside (hf : w.Fit) (hj : w.job? me = some job) (h : w.advanceJob env me job = (w', onward)) :
    Beside w' (w.advance env me) ∧ (w.advance env me).job? = Function.update w'.job? me onward.state? := by
  have hjob := job?_advance hf.keeps (show (freely w.setup).fits env from trivial) hj
  rw [h] at hjob
  obtain ⟨jobs, outcomes, hadvance⟩ := advance_eq env hj
  refine ⟨?_, hjob⟩
  rw [hadvance, h]
  exact ⟨rfl, rfl, rfl, rfl, rfl, rfl, rfl⟩

/-- A step of a job that begins none leaves the other jobs where they are. -/
theorem advance_keeping (hf : w.Fit) (hj : w.job? me = some job) (h : w.advanceJob env me job = (w', onward))
    (hjobs : w'.jobs = w.jobs) :
    Beside w' (w.advance env me) ∧ (w.advance env me).job? = Function.update w.job? me onward.state? := by
  obtain ⟨hb, hjob⟩ := advance_beside hf hj h
  rw [show w'.job? = w.job? from congrArg Job.among hjobs] at hjob
  exact ⟨hb, hjob⟩

/-- What a step of a call on the workspace in a place leaves. -/
structure Called (w : World) (i : Nat) (h : Hosted) (a : Advance) (w' : World) : Prop where
  setup : w'.setup = w.setup
  session : w'.session = a.session
  hosted : w'.hosted = w.hosted.set i { h with workspace := a.workspace }
  source : w'.source = w.source
  slots : w'.slots = w.slots
  jobs : w'.jobs = w.jobs
  nextJob : w'.nextJob = w.nextJob
  events : w'.events = w.events ++ a.events

variable {i : Nat} {h₀ : Hosted} {a : Advance}

theorem Called.workspace (h : w.Called i h₀ a w') (hh : w.hosted[i]? = some h₀) : w'.workspace? i = some a.workspace := by
  rw [workspace?, h.hosted, List.getElem?_set_self (List.getElem?_eq_some_iff.1 hh).1, Option.map_some]

theorem Called.hosted_of_ne (h : w.Called i h₀ a w') {j : Nat} (hne : j ≠ i) : w'.hosted[j]? = w.hosted[j]? := by
  rw [h.hosted, List.getElem?_set_ne hne.symm]

/-- A call on a workspace leaves the exits of drivers as they are. -/
theorem Called.exitOf (h : w.Called i h₀ a w') (hh : w.hosted[i]? = some h₀) (j : Nat) : w'.exitOf j = w.exitOf j := by
  unfold World.exitOf
  by_cases hne : j = i
  · rw [hne, h.hosted, List.getElem?_set_self (List.getElem?_eq_some_iff.1 hh).1, hh]
    rfl
  · rw [h.hosted_of_ne hne]

/-- Nor does it claim any. -/
theorem Called.isClaimed (h : w.Called i h₀ a w') (hh : w.hosted[i]? = some h₀) (j : Nat) :
    w'.isClaimed j = w.isClaimed j := by
  unfold World.isClaimed
  by_cases hne : j = i
  · rw [hne, h.hosted, List.getElem?_set_self (List.getElem?_eq_some_iff.1 hh).1, hh]
    rfl
  · rw [h.hosted_of_ne hne]

theorem advanceCall_at (hh : w.hosted[i]? = some h₀) (env : Environment) (me : JobId) (c : Call) :
    ∃ w', w.advanceCall env me i c =
        (w', match (c.advance w.setup env me w.session h₀.workspace).progress with
          | .going c => .going c
          | .done result => .done result) ∧
      w.Called i h₀ (c.advance w.setup env me w.session h₀.workspace) w' := by
  unfold advanceCall
  rw [hh]
  refine ⟨_, rfl, rfl, rfl, rfl, rfl, rfl, rfl, rfl, ?_⟩
  simp [events, Function.comp_def]

end World

/-! ## What a lane shows -/

/-- What a lane shows of itself. Whether somebody has claimed its driver's exit is nothing to it. -/
structure Outlook where
  workspace : Option Workspace
  /-- How its driver ended, once it did. -/
  exit : Option DriverExit
  pair : Option StreamPair
  driver : Option Job
  sender : Option Job
  /-- Whether the id of its context is taken. -/
  known : Bool
  /-- How often its updates were told to be processed. -/
  told : Nat
  /-- The contexts of its id that were created. -/
  made : List (Nat × CreationParams)

def World.outlook (w : World) (l : Lane) : Outlook where
  workspace := w.workspace? l.place
  exit := w.exitOf l.place
  pair := w.source.pairs[l.place]?
  driver := w.job? l.driver
  sender := w.job? l.sender
  known := l.knownIn w.session
  told := (tellings w.events).count l.tag
  made := l.madeIn w.events

/-- A sender has joined the line of a stream that was full. -/
def Sending.WaitsFor (s : Sending) (kind : UpdateKind) : Prop :=
  s.waited = true ∧ ∃ u rest, s.pending = u :: rest ∧ u.kind = kind

namespace StreamPair

variable {p : StreamPair} {kind other : UpdateKind} {s : Stream}

@[simp] theorem stream_setStream_self : (p.setStream kind s).stream kind = s := by cases kind <;> rfl

theorem stream_setStream_of_ne (h : other ≠ kind) : (p.setStream kind s).stream other = p.stream other := by
  cases kind <;> cases other <;> first | rfl | exact absurd rfl h

@[simp] theorem followed_setStream : (p.setStream kind s).followed = p.followed := by cases kind <;> rfl

end StreamPair

namespace Lane

/-- Where the sender stands at a stream: it does not wait for it; it waits, and there is something to take out; or it has
been given a place. -/
inductive Queues (l : Lane) (s? : Option Sending) (kind : UpdateKind) (stream : Stream) : Prop
  | free (hs : ∀ s, s? = some s → ¬s.WaitsFor kind) (hg : stream.granted = []) (hw : stream.waiting = [])
  | waits {s : Sending} (hs : s? = some s) (hk : s.WaitsFor kind) (hg : stream.granted = [])
      (hw : stream.waiting = [l.sender]) (hq : stream.queue ≠ [])
  | granted {s : Sending} (hs : s? = some s) (hk : s.WaitsFor kind) (hg : stream.granted = [l.sender])
      (hw : stream.waiting = [])

/-- A lane whose driver is at work. -/
structure Working (l : Lane) (o : Outlook) (d : Driver) (s? : Option Sending) (p : StreamPair) (ws : Workspace)
    (received handled inHand : List Update) : Prop where
  workspace : o.workspace = some ws
  exit : o.exit = none
  driver : o.driver = some (.drive d)
  home : d.workspace = l.place ∧ d.pair = l.place
  sender : o.sender = s?.map .send
  sends : ∀ s, s? = some s → s.pair = l.place
  pair : o.pair = some p
  followed : p.followed = true
  senders : ∀ kind, (p.stream kind).senders = s?.toList.length
  queues : ∀ kind, l.Queues s? kind (p.stream kind)
  closed : ∀ kind, d.isOpen kind = false → s? = none ∧ (p.stream kind).queue = []
  /-- Nothing is lost on the way. -/
  flow : ∀ kind, l.updates.filter (·.kind = kind) =
    received.filter (·.kind = kind) ++ (p.stream kind).queue ++ ((s?.map (·.pending)).getD []).filter (·.kind = kind)
  passes : ∃ threshold, d.holdback = Holdback.after { threshold } received ∧
    handled ++ inHand ++ d.passed = Holdback.passed { threshold } received
  hands : l.Hands o.known o.made ws handled d.handing inHand
  told : o.told = handled.length

/-- A lane whose driver has handed everything over. -/
structure Completed (l : Lane) (o : Outlook) (ws : Workspace) (received handled : List Update) : Prop where
  workspace : o.workspace = some ws
  exit : o.exit = some .completed
  driver : o.driver = none
  sender : o.sender = none
  flow : ∀ kind, l.updates.filter (·.kind = kind) = received.filter (·.kind = kind)
  passes : ∃ threshold, handled = Holdback.passed { threshold } received
  rests : l.Rests o.known o.made ws handled
  told : o.told = handled.length

/-- A lane whose driver has ended with the first evaluation. -/
structure Faulted (l : Lane) (o : Outlook) (ws : Workspace) (error : SyncError) : Prop where
  workspace : o.workspace = some ws
  exit : o.exit = some (.faulted error)
  driver : o.driver = none
  sender : ∀ job, o.sender = some job → ∃ s, job = .send s ∧ s.pair = l.place
  left : ∀ p, o.pair = some p → p.followed = false
  first : ∃ e, firstEvaluation? l.updates = some e ∧ e.creationParams = .error error
  stopped : ws.Stopped
  told : o.told = 0

/-- Where a lane can get to while its script is fed. -/
inductive Follows (l : Lane) (o : Outlook) : Prop
  | working {d : Driver} {s? : Option Sending} {p : StreamPair} {ws : Workspace} {received handled inHand : List Update}
      (h : l.Working o d s? p ws received handled inHand)
  | completed {ws : Workspace} {received handled : List Update} (h : l.Completed o ws received handled)
  | faulted {ws : Workspace} {error : SyncError} (h : l.Faulted o ws error)

/-- Between two worlds nothing was done but in one lane. -/
structure Inside (l : Lane) (w w' : World) : Prop where
  setup : w'.setup = w.setup
  capacity : w'.source.capacity = w.source.capacity
  hosted : ∀ i, i ≠ l.place → w'.hosted[i]? = w.hosted[i]?
  claims : ∀ i, w'.isClaimed i = w.isClaimed i
  pairs : ∀ i, i ≠ l.place → w'.source.pairs[i]? = w.source.pairs[i]?
  jobs : ∀ me, me ≠ l.driver → me ≠ l.sender → w'.job? me = w.job? me
  keeps : ∃ events, w'.events = w.events ++ events ∧ l.Keeps w.session w'.session events

/-- Nor was anything done that has to do with the lanes to come. -/
structure Alone (l : Lane) (w w' : World) : Prop extends Inside l w w' where
  slots : w'.slots = w.slots
  feeds : w'.source.feeds = w.source.feeds
  nextJob : w'.nextJob = w.nextJob

/-- Two lanes that have nothing in common. -/
structure Apart (l l' : Lane) : Prop where
  place : l.place ≠ l'.place
  sender : l.sender ≠ l'.sender
  driver : l.driver ≠ l'.sender ∧ l.sender ≠ l'.driver
  tag : l.tag ≠ l'.tag
  contextId : ∀ id, l.contextId? = some id → l'.contextId? ≠ some id

variable {l l' : Lane} {w w' : World}

theorem Alone.refl (l : Lane) (w : World) : l.Alone w w where
  setup := rfl
  capacity := rfl
  hosted := fun _ _ => rfl
  claims := fun _ => rfl
  pairs := fun _ _ => rfl
  jobs := fun _ _ _ => rfl
  keeps := ⟨[], by simp, keeps_silent (by simp) rfl⟩
  slots := rfl
  feeds := rfl
  nextJob := rfl

/-- What is done in one lane does not show in another. -/
theorem Inside.outlook (h : l.Inside w w') (ha : l.Apart l') : w'.outlook l' = w.outlook l' := by
  obtain ⟨events, hevents, ⟨more, hlive, hmore⟩, htells, hcreates⟩ := h.keeps
  have hplace := ha.place.symm
  have hdriver : l'.driver ≠ l.driver := fun h => ha.place (Nat.succ.inj h).symm
  have hknown : l'.knownIn w'.session = l'.knownIn w.session := by
    unfold knownIn
    cases hid : l'.contextId? with
    | none => rfl
    | some id =>
      have hnot : id ∉ more := fun hin => ha.contextId id (hmore id hin) hid
      simp [Session.isLive, hlive, hnot]
  have htold : (tellings events).count l'.tag = 0 :=
    List.count_eq_zero.2 fun hin => ha.tag (htells _ hin).symm
  have hmade : l'.madeIn events = [] := List.filter_eq_nil_iff.2 fun c hc => by
    simpa using ha.contextId _ (hcreates c hc)
  have hmadeIn : l'.madeIn w'.events = l'.madeIn w.events := by
    rw [hevents, madeIn_append, hmade, List.append_nil]
  unfold World.outlook World.workspace? World.exitOf
  rw [h.hosted _ hplace, h.pairs _ hplace, h.jobs _ hdriver ha.driver.2.symm, h.jobs _ ha.driver.1.symm ha.sender.symm, hknown,
    hmadeIn, hevents, Event.tellings_append, List.count_append, htold]
  rfl

/-! ## Steps of drivers -/

/-- What the step of the lane's driver leaves to be seen. -/
theorem outlook_driver {v : World} {next : Option Job} (hb : World.Beside w' v)
    (hj : v.job? = Function.update w.job? l.driver next) (hne : l.sender ≠ l.driver) :
    v.outlook l = { w'.outlook l with driver := next, sender := w.job? l.sender } := by
  unfold World.outlook World.workspace? World.exitOf World.events
  rw [hb.hosted, hb.source, hb.session, hb.log, hj, Function.update_self, Function.update_of_ne hne]

theorem Alone.of_beside {v : World} {me : JobId} {next : Option Job} (h : l.Alone w w') (hb : World.Beside w' v)
    (hj : v.job? = Function.update w.job? me next) (hme : me = l.driver ∨ me = l.sender) : l.Alone w v where
  setup := hb.setup.trans h.setup
  capacity := (congrArg _ hb.source).trans h.capacity
  hosted := fun i hi => by rw [hb.hosted, h.hosted i hi]
  claims := fun i => by rw [World.isClaimed, hb.hosted, ← h.claims i, World.isClaimed]
  pairs := fun i hi => by rw [hb.source, h.pairs i hi]
  jobs := fun other hdriver hsender => by
    rw [hj, Function.update_of_ne]
    rintro rfl
    exact hme.elim hdriver hsender
  keeps := by
    obtain ⟨events, hevents, hkeeps⟩ := h.keeps
    refine ⟨events, ?_, hb.session.symm ▸ hkeeps⟩
    rw [← hevents, World.events, hb.log]
    rfl
  slots := hb.slots.trans h.slots
  feeds := (congrArg _ hb.source).trans h.feeds
  nextJob := hb.nextJob.trans h.nextJob

theorem Alone.trans {w'' : World} (h : l.Alone w w') (h' : l.Alone w' w'') : l.Alone w w'' where
  setup := h'.setup.trans h.setup
  capacity := h'.capacity.trans h.capacity
  hosted := fun i hi => (h'.hosted i hi).trans (h.hosted i hi)
  claims := fun i => (h'.claims i).trans (h.claims i)
  pairs := fun i hi => (h'.pairs i hi).trans (h.pairs i hi)
  jobs := fun me hd hs => (h'.jobs me hd hs).trans (h.jobs me hd hs)
  keeps := by
    obtain ⟨events, hevents, ⟨more, hlive, hmore⟩, htells, hcreates⟩ := h.keeps
    obtain ⟨events', hevents', ⟨more', hlive', hmore'⟩, htells', hcreates'⟩ := h'.keeps
    refine ⟨events ++ events', by rw [hevents', hevents, List.append_assoc],
      ⟨more ++ more', by rw [hlive', hlive, List.append_assoc], ?_⟩, ?_, ?_⟩
    · exact fun id hid => (List.mem_append.1 hid).elim (hmore id) (hmore' id)
    · rw [Event.tellings_append]
      exact fun owner ho => (List.mem_append.1 ho).elim (htells owner) (htells' owner)
    · rw [Event.creations_append]
      exact fun c hc => (List.mem_append.1 hc).elim (hcreates c) (hcreates' c)
  slots := h'.slots.trans h.slots
  feeds := h'.feeds.trans h.feeds
  nextJob := h'.nextJob.trans h.nextJob

variable {o : Outlook} {d : Driver} {s? : Option Sending} {p : StreamPair} {ws : Workspace}
  {received handled inHand : List Update} {u : Update}

/-- Only one pair of streams is touched, and it is the lane's own. -/
theorem Alone.modifyPair (w : World) {pair : Nat} (hp : pair = l.place) (f : StreamPair → StreamPair) :
    l.Alone w { w with source := w.source.modifyPair pair f } :=
  { Alone.refl l w with pairs := fun _ hi => List.getElem?_modify_ne _ _ (hp ▸ hi.symm) }

/-- What is done to the lane's pair of streams. -/
theorem outlook_modifyPair (hp : w.source.pairs[l.place]? = some p) (f : StreamPair → StreamPair) :
    ({ w with source := w.source.modifyPair l.place f } : World).outlook l = { w.outlook l with pair := some (f p) } := by
  unfold World.outlook Source.modifyPair
  dsimp only
  rw [List.getElem?_modify_eq, hp]
  rfl

theorem Alone.endDriver {d : Driver} (hd : d.workspace = l.place ∧ d.pair = l.place) (exit : DriverExit) :
    l.Alone w (w.endDriver d exit).1 :=
  { Alone.modifyPair w hd.2 _ with
    hosted := fun _ hi => List.getElem?_modify_ne _ _ (hd.1 ▸ hi.symm)
    claims := fun i => by
      unfold World.isClaimed World.endDriver World.modifyHosted
      rw [List.getElem?_modify]
      cases w.hosted[i]? with
      | none => rfl
      | some h => by_cases hi : d.workspace = i <;> simp [hi] }

/-- A driver that ends gives its exit, and its receiving ends up. -/
theorem outlook_endDriver {d : Driver} (hd : d.workspace = l.place ∧ d.pair = l.place) (exit : DriverExit)
    (hw : (w.outlook l).workspace = some ws) :
    (w.endDriver d exit).1.outlook l =
      { w.outlook l with
        exit := some exit
        pair := (w.outlook l).pair.map fun p =>
          { p with evaluation := { p.evaluation with queue := [] }, build := { p.build with queue := [] }, followed := false } } := by
  obtain ⟨h₀, hhosted, -⟩ := Option.map_eq_some_iff.1 hw
  unfold World.outlook World.workspace? World.exitOf World.endDriver World.modifyHosted Source.dropReceivers Source.modifyPair
  rw [hd.1, hd.2]
  simp only [List.getElem?_modify_eq, hhosted]
  rfl

/-- The update in hand is one of the script; the first is its first evaluation. -/
theorem Working.hand (h : l.Working o d s? p ws received handled [u]) :
    u ∈ l.updates ∧ (handled = [] → ∃ e, u.payload = .evaluation e ∧ firstEvaluation? l.updates = some e) := by
  obtain ⟨threshold, -, hpasses⟩ := h.passes
  have hmem : u ∈ Holdback.passed { threshold } received := by simp [← hpasses]
  obtain ⟨first, rest, hfirst⟩ := List.exists_cons_of_ne_nil (List.ne_nil_of_mem hmem)
  obtain ⟨hkind, others, hothers⟩ := Holdback.passed_first hfirst
  have hevaluation : ∃ v ∈ received, v.kind = .evaluation :=
    ⟨first, (List.mem_filter.1 (hothers ▸ List.mem_cons_self)).1, hkind⟩
  have hupdates {v : Update} (hv : v ∈ received) : v ∈ l.updates := by
    have hfiltered : v ∈ received.filter (·.kind = v.kind) := List.mem_filter.2 ⟨hv, by simp⟩
    have : v ∈ l.updates.filter (·.kind = v.kind) := by
      rw [h.flow v.kind]
      simp [hv]
    exact (List.mem_filter.1 this).1
  refine ⟨hupdates ?_, ?_⟩
  · have hpassed : u ∈ (Holdback.passed { threshold } received).filter (·.kind = u.kind) :=
      List.mem_filter.2 ⟨hmem, by simp⟩
    rw [Holdback.filter_passed hevaluation] at hpassed
    exact (List.mem_filter.1 hpassed).1
  · rintro rfl
    rw [← hpasses] at hfirst
    cases hfirst
    cases hu : u.payload with
    | build b => simp [Update.kind, hu] at hkind
    | evaluation e =>
      refine ⟨e, rfl, ?_⟩
      have hflow := h.flow .evaluation
      rw [hothers, List.append_assoc, List.cons_append] at hflow
      rw [firstEvaluation?_of_filter hflow, Update.evaluation?, hu]

/-- A lane whose update in hand has gone a step on. -/
theorem Working.onCall {c : Call} (hf : w.Fit) (hr : w.setup.registry = .standard) (ht : w.setup.tracksProgress = true)
    (hp : ∀ u ∈ l.updates, u.project = l.project) (hne : l.sender ≠ l.driver)
    (h : l.Working (w.outlook l) d s? p ws received handled inHand) (hd : d.handing = some c) :
    l.Follows ((w.advance {} l.driver).outlook l) ∧ l.Alone w (w.advance {} l.driver) := by
  obtain ⟨h₀, hhosted, rfl⟩ := Option.map_eq_some_iff.1 h.workspace
  have hjob : w.job? l.driver = some (.drive d) := h.driver
  obtain ⟨u, rfl⟩ : ∃ u, inHand = [u] := by
    have := h.hands
    rw [hd] at this
    cases this <;> exact ⟨_, rfl⟩
  have hhands : l.Hands (l.knownIn w.session) (l.madeIn w.events) h₀.workspace handled (some c) [u] := hd ▸ h.hands
  obtain ⟨hkeeps, hcomes⟩ := hhands.advance hr ht (hp u h.hand.1) h.hand.2
  obtain ⟨w', hcall, hcalled⟩ := World.advanceCall_at hhosted {} l.driver c
  generalize c.advance w.setup {} l.driver w.session h₀.workspace = a at hkeeps hcomes hcall hcalled
  have halone : l.Alone w w' :=
    { setup := hcalled.setup
      capacity := congrArg _ hcalled.source
      hosted := fun i hi => hcalled.hosted_of_ne hi
      claims := hcalled.isClaimed hhosted
      pairs := fun i _ => by rw [hcalled.source]
      jobs := fun me _ _ => congrFun (congrArg Job.among hcalled.jobs) me
      keeps := ⟨a.events, hcalled.events, hcalled.session.symm ▸ hkeeps⟩
      slots := hcalled.slots
      feeds := congrArg _ hcalled.source
      nextJob := hcalled.nextJob }
  have hworkspace : d.workspace = l.place := h.home.1
  have hjobs : w'.job? = w.job? := congrArg Job.among hcalled.jobs
  have hpair : w'.source.pairs[l.place]? = some p := by
    rw [hcalled.source]
    exact h.pair
  have hexit : w'.exitOf l.place = none := (hcalled.exitOf hhosted l.place).trans h.exit
  have hseen : w'.outlook l =
      { workspace := some a.workspace
        exit := none
        pair := some p
        driver := some (.drive d)
        sender := (w.outlook l).sender
        known := l.knownIn a.session
        told := handled.length + (tellings a.events).count l.tag
        made := l.madeIn w.events ++ l.madeIn a.events } := by
    have htold : (tellings w.events).count l.tag = handled.length := h.told
    unfold World.outlook
    rw [hcalled.workspace hhosted, hexit, hpair, hjobs, hjob, hcalled.session, hcalled.events, Event.tellings_append,
      List.count_append, madeIn_append, htold]
  cases hcomes with
  | @goes c' hg htells hh =>
    rw [hg] at hcall
    have hadvance : w.advanceJob {} l.driver (.drive d) = (w', .going (.drive { d with handing := some c' })) := by
      simp only [World.advanceJob, World.advanceDriver, hd, hworkspace, hcall]
    obtain ⟨hb, hj⟩ := World.advance_keeping hf hjob hadvance hcalled.jobs
    refine ⟨?_, halone.of_beside hb hj (.inl rfl)⟩
    rw [outlook_driver hb hj hne, hseen, htells]
    exact .working { h with workspace := rfl, exit := rfl, driver := rfl, pair := rfl, hands := hh, told := rfl }
  | ends hdone htells hrests =>
    rw [hdone] at hcall
    have hadvance : w.advanceJob {} l.driver (.drive d) = (w', .going (.drive { d with handing := none })) := by
      simp only [World.advanceJob, World.advanceDriver, hd, hworkspace, hcall]
    obtain ⟨hb, hj⟩ := World.advance_keeping hf hjob hadvance hcalled.jobs
    refine ⟨?_, halone.of_beside hb hj (.inl rfl)⟩
    rw [outlook_driver hb hj hne, hseen, htells]
    obtain ⟨threshold, hholdback, hpasses⟩ := h.passes
    exact @Follows.working l _ _ s? p _ received (handled ++ [u]) []
      { h with
        workspace := rfl
        exit := rfl
        driver := rfl
        pair := rfl
        passes := ⟨threshold, hholdback, by rw [← hpasses, List.append_nil]⟩
        hands := .rests hrests
        told := by simp }
  | @fails error e hdone htells hnone hfirst he hw =>
    rw [hdone] at hcall
    subst hnone
    obtain ⟨name, rfl⟩ := Evaluation.eq_missing_of_creationParams he
    have hadvance : w.advanceJob {} l.driver (.drive d) =
        ((w'.endDriver d (.faulted (.missingProperty WellKnown.generalRule name))).1,
          .done (.drove (.faulted (.missingProperty WellKnown.generalRule name)))) := by
      simp only [World.advanceJob, World.advanceDriver, hd, hworkspace, hcall]
      rfl
    obtain ⟨hb, hj⟩ := World.advance_keeping hf hjob hadvance hcalled.jobs
    refine ⟨?_, (halone.trans (.endDriver h.home _)).of_beside hb hj (.inl rfl)⟩
    rw [outlook_driver hb hj hne, outlook_endDriver h.home _ (hcalled.workspace hhosted), hseen, htells]
    exact .faulted
      { workspace := rfl
        exit := rfl
        driver := rfl
        sender := fun job hjob => by
          obtain ⟨s, hs, rfl⟩ := Option.map_eq_some_iff.1 (h.sender.symm.trans hjob)
          exact ⟨s, rfl, h.sends s hs⟩
        left := fun p' hp' => by
          cases hp'
          rfl
        first := ⟨e, hfirst, he⟩
        stopped := hw
        told := rfl }

/-- Taking an update out of a stream makes room for a sender that waits. -/
theorem Queues.take {kind : UpdateKind} {stream stream' : Stream} (h : l.Queues s? kind stream)
    (ht : stream.take = some (u, stream')) :
    stream.queue = u :: stream'.queue ∧ stream'.senders = stream.senders ∧ l.Queues s? kind stream' := by
  unfold Stream.take at ht
  cases hq : stream.queue with
  | nil => simp [hq] at ht
  | cons first rest =>
    rw [hq] at ht
    cases h with
    | free hs hg hw =>
      rw [hw] at ht
      cases ht
      exact ⟨rfl, rfl, .free hs hg rfl⟩
    | waits hs hk hg hw _ =>
      rw [hw] at ht
      cases ht
      exact ⟨rfl, rfl, .granted hs hk (by simp [hg]) rfl⟩
    | granted hs hk hg hw =>
      rw [hw] at ht
      cases ht
      exact ⟨rfl, rfl, .granted hs hk hg rfl⟩

theorem isOpen_push (d : Driver) (u : Update) (kind : UpdateKind) : (d.push u).isOpen kind = d.isOpen kind := by
  cases kind <;> rfl

theorem Rests.unload {known : Bool} {made : List (Nat × CreationParams)} (h : l.Rests known made ws handled) :
    ws.unload.cause = none := by
  cases h with
  | fresh hw =>
    subst hw
    rfl
  | serves h => exact h.opened.unload

/-- A lane whose driver has taken an update out of a stream. -/
theorem Working.receives {kind : UpdateKind} {stream : Stream}
    (h : l.Working o d s? p ws received handled inHand) (ht : (p.stream kind).take = some (u, stream)) :
    l.Working { o with pair := some (p.setStream kind stream), driver := some (.drive (d.push u)) } (d.push u) s?
      (p.setStream kind stream) ws (received ++ [u]) handled inHand := by
  obtain ⟨hqueue, hsenders, hqueues⟩ := (h.queues kind).take ht
  have hflow := h.flow kind
  rw [hqueue] at hflow
  have hkind : u.kind = kind := by
    have : u ∈ l.updates.filter (·.kind = kind) := by simp [hflow]
    simpa using (List.mem_filter.1 this).2
  refine
    { h with
      driver := rfl
      pair := rfl
      followed := StreamPair.followed_setStream.trans h.followed
      senders := fun other => ?_
      queues := fun other => ?_
      closed := fun other hclosed => ?_
      flow := fun other => ?_
      passes := ?_ }
  · by_cases ho : other = kind
    · subst ho
      rw [StreamPair.stream_setStream_self, hsenders, h.senders]
    · rw [StreamPair.stream_setStream_of_ne ho, h.senders]
  · by_cases ho : other = kind
    · subst ho
      rwa [StreamPair.stream_setStream_self]
    · rw [StreamPair.stream_setStream_of_ne ho]
      exact h.queues other
  · rw [isOpen_push] at hclosed
    obtain ⟨hnobody, hempty⟩ := h.closed other hclosed
    refine ⟨hnobody, ?_⟩
    rw [StreamPair.stream_setStream_of_ne]
    · exact hempty
    · rintro rfl
      rw [hqueue] at hempty
      cases hempty
  · by_cases ho : other = kind
    · subst ho
      rw [StreamPair.stream_setStream_self, hflow, List.filter_append, List.filter_singleton]
      simp [hkind]
    · rw [StreamPair.stream_setStream_of_ne ho, h.flow other, List.filter_append, List.filter_singleton]
      simp [hkind, Ne.symm ho]
  · obtain ⟨threshold, hholdback, hpasses⟩ := h.passes
    refine ⟨threshold, ?_, ?_⟩
    · rw [Holdback.after_concat, ← hholdback]
      rfl
    · rw [Holdback.passed_concat, ← hholdback, ← hpasses, List.append_assoc (handled ++ inHand)]
      rfl

/-- A lane whose driver has seen the end of a stream. -/
theorem Working.closes {kind : UpdateKind} (h : l.Working o d s? p ws received handled inHand)
    (hq : (p.stream kind).queue = []) (hs : (p.stream kind).senders = 0) :
    l.Working { o with driver := some (.drive (d.closeStream kind)) } (d.closeStream kind) s? p ws received handled inHand := by
  have hnobody : s? = none := by
    have := h.senders kind
    rw [hs] at this
    cases s? with
    | none => rfl
    | some s => cases this
  have hholdback : (d.closeStream kind).holdback = d.holdback := by cases kind <;> rfl
  have hpassed : (d.closeStream kind).passed = d.passed := by cases kind <;> rfl
  have hhanding : (d.closeStream kind).handing = d.handing := by cases kind <;> rfl
  have hhome : (d.closeStream kind).workspace = d.workspace ∧ (d.closeStream kind).pair = d.pair := by
    cases kind <;> exact ⟨rfl, rfl⟩
  refine
    { h with
      driver := rfl
      home := ⟨hhome.1.trans h.home.1, hhome.2.trans h.home.2⟩
      closed := fun other hclosed => ?_
      passes := by
        rw [hholdback, hpassed]
        exact h.passes
      hands := by
        rw [hhanding]
        exact h.hands }
  rcases Driver.isOpen_closeStream hclosed with hclosed | rfl
  · exact h.closed other hclosed
  · exact ⟨hnobody, hq⟩

/-- A step of a lane's driver leaves the lane where lanes can get to, and all else as it is. -/
theorem Follows.drive (hf : w.Fit) (hr : w.setup.registry = .standard) (ht : w.setup.tracksProgress = true)
    (hp : ∀ u ∈ l.updates, u.project = l.project) (hne : l.sender ≠ l.driver) (h : l.Follows (w.outlook l)) :
    l.Follows ((w.advance {} l.driver).outlook l) ∧ l.Alone w (w.advance {} l.driver) := by
  have gone (hnone : (w.outlook l).driver = none) :
      l.Follows ((w.advance {} l.driver).outlook l) ∧ l.Alone w (w.advance {} l.driver) := by
    rw [World.advance_of_none hnone]
    exact ⟨h, .refl l w⟩
  cases h with
  | completed hc => exact gone hc.driver
  | faulted hc => exact gone hc.driver
  | @working d s? p ws received handled inHand h =>
    have hjob : w.job? l.driver = some (.drive d) := h.driver
    have hpair : w.source.pairs[d.pair]? = some p := h.home.2.symm ▸ h.pair
    -- a step that only changes the driver, and its streams
    have goes {w' : World} {d' : Driver} (hadvance : w.advanceDriver {} l.driver d = (w', .going d')) (hjobs : w'.jobs = w.jobs)
        (halone : l.Alone w w')
        (hfollows : l.Follows { w'.outlook l with driver := some (.drive d'), sender := (w.outlook l).sender }) :
        l.Follows ((w.advance {} l.driver).outlook l) ∧ l.Alone w (w.advance {} l.driver) := by
      have hadvance : w.advanceJob {} l.driver (.drive d) = (w', .going (.drive d')) := by
        simp only [World.advanceJob, hadvance]
      obtain ⟨hb, hj⟩ := World.advance_keeping hf hjob hadvance hjobs
      exact ⟨outlook_driver hb hj hne ▸ hfollows, halone.of_beside hb hj (.inl rfl)⟩
    have rests (hh : d.handing = none) : inHand = [] ∧ l.Rests (w.outlook l).known (w.outlook l).made ws handled := by
      have hhands := h.hands
      rw [hh] at hhands
      cases hhands with
      | rests hrests => exact ⟨rfl, hrests⟩
    have unloads (hh : d.handing = none) {cause : DisposeCause} (hu : w.unloadOf d.workspace = some cause) : False := by
      have hworkspace : w.workspace? l.place = some ws := h.workspace
      have hnone := (rests hh).2.unload
      simp [World.unloadOf, h.home.1, hworkspace, hnone] at hu
    obtain ⟨event, -, hpaths⟩ := w.advanceDriver_paths {} l.driver d
    generalize hadvance : w.advanceDriver {} l.driver d = r at hpaths
    cases hpaths with
    | works hh | succeeds hh | fails hh => exact h.onCall hf hr ht hp hne hh
    | waits hh hpassed ho hu hk => exact goes hadvance rfl (.refl l w) (.working { h with driver := rfl })
    | unloads hh hpassed ho hu => exact (unloads hh hu).elim
    | @hands u rest hh hpassed =>
      obtain ⟨rfl, hrests⟩ := rests hh
      obtain ⟨threshold, hholdback, hpasses⟩ := h.passes
      rw [hpassed, List.append_nil] at hpasses
      refine goes hadvance rfl (.refl l w) (@Follows.working l _ _ s? p ws received handled [u]
        { h with driver := rfl, passes := ⟨threshold, hholdback, by simpa using hpasses⟩, hands := ?_ })
      cases hu : u.payload with
      | evaluation e =>
        have hstart : Call.start (.update u) = ⟨.update u, .entering⟩ := by simp [Call.start, hu]
        rw [hstart]
        exact .enters hrests
      | build b =>
        have hstart : Call.start (.update u) = ⟨.update u, .awaitingEvaluation⟩ := by simp [Call.start, hu]
        rw [hstart]
        cases hrests with
        | serves hserves => exact .awaits hserves
        | fresh _ hnothing =>
          -- nothing passes before the first evaluation
          subst hnothing
          have hkind := (Holdback.passed_first hpasses.symm).1
          simp [Update.kind, hu] at hkind
    | completes hh hpassed he hb =>
      obtain ⟨rfl, hrests⟩ := rests hh
      obtain ⟨hnobody, hevaluations⟩ := h.closed .evaluation he
      have hbuilds := (h.closed .build hb).2
      subst hnobody
      have hadvance : w.advanceJob {} l.driver (.drive d) = ((w.endDriver d .completed).1, .done (.drove .completed)) := by
        simp only [World.advanceJob, hadvance]
        rfl
      obtain ⟨hbeside, hj⟩ := World.advance_keeping hf hjob hadvance rfl
      refine ⟨?_, (Alone.endDriver h.home .completed).of_beside hbeside hj (.inl rfl)⟩
      rw [outlook_driver hbeside hj hne, outlook_endDriver h.home _ h.workspace]
      obtain ⟨threshold, -, hpasses⟩ := h.passes
      exact @Follows.completed l _ ws received handled
        { workspace := h.workspace
          exit := rfl
          driver := rfl
          sender := h.sender
          flow := fun kind => by
            rw [h.flow kind]
            cases kind <;> simp [hevaluations, hbuilds]
          passes := ⟨threshold, by simpa [hpassed] using hpasses⟩
          rests := hrests
          told := h.told }
    | @receives kind source u hh hpassed hu hk hr =>
      obtain ⟨p', stream, hp', htake, rfl⟩ := hr
      cases hpair.symm.trans hp'
      refine goes hadvance rfl (.modifyPair w h.home.2 _) ?_
      rw [h.home.2, outlook_modifyPair h.pair]
      exact .working (h.receives htake)
    | @closes kind hh hpassed hu hk hr =>
      obtain ⟨hqueue, hsenders⟩ := hr p hpair
      exact goes hadvance rfl (.refl l w) (.working (h.closes hqueue hsenders))

/-! ## Steps of senders -/

theorem outlook_sender {v : World} {next : Option Job} (hb : World.Beside w' v)
    (hj : v.job? = Function.update w.job? l.sender next) (hne : l.sender ≠ l.driver) :
    v.outlook l = { w'.outlook l with driver := w.job? l.driver, sender := next } := by
  unfold World.outlook World.workspace? World.exitOf World.events
  rw [hb.hosted, hb.source, hb.session, hb.log, hj, Function.update_self, Function.update_of_ne hne.symm]

theorem outlook_source (w : World) (l : Lane) (source : Source) :
    ({ w with source } : World).outlook l = { w.outlook l with pair := source.pairs[l.place]? } := rfl

variable {s : Sending} {rest : List Update}

/-- A lane whose sender has put its next update into a stream. -/
theorem Working.sent {stream : Stream} (h : l.Working o d (some s) p ws received handled inHand) (hs : s.pending = u :: rest)
    (hput : (w.source.put p l.sender s.waited u) = some stream) :
    l.Working
      { o with
        pair := some (p.setStream u.kind stream)
        sender := some (.send { s with pending := rest, waited := false }) }
      d (some { s with pending := rest, waited := false }) (p.setStream u.kind stream) ws received handled inHand := by
  have hqueue := Source.put_queue hput
  -- nobody stands at the stream any more
  have hstream : stream.senders = (p.stream u.kind).senders ∧ stream.granted = [] ∧ stream.waiting = [] := by
    unfold Source.put Stream.deliver Stream.offer at hput
    cases h.queues u.kind with
    | free hfree hg hw =>
      have hnot : s.waited = false := Bool.eq_false_iff.2 fun hwaited => hfree s rfl ⟨hwaited, u, rest, hs, rfl⟩
      rw [hnot] at hput
      split at hput
      · rename_i hfalse
        cases hfalse
      · split at hput <;> cases hput
        exact ⟨rfl, hg, hw⟩
    | waits hs' hk hg hw hq =>
      cases hs'
      simp [hk.1, hg] at hput
    | granted hs' hk hg hw =>
      cases hs'
      simp only [hk.1, hg, if_true, List.contains_cons, BEq.rfl, Bool.true_or, Option.some.injEq] at hput
      subst hput
      exact ⟨rfl, by simp, hw⟩
  have hnot (kind : UpdateKind) :
      ∀ s', some { s with pending := rest, waited := false } = some s' → ¬Sending.WaitsFor s' kind := by
    rintro s' hs' ⟨hwaited, -⟩
    cases hs'
    cases hwaited
  refine
    { h with
      sender := rfl
      sends := fun s' hs' => ?_
      pair := rfl
      followed := StreamPair.followed_setStream.trans h.followed
      senders := fun other => ?_
      queues := fun other => ?_
      closed := fun other hclosed => ?_
      flow := fun other => ?_ }
  · cases hs'
    exact h.sends s rfl
  · by_cases ho : other = u.kind
    · subst ho
      rw [StreamPair.stream_setStream_self, hstream.1, h.senders]
      rfl
    · rw [StreamPair.stream_setStream_of_ne ho, h.senders]
      rfl
  · by_cases ho : other = u.kind
    · subst ho
      rw [StreamPair.stream_setStream_self]
      exact .free (hnot _) hstream.2.1 hstream.2.2
    · rw [StreamPair.stream_setStream_of_ne ho]
      cases h.queues other with
      | free hfree hg hw => exact .free (hnot _) hg hw
      | waits hs' hk _ _ _ | granted hs' hk =>
        -- it waits for the stream of its next update only
        cases hs'
        obtain ⟨-, u', rest', hs', hk⟩ := hk
        rw [hs] at hs'
        cases hs'
        exact absurd hk.symm ho
  · cases (h.closed other hclosed).1
  · have hflow := h.flow other
    simp only [Option.map_some, Option.getD_some, hs] at hflow ⊢
    by_cases ho : other = u.kind
    · subst ho
      rw [StreamPair.stream_setStream_self, hqueue, hflow, List.filter_cons_of_pos (by simp)]
      simp
    · rw [StreamPair.stream_setStream_of_ne ho, hflow, List.filter_cons_of_neg (by simpa using Ne.symm ho)]

/-- A lane whose sender has joined the line of a full stream. -/
theorem Working.waits (h : l.Working o d (some s) p ws received handled inHand) (hs : s.pending = u :: rest)
    (hw : s.waited = false) (hc : 0 < w.source.capacity) (hput : w.source.put p l.sender s.waited u = none) :
    l.Working
      { o with
        pair := some (p.setStream u.kind ((p.stream u.kind).await l.sender))
        sender := some (.send { s with waited := true }) }
      d (some { s with waited := true }) (p.setStream u.kind ((p.stream u.kind).await l.sender)) ws received handled
      inHand := by
  have hfree (kind : UpdateKind) : (p.stream kind).granted = [] ∧ (p.stream kind).waiting = [] := by
    cases h.queues kind with
    | free _ hg hw => exact ⟨hg, hw⟩
    | waits hs' hk | granted hs' hk =>
      cases hs'
      rw [hk.1] at hw
      cases hw
  have hfull : (p.stream u.kind).queue ≠ [] := by
    intro hempty
    rw [hw] at hput
    simp [Source.put, Stream.offer, hempty, (hfree u.kind).1, Nat.not_le.2 hc] at hput
  refine
    { h with
      sender := rfl
      sends := fun s' hs' => ?_
      pair := rfl
      followed := StreamPair.followed_setStream.trans h.followed
      senders := fun other => ?_
      queues := fun other => ?_
      closed := fun other hclosed => ?_
      flow := fun other => ?_ }
  · cases hs'
    exact h.sends s rfl
  · by_cases ho : other = u.kind
    · subst ho
      rw [StreamPair.stream_setStream_self]
      exact h.senders _
    · rw [StreamPair.stream_setStream_of_ne ho]
      exact h.senders other
  · by_cases ho : other = u.kind
    · subst ho
      rw [StreamPair.stream_setStream_self]
      exact .waits rfl ⟨rfl, u, rest, hs, rfl⟩ (hfree _).1 (by simp [Stream.await, (hfree _).2]) hfull
    · rw [StreamPair.stream_setStream_of_ne ho]
      refine .free (fun s' hs' hk => ?_) (hfree other).1 (hfree other).2
      cases hs'
      obtain ⟨-, u', rest', hs', hk⟩ := hk
      have hs' : s.pending = u' :: rest' := hs'
      rw [hs] at hs'
      cases hs'
      exact ho hk.symm
  · cases (h.closed other hclosed).1
  · have hqueue : ((p.setStream u.kind ((p.stream u.kind).await l.sender)).stream other).queue = (p.stream other).queue := by
      by_cases ho : other = u.kind
      · subst ho
        rw [StreamPair.stream_setStream_self]
        rfl
      · rw [StreamPair.stream_setStream_of_ne ho]
    rw [hqueue]
    exact h.flow other

/-- A lane whose sender is through. -/
theorem Working.sentAll (h : l.Working o d (some s) p ws received handled inHand) (hs : s.pending = []) :
    l.Working
      { o with
        pair := some
          { p with
            evaluation := { p.evaluation with senders := p.evaluation.senders - 1 }
            build := { p.build with senders := p.build.senders - 1 } }
        sender := none }
      d none
      { p with
        evaluation := { p.evaluation with senders := p.evaluation.senders - 1 }
        build := { p.build with senders := p.build.senders - 1 } }
      ws received handled inHand := by
  have hevaluations : p.evaluation.senders = 1 := h.senders .evaluation
  have hbuilds : p.build.senders = 1 := h.senders .build
  have hfree (kind : UpdateKind) : (p.stream kind).granted = [] ∧ (p.stream kind).waiting = [] := by
    cases h.queues kind with
    | free _ hg hw => exact ⟨hg, hw⟩
    | waits hs' hk | granted hs' hk =>
      cases hs'
      obtain ⟨-, u, rest, hs', -⟩ := hk
      rw [hs] at hs'
      cases hs'
  refine
    { h with
      sender := rfl
      sends := nofun
      pair := rfl
      followed := h.followed
      senders := fun kind => ?_
      queues := fun kind => ?_
      closed := fun kind hclosed => ?_
      flow := fun kind => ?_ }
  · cases kind <;> simp [StreamPair.stream, hevaluations, hbuilds]
  · have := hfree kind
    cases kind <;> exact .free (by simp) this.1 this.2
  · cases (h.closed kind hclosed).1
  · have := h.flow kind
    simp only [Option.map_some, Option.getD_some, hs] at this
    cases kind <;> simpa [StreamPair.stream] using this

/-- What comes of a step of a lane's sender. -/
theorem follows_of_sending {onward : Onward Sending (Except SyncError Unit)} (hf : w.Fit) (hne : l.sender ≠ l.driver)
    (hjob : (w.outlook l).sender = some (.send s)) (hadvance : w.advanceSending l.sender s = (w', onward))
    (hjobs : w'.jobs = w.jobs) (halone : l.Alone w w')
    (hfollows : l.Follows { w'.outlook l with driver := (w.outlook l).driver, sender := onward.state?.map .send }) :
    l.Follows ((w.advance {} l.sender).outlook l) ∧ l.Alone w (w.advance {} l.sender) := by
  have hnext : w.advanceJob {} l.sender (.send s) = (w', onward.bimap .send .sent) := by rw [World.advanceJob_send, hadvance]
  obtain ⟨hb, hj⟩ := World.advance_keeping hf hjob hnext hjobs
  rw [Onward.state?_bimap] at hj
  exact ⟨outlook_sender hb hj hne ▸ hfollows, halone.of_beside hb hj (.inr rfl)⟩

/-- Where nobody follows any more the sender ends. -/
theorem Faulted.send {error : SyncError} (hf : w.Fit) (hne : l.sender ≠ l.driver) (h : l.Faulted (w.outlook l) ws error)
    (hjob : (w.outlook l).sender = some (.send s)) (hs : s.pair = l.place) :
    l.Follows ((w.advance {} l.sender).outlook l) ∧ l.Alone w (w.advance {} l.sender) := by
  have hdropped : l.Alone w { w with source := w.source.dropSender s.pair } := by
    exact .modifyPair w hs _
  have hfollows : l.Follows { ({ w with source := w.source.dropSender s.pair } : World).outlook l with
      driver := (w.outlook l).driver, sender := none } := by
    rw [outlook_source]
    refine .faulted { h with sender := fun job hjob => by simp at hjob, left := fun p hp => ?_ }
    change (w.source.pairs.modify s.pair _)[l.place]? = some p at hp
    rw [hs, List.getElem?_modify_eq] at hp
    obtain ⟨p', hp', rfl⟩ := Option.map_eq_some_iff.1 hp
    exact h.left p' hp'
  have hended : ∃ result, w.advanceSending l.sender s =
      ({ w with source := w.source.dropSender s.pair }, .done result) := by
    have hleft {p : StreamPair} (hp : w.source.pairs[s.pair]? = some p) (hfollowed : p.followed = true) : False := by
      rw [hs] at hp
      cases hfollowed.symm.trans (h.left p hp)
    have hpaths := w.advanceSending_paths l.sender s
    generalize w.advanceSending l.sender s = r at hpaths
    cases hpaths with
    | ends | stops => exact ⟨_, rfl⟩
    | sends _ hp hfollowed | stays _ hp hfollowed | waits _ hp hfollowed => exact (hleft hp hfollowed).elim
  obtain ⟨result, hended⟩ := hended
  exact follows_of_sending hf hne hjob hended rfl hdropped hfollows

theorem Working.send (hf : w.Fit) (hc : 0 < w.source.capacity) (hne : l.sender ≠ l.driver)
    (h : l.Working (w.outlook l) d (some s) p ws received handled inHand) :
    l.Follows ((w.advance {} l.sender).outlook l) ∧ l.Alone w (w.advance {} l.sender) := by
  have hplace : s.pair = l.place := h.sends s rfl
  have hpair : w.source.pairs[l.place]? = some p := h.pair
  have hpaths := w.advanceSending_paths l.sender s
  generalize hadvance : w.advanceSending l.sender s = r at hpaths
  cases hpaths with
  | ends hpending =>
    rw [hplace] at hadvance
    refine follows_of_sending hf hne h.sender hadvance rfl (.modifyPair w rfl _) ?_
    rw [Source.dropSender, outlook_modifyPair hpair]
    exact .working (h.sentAll hpending)
  | stops hpending hclosed =>
    rw [hplace] at hclosed
    simp [Source.isClosed, hpair, h.followed] at hclosed
  | @sends u rest p' stream hpending hp hfollowed hput =>
    rw [hplace] at hadvance hp
    cases hpair.symm.trans hp
    have hsent := h.sent hpending hput
    rw [hplace] at hsent
    refine follows_of_sending hf hne h.sender hadvance rfl (.modifyPair w rfl _) ?_
    rw [outlook_modifyPair hpair]
    exact .working hsent
  | stays =>
    refine follows_of_sending hf hne h.sender hadvance rfl (.refl l w) ?_
    exact .working { h with sender := rfl }
  | @waits u rest p' hpending hp hfollowed hput hwaited =>
    rw [hplace] at hadvance hp
    cases hpair.symm.trans hp
    have hwaits := h.waits hpending hwaited hc hput
    rw [hplace] at hwaits
    refine follows_of_sending hf hne h.sender hadvance rfl (.modifyPair w rfl _) ?_
    rw [Source.await, outlook_modifyPair hpair]
    exact .working hwaits

/-- A step of a lane's sender leaves the lane where lanes can get to, and all else as it is. -/
theorem Follows.send (hf : w.Fit) (hc : 0 < w.source.capacity) (hne : l.sender ≠ l.driver) (h : l.Follows (w.outlook l)) :
    l.Follows ((w.advance {} l.sender).outlook l) ∧ l.Alone w (w.advance {} l.sender) := by
  have gone (hnone : (w.outlook l).sender = none) :
      l.Follows ((w.advance {} l.sender).outlook l) ∧ l.Alone w (w.advance {} l.sender) := by
    rw [World.advance_of_none hnone]
    exact ⟨h, .refl l w⟩
  cases h with
  | completed h => exact gone h.sender
  | faulted h =>
    cases hjob : (w.outlook l).sender with
    | none => exact gone hjob
    | some job =>
      obtain ⟨s, rfl, hs⟩ := h.sender job hjob
      exact h.send hf hne hjob hs
  | @working d s? p ws received handled inHand h =>
    cases s? with
    | none => exact gone h.sender
    | some s => exact h.send hf hc hne

/-! ## Lanes at rest -/

/-- A stream that is followed and cannot be read next has nothing in it, and somebody can still send to it. -/
theorem Working.unread (h : l.Working (w.outlook l) d s? p ws received handled inHand) (hr : w.readyKind d = none)
    {kind : UpdateKind} (ho : d.isOpen kind = true) : (p.stream kind).queue = [] ∧ (p.stream kind).senders ≠ 0 := by
  have hpair : w.source.pairs[d.pair]? = some p := h.home.2.symm ▸ h.pair
  have hready : w.source.isReady d.pair kind = false := by
    unfold World.readyKind at hr
    cases kind with
    | evaluation =>
      have ho : d.evaluationOpen = true := ho
      split at hr
      · cases hr
      · rename_i hnot
        simpa [ho] using hnot
    | build =>
      have ho : d.buildOpen = true := ho
      split at hr
      · cases hr
      · split at hr
        · cases hr
        · rename_i hnot
          simpa [ho] using hnot
  simpa [Source.isReady, hpair, StreamPair.isReady] using hready

/-- A driver that has its call under way is not stuck. -/
theorem Working.handing_eq_none (h : l.Working (w.outlook l) d s? p ws received handled inHand)
    (hs : w.isDriverStuck {} l.driver d = true) : d.handing = none := by
  cases hd : d.handing with
  | none => rfl
  | some c =>
    obtain ⟨h₀, hhosted, rfl⟩ := Option.map_eq_some_iff.1 h.workspace
    have hhands := h.hands
    have hstuck : c.isStuck {} l.driver h₀.workspace = true := by
      simpa [World.isDriverStuck, hd, World.isCallStuck, h.home.1, hhosted] using hs
    rw [hd] at hhands
    cases hhands with
    | awaits hserves => simp [Call.isStuck, hserves.opened.unload, hserves.opened.evaluation] at hstuck
    | enters => cases hstuck
    | closes => cases hstuck

/-- In a lane at rest driver and sender are through. -/
theorem Follows.rests (hrest : w.AtRest {}) (h : l.Follows (w.outlook l)) :
    (∃ ws received handled, l.Completed (w.outlook l) ws received handled) ∨
      ∃ ws error, l.Faulted (w.outlook l) ws error ∧ (w.outlook l).sender = none := by
  cases h with
  | completed h => exact .inl ⟨_, _, _, h⟩
  | faulted h =>
    refine .inr ⟨_, _, h, ?_⟩
    cases hjob : (w.outlook l).sender with
    | none => rfl
    | some job =>
      obtain ⟨s, rfl, hs⟩ := h.sender job hjob
      have hstuck : w.isSendingStuck l.sender s = true := hrest.stuck hjob
      have hclosed : w.source.isClosed s.pair = true := by
        unfold Source.isClosed
        rw [hs]
        split
        · rename_i p hp
          rw [h.left p hp]
          rfl
        · rfl
      unfold World.isSendingStuck at hstuck
      split at hstuck
      · cases hstuck
      · simp [hclosed] at hstuck
  | @working d s? p ws received handled inHand h =>
    exfalso
    have hdriver : w.isDriverStuck {} l.driver d = true := hrest.stuck h.driver
    have hnone := h.handing_eq_none hdriver
    simp only [World.isDriverStuck, hnone, Bool.and_eq_true, Option.isNone_iff_eq_none] at hdriver
    obtain ⟨⟨⟨-, hopen⟩, -⟩, hready⟩ := hdriver
    cases s? with
    | none =>
      -- all streams have ended, and one of them has not been seen to
      obtain ⟨kind, ho⟩ : ∃ kind, d.isOpen kind = true := by
        rcases Bool.or_eq_true_iff.1 hopen with ho | ho
        · exact ⟨.evaluation, ho⟩
        · exact ⟨.build, ho⟩
      exact (h.unread hready ho).2 (h.senders kind)
    | some s =>
      have ho (kind : UpdateKind) : d.isOpen kind = true :=
        Bool.of_not_eq_false fun hclosed => by cases (h.closed kind hclosed).1
      have hsender : w.isSendingStuck l.sender s = true := hrest.stuck h.sender
      unfold World.isSendingStuck at hsender
      split at hsender
      · cases hsender
      · rename_i u rest hpending
        simp only [Bool.and_eq_true, Bool.not_eq_true'] at hsender
        obtain ⟨⟨hwaited, -⟩, hgranted⟩ := hsender
        have hpair : w.source.pairs[s.pair]? = some p := h.sends s rfl ▸ h.pair
        cases h.queues u.kind with
        | free hfree => exact hfree s rfl ⟨hwaited, u, rest, hpending, rfl⟩
        | waits _ _ _ _ hqueue => exact hqueue (h.unread hready (ho u.kind)).1
        | granted _ _ hg => simp [Source.isGranted, hpair, hg] at hgranted

/-- How a lane can have come to its end: there was no evaluation and nothing has been handed over, the first evaluation
did not tell what a context needs, or every update has been integrated. -/
inductive Ended (l : Lane) (o : Outlook) : Prop
  | unfed {slice : Slice} (he : firstEvaluation? l.updates = none) (hw : o.workspace = some { slice })
      (hx : o.exit = some .completed) (ht : o.told = 0)
  | refused {e : Evaluation} {error : SyncError} {ws : Workspace} (he : firstEvaluation? l.updates = some e)
      (hp : e.creationParams = .error error) (hw : o.workspace = some ws) (hx : o.exit = some (.faulted error))
      (hs : ws.Stopped) (ht : o.told = 0)
  | served {e : Evaluation} {params : CreationParams} {ws : Workspace} {handled : List Update}
      (he : firstEvaluation? l.updates = some e) (hp : e.creationParams = .ok params) (hw : o.workspace = some ws)
      (hx : o.exit = some .completed) (hs : l.Serves o.made ws handled) (hu : handled.Perm l.updates)
      (ht : o.told = l.updates.length)

/-- A lane that has come to its end, with its driver and its sender through. -/
structure Over (l : Lane) (o : Outlook) : Prop where
  ended : l.Ended o
  driver : o.driver = none
  sender : o.sender = none

/-- Where a driver has handed everything over, its lane has ended well. -/
theorem Completed.ended (h : l.Completed o ws received handled) : l.Ended o := by
  obtain ⟨threshold, hpasses⟩ := h.passes
  have hflow := h.flow .evaluation
  rcases Holdback.passed_cases (h := { threshold }) rfl (by simp) received with
    ⟨hnone, hpassed⟩ | ⟨first, rest, hpassed, hkind, hevaluations, -⟩
  · -- without an evaluation nothing has passed
    have hnothing : handled = [] := hpasses.trans hpassed
    have htold : o.told = 0 := by rw [h.told, hnothing, List.length_nil]
    cases h.rests with
    | fresh hw => exact .unfed (firstEvaluation?_eq_none_iff.2 (hflow.trans hnone)) (hw ▸ h.workspace) h.exit htold
    | serves hserves => exact absurd hnothing hserves.begun
  · have hsome : ∃ v ∈ received, v.kind = .evaluation :=
      ⟨first, (List.mem_filter.1 (hevaluations ▸ List.mem_cons_self)).1, hkind⟩
    have hperm : handled.Perm l.updates := by
      have hkinds (kind : UpdateKind) : handled.filter (·.kind = kind) = l.updates.filter (·.kind = kind) := by
        rw [hpasses, Holdback.filter_passed hsome, h.flow kind]
      exact perm_of_kinds hkinds
    cases h.rests with
    | fresh _ hnothing => cases hnothing.symm.trans (hpasses.trans hpassed)
    | serves hserves =>
      obtain ⟨handle, k, params, -, -, -, -, hparams, -⟩ := hserves.context
      have hfirst := firstEvaluation?_of_filter (hflow.trans hevaluations)
      cases he : first.evaluation? with
      | none =>
        rw [Update.evaluation?_eq_none_iff.1 he] at hkind
        cases hkind
      | some e =>
        rw [he] at hfirst
        rw [params?_of_first hfirst] at hparams
        cases hp : e.creationParams with
        | error error => simp [hp, Except.toOption] at hparams
        | ok params' => exact .served hfirst hp h.workspace h.exit hserves hperm (h.told.trans hperm.length_eq)

theorem Faulted.ended {error : SyncError} (h : l.Faulted o ws error) : l.Ended o := by
  obtain ⟨e, he, hp⟩ := h.first
  exact .refused he hp h.workspace h.exit h.stopped h.told

/-- A lane whose driver has ended has come to its end. -/
theorem Follows.ended (h : l.Follows o) (he : o.exit.isSome) : l.Ended o ∧ o.driver = none := by
  cases h with
  | working h =>
    rw [h.exit] at he
    cases he
  | completed h => exact ⟨h.ended, h.driver⟩
  | faulted h => exact ⟨h.ended, h.driver⟩

/-- A lane in which nobody can go on has come to its end, with its sender and its driver. -/
theorem Follows.over_of_atRest (hrest : w.AtRest {}) (h : l.Follows (w.outlook l)) : l.Over (w.outlook l) := by
  rcases h.rests hrest with ⟨ws, received, handled, h⟩ | ⟨ws, error, h, hsender⟩
  · exact ⟨h.ended, h.driver, h.sender⟩
  · exact ⟨h.ended, h.driver, hsender⟩

end Lane

end SliceSync
