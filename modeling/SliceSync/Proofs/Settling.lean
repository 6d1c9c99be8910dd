import Mathlib.Data.List.Nodup
import SliceSync.Proofs.DriverExits
/-!
# Work runs out

A job that is not stuck has only so many steps before it, on what it has and on what is queued for it: every step
leaves less (`World.advance_work`). So whoever takes jobs ahead that are not stuck is through at some time.
-/

namespace SliceSync

/-! ## Sums -/

namespace World

variable {α : Type} {f : α → Nat}

@[simp] theorem total_nil : total f [] = 0 := rfl

@[simp] theorem total_cons (a : α) (l : List α) : total f (a :: l) = f a + total f l := rfl

@[simp] theorem total_append (l m : List α) : total f (l ++ m) = total f l + total f m := by
  induction l with
  | nil => simp
  | cons a rest ih => simp [ih, Nat.add_assoc]

/-- A list with one member changed. -/
theorem total_modify (l : List α) (g : α → α) {i : Nat} {a : α} (h : l[i]? = some a) :
    total f (l.modify i g) + f a = total f l + f (g a) := by
  induction l generalizing i with
  | nil => cases h
  | cons b rest ih =>
    cases i with
    | zero =>
      cases h
      simp only [List.modify_zero_cons, total_cons]
      omega
    | succ i =>
      have := ih h
      simp only [List.modify_succ_cons, total_cons]
      omega

/-- A list in which no member grows. -/
theorem total_modify_le (l : List α) {g : α → α} (i : Nat) (h : ∀ a, f (g a) ≤ f a) :
    total f (l.modify i g) ≤ total f l := by
  cases hi : l[i]? with
  | none => exact Nat.le_of_eq (by rw [List.modify_eq_self (List.getElem?_eq_none_iff.1 hi)])
  | some a =>
    have := total_modify (f := f) l g hi
    have := h a
    omega

section Jobs

variable {f : Job → Nat} {l : List (JobId × Job)} {me : JobId} {job : Job}

/-- A job stands among jobs of other numbers. -/
theorem exists_among (hl : (l.map (·.1)).Nodup) (h : (me, job) ∈ l) :
    ∃ before after, l = before ++ (me, job) :: after ∧ (∀ e ∈ before, e.1 ≠ me) ∧ ∀ e ∈ after, e.1 ≠ me := by
  obtain ⟨before, after, rfl⟩ := List.append_of_mem h
  rw [List.map_append, List.map_cons] at hl
  have hnot : me ∉ before.map (·.1) ++ after.map (·.1) := (List.nodup_cons.1 (List.nodup_middle.1 hl)).1
  refine ⟨before, after, rfl, fun e he heq => hnot ?_, fun e he heq => hnot ?_⟩
  · exact List.mem_append_left _ (List.mem_map.2 ⟨e, he, heq⟩)
  · exact List.mem_append_right _ (List.mem_map.2 ⟨e, he, heq⟩)

/-- Other jobs than one that has left the list are the same. -/
theorem total_filter (hl : (l.map (·.1)).Nodup) (h : (me, job) ∈ l) :
    total (fun e => f e.2) (l.filter (·.1 ≠ me)) + f job = total (fun e => f e.2) l := by
  obtain ⟨before, after, rfl, hbefore, hafter⟩ := exists_among hl h
  have hkeep {m : List (JobId × Job)} (hm : ∀ e ∈ m, e.1 ≠ me) : m.filter (·.1 ≠ me) = m :=
    List.filter_eq_self.2 fun e he => decide_eq_true (hm e he)
  rw [List.filter_append, List.filter_cons_of_neg (by simp), hkeep hbefore, hkeep hafter]
  simp only [total_append, total_cons]
  omega

/-- A job goes on as another. -/
theorem total_replace (hl : (l.map (·.1)).Nodup) (h : (me, job) ∈ l) (job' : Job) :
    total (fun e => f e.2) (l.map fun e => if e.1 = me then (me, job') else e) + f job =
      total (fun e => f e.2) l + f job' := by
  obtain ⟨before, after, rfl, hbefore, hafter⟩ := exists_among hl h
  have hkeep {m : List (JobId × Job)} (hm : ∀ e ∈ m, e.1 ≠ me) :
      m.map (fun e => if e.1 = me then (me, job') else e) = m :=
    (List.map_congr_left fun e he => if_neg (hm e he)).trans (List.map_id m)
  rw [List.map_append, List.map_cons, if_pos rfl, hkeep hbefore, hkeep hafter]
  simp only [total_append, total_cons]
  omega

end Jobs

end World

/-- What goes on has so much before it. -/
def Onward.work {α ρ : Type} (f : α → Nat) : Onward α ρ → Nat
  | .going state => f state
  | .done _ => 0

theorem Onward.work_bimap {α β ρ σ : Type} (f : α → β) (g : ρ → σ) (o : Onward α ρ) (work : β → Nat) :
    (o.bimap f g).work work = o.work fun state => work (f state) := by
  cases o <;> rfl

/-! ## Calls on workspaces -/

namespace Call

variable {setup : Setup} {env : Environment} {me : JobId} {c c' : Call} {session : Session} {w : Workspace}

theorem work_pos (c : Call) : 0 < c.work := by
  unfold work
  cases c.phase <;> simp

theorem work_le (c : Call) : c.work ≤ 4 := by
  unfold work
  cases c.phase <;> simp

theorem work_conclude {p : Passage} (h : (c.conclude setup p).progress = .going c') : c'.work = 1 := by
  obtain ⟨-, -, ⟨batch, -, hp⟩ | ⟨handle, -, hp⟩⟩ := Call.conclude_going h <;> simp [work, hp]

theorem work_askLock (h : (c.askLock setup env me session w).progress = .going c') : c'.work ≤ 2 := by
  unfold askLock at h
  dsimp only at h
  split at h
  · exact Nat.le_succ_of_le (Nat.le_of_eq (work_conclude (enter_eq setup env c .. ▸ h)))
  · cases h
    exact Nat.le_refl _

/-- A call that is not stuck comes closer to its end. -/
theorem work_advance (hs : c.isStuck env me w = false) (h : (c.advance setup env me session w).progress = .going c') :
    c'.work < c.work := by
  unfold advance at h
  unfold isStuck at hs
  cases hp : c.phase with
  | awaitingEvaluation =>
    have hwork : c.work = 4 := by simp only [work, hp]
    simp only [hp] at h hs
    split at h
    · cases h
    · rename_i hu
      split at h
      · rename_i he
        simp [hu, he] at hs
      · cases h
      · split at h
        · cases h
        · cases h
          exact hwork ▸ Nat.lt_succ_self 3
  | awaitingBuild =>
    simp only [hp] at h hs
    split at h
    · cases h
    · rename_i hu
      split at h
      · cases h
      · rename_i hb
        simp [hu, hb] at hs
  | entering =>
    have hwork : c.work = 3 := by simp only [work, hp]
    simp only [hp] at h
    have asked {w : Workspace} (h : (c.askLock setup env me session w).progress = .going c') : c'.work < c.work :=
      hwork ▸ Nat.lt_succ_of_le (work_askLock h)
    split at h
    · exact asked h
    · split at h
      · cases h
      · exact asked h
  | queued =>
    have hwork : c.work = 2 := by simp only [work, hp]
    simp only [hp] at h hs
    split at h
    · cases h
    · rename_i hcut
      split at h
      · rw [hwork, work_conclude (enter_eq setup env c .. ▸ h)]
        decide
      · rename_i hheld
        simp [hcut, hheld] at hs
  | closing batch =>
    simp only [hp] at h hs
    split at h
    · obtain ⟨-, -, ⟨result, hheld⟩, -⟩ := Workspace.close_heard env session w batch
      rw [conclude, hheld] at h
      cases h
    · rename_i hg
      simp [hg] at hs
  | releasing handle =>
    simp only [hp] at h hs
    split at h
    · cases h
    · rename_i hd
      simp [hd] at hs

end Call

/-! ## Queues -/

namespace Source

variable {s s' : Source} {pair : Nat} {kind : UpdateKind} {u : Update}

/-- What is before those who follow the streams of a source. -/
def backlog (s : Source) : Nat := World.total (fun p => 6 * p.queued) s.pairs

theorem backlog_modifyPair_le (s : Source) (pair : Nat) {f : StreamPair → StreamPair} (hf : ∀ p, (f p).queued ≤ p.queued) :
    (s.modifyPair pair f).backlog ≤ s.backlog :=
  World.total_modify_le _ _ fun p => Nat.mul_le_mul_left 6 (hf p)

theorem backlog_dropSender (s : Source) (pair : Nat) : (s.dropSender pair).backlog ≤ s.backlog :=
  s.backlog_modifyPair_le pair fun _ => Nat.le_refl _

theorem backlog_dropReceivers (s : Source) (pair : Nat) : (s.dropReceivers pair).backlog ≤ s.backlog :=
  s.backlog_modifyPair_le pair fun _ => Nat.zero_le _

theorem backlog_addSender (s : Source) (pair : Nat) : (s.addSender pair).backlog ≤ s.backlog :=
  s.backlog_modifyPair_le pair fun _ => Nat.le_refl _

theorem backlog_await (s : Source) (pair : Nat) (job : JobId) (kind : UpdateKind) : (s.await pair job kind).backlog ≤ s.backlog :=
  s.backlog_modifyPair_le pair fun _ => by cases kind <;> exact Nat.le_refl _

theorem backlog_openFeed (s : Source) (slice : Slice) (taken : Bool) : (s.openFeed slice taken).1.backlog = s.backlog :=
  World.total_append _ _

theorem backlog_subscribe (s : Source) (slice : Slice) : (s.subscribe slice).1.backlog ≤ s.backlog := by
  unfold subscribe
  split
  · split
    · exact Nat.le_trans (Nat.le_of_eq (backlog_openFeed ..)) (s.backlog_dropSender _)
    · exact Nat.le_refl _
  · exact Nat.le_of_eq (s.backlog_openFeed ..)

theorem backlog_sender (s : Source) (slice : Slice) : (s.sender slice).1.backlog ≤ s.backlog := by
  cases hfeed : s.feeds.get? slice with
  | some feed =>
    simp only [sender, hfeed]
    exact s.backlog_addSender _
  | none =>
    simp only [sender, hfeed]
    exact Nat.le_trans (backlog_addSender _ _) (Nat.le_of_eq (s.backlog_openFeed slice false))

theorem backlog_close (s : Source) (slice : Slice) : (s.close slice).backlog ≤ s.backlog := by
  unfold close
  split
  · dsimp only
    split
    · exact backlog_dropSender _ _
    · exact Nat.le_trans (backlog_dropReceivers _ _) (backlog_dropSender _ _)
  · exact Nat.le_refl _

/-- What is taken out of a stream is before nobody any more. -/
theorem Takes.backlog (h : s.Takes pair kind u s') : s'.backlog + 6 = s.backlog := by
  obtain ⟨p, stream, hp, htake, rfl⟩ := h
  have hqueued := StreamPair.queued_setStream (Stream.take_length htake).1
  have := World.total_modify (f := fun p => 6 * p.queued) s.pairs (·.setStream kind stream) hp
  unfold Source.backlog modifyPair
  dsimp only at this ⊢
  omega

/-- What comes of an update that is put into a stream, if it gets there. -/
def put (s : Source) (p : StreamPair) (job : JobId) (waited : Bool) (u : Update) : Option Stream :=
  if waited then (p.stream u.kind).deliver job u else (p.stream u.kind).offer s.capacity u

/-- The ways sending can go. -/
inductive Sends (s : Source) (pair : Nat) (job : JobId) (waited : Bool) (u : Update) : Source × Sent → Prop
  /-- Nobody follows. -/
  | closed (hc : s.isClosed pair = true) : Sends s pair job waited u (s, .closed)
  | sent {p : StreamPair} {stream : Stream} (hp : s.pairs[pair]? = some p) (hf : p.followed = true)
      (hput : s.put p job waited u = some stream) :
      Sends s pair job waited u (s.modifyPair pair (·.setStream u.kind stream), .sent)
  | full {p : StreamPair} (hp : s.pairs[pair]? = some p) (hf : p.followed = true)
      (hput : s.put p job waited u = none) : Sends s pair job waited u (s, .full)

theorem sends (s : Source) (pair : Nat) (job : JobId) (waited : Bool) (u : Update) :
    Sends s pair job waited u (s.send pair job waited u) := by
  unfold send
  cases hp : s.pairs[pair]? with
  | none => exact .closed (by simp [isClosed, hp])
  | some p =>
    cases hf : p.followed with
    | false => simpa [hf] using Sends.closed (by simp [isClosed, hp, hf])
    | true =>
      cases hput : s.put p job waited u with
      | none =>
        have : Sends s pair job waited u _ := .full hp hf hput
        unfold put at hput
        simpa [hf, hput] using this
      | some stream =>
        have : Sends s pair job waited u _ := .sent hp hf hput
        unfold put at hput
        simpa [hf, hput] using this

/-- An update that is put into a stream comes last. -/
theorem put_queue {p : StreamPair} {job : JobId} {waited : Bool} {stream : Stream} (h : s.put p job waited u = some stream) :
    stream.queue = (p.stream u.kind).queue ++ [u] := by
  unfold put Stream.deliver Stream.offer at h
  split at h
  · split at h <;> cases h
    rfl
  · split at h <;> cases h
    rfl

theorem backlog_put {p : StreamPair} {job : JobId} {waited : Bool} {stream : Stream} (hp : s.pairs[pair]? = some p)
    (h : s.put p job waited u = some stream) : (s.modifyPair pair (·.setStream u.kind stream)).backlog = s.backlog + 6 := by
  have hqueue := put_queue h
  have hqueued : (p.setStream u.kind stream).queued = p.queued + 1 := by
    cases hk : u.kind <;> rw [hk] at hqueue <;>
      simp only [StreamPair.queued, StreamPair.setStream, StreamPair.stream] at hqueue ⊢ <;>
      rw [hqueue, List.length_append, List.length_singleton] <;> omega
  have := World.total_modify (f := fun p => 6 * p.queued) s.pairs (·.setStream u.kind stream) hp
  unfold backlog modifyPair
  dsimp only at this ⊢
  omega

end Source

/-! ## Slots -/

namespace Listing

variable {κ β γ : Type} [DecidableEq κ]

theorem length_put_le (key : κ) (value : β) (l : List (κ × β)) : (put key value l).length ≤ l.length + 1 := by
  induction l with
  | nil => exact Nat.le_refl _
  | cons e rest ih =>
    unfold put
    split
    · exact Nat.le_succ _
    · exact Nat.succ_le_succ ih

theorem size_insert_le (m : Listing κ β) (key : κ) (value : β) : (m.insert key value).size ≤ m.size + 1 :=
  length_put_le key value m.entries

theorem entries_foldl_erase (l : List (κ × γ)) (m : Listing κ β) :
    (l.foldl (fun m e => m.erase e.1) m).entries = m.entries.filter (·.1 ∉ l.map (·.1)) := by
  induction l generalizing m with
  | nil => simp
  | cons e rest ih =>
    rw [List.foldl_cons, ih, erase, List.filter_filter]
    refine List.filter_congr fun d _ => ?_
    simp only [List.map_cons, List.mem_cons, not_or, Bool.decide_and, Bool.and_comm]

/-- What is taken out of a listing is there no more. -/
theorem size_foldl_erase (m : Listing κ β) (p : κ × β → Bool) :
    ((m.toList.filter p).foldl (fun m e => m.erase e.1) m).size + (m.toList.filter p).length ≤ m.size := by
  have hrest : m.entries.countP (·.1 ∉ (m.entries.filter p).map (·.1)) ≤ m.entries.countP (fun e => ¬p e = true) := by
    refine List.countP_mono_left fun e he hout => ?_
    rw [decide_eq_true_eq] at hout ⊢
    exact fun hp => hout (List.mem_map.2 ⟨e, List.mem_filter.2 ⟨he, hp⟩, rfl⟩)
  have hsplit := List.length_eq_countP_add_countP p (l := m.entries)
  unfold size toList
  rw [entries_foldl_erase, ← List.countP_eq_length_filter, ← List.countP_eq_length_filter]
  omega

end Listing

theorem Slice.length_insertSorted_le (s : Slice) (l : List Slice) : (s.insertSorted l).length ≤ l.length + 1 := by
  induction l with
  | nil => exact Nat.le_refl _
  | cons t rest ih =>
    unfold insertSorted
    split
    · exact Nat.le_refl _
    · exact Nat.le_succ _
    · exact Nat.succ_le_succ ih

theorem Slice.length_sortedSet_le (slices : List Slice) : (sortedSet slices).length ≤ slices.length := by
  have fold (sorted : List Slice) :
      (slices.foldl (fun sorted s => s.insertSorted sorted) sorted).length ≤ sorted.length + slices.length := by
    induction slices generalizing sorted with
    | nil => exact Nat.le_refl _
    | cons s rest ih =>
      have := s.length_insertSorted_le sorted
      have := ih (s.insertSorted sorted)
      rw [List.foldl_cons, List.length_cons]
      omega
  simpa [sortedSet] using fold []

/-! ## Steps of senders -/

/-- The ways a step of a sender can go. -/
inductive Sending.Paths (w : World) (me : JobId) (s : Sending) : World × Onward Sending (Except SyncError Unit) → Prop
  /-- All has been sent. -/
  | ends (hp : s.pending = []) : Paths w me s ({ w with source := w.source.dropSender s.pair }, .done (.ok ()))
  /-- Nobody follows. -/
  | stops {u : Update} {rest : List Update} (hp : s.pending = u :: rest) (hc : w.source.isClosed s.pair = true) :
      Paths w me s ({ w with source := w.source.dropSender s.pair }, .done (.error Source.closedError))
  | sends {u : Update} {rest : List Update} {p : StreamPair} {stream : Stream} (hp : s.pending = u :: rest)
      (hpair : w.source.pairs[s.pair]? = some p) (hf : p.followed = true) (hput : w.source.put p me s.waited u = some stream) :
      Paths w me s
        ({ w with source := w.source.modifyPair s.pair (·.setStream u.kind stream) },
          .going { s with pending := rest, waited := false })
  /-- It has waited in vain. -/
  | stays {u : Update} {rest : List Update} {p : StreamPair} (hp : s.pending = u :: rest)
      (hpair : w.source.pairs[s.pair]? = some p) (hf : p.followed = true) (hput : w.source.put p me s.waited u = none)
      (hw : s.waited = true) : Paths w me s (w, .going s)
  /-- It joins the line of a full stream. -/
  | waits {u : Update} {rest : List Update} {p : StreamPair} (hp : s.pending = u :: rest)
      (hpair : w.source.pairs[s.pair]? = some p) (hf : p.followed = true) (hput : w.source.put p me s.waited u = none)
      (hw : s.waited = false) :
      Paths w me s ({ w with source := w.source.await s.pair me u.kind }, .going { s with waited := true })

theorem World.advanceSending_paths (w : World) (me : JobId) (s : Sending) : s.Paths w me (w.advanceSending me s) := by
  unfold advanceSending
  cases hpending : s.pending with
  | nil => exact .ends hpending
  | cons u rest =>
    dsimp only
    have hsends := w.source.sends s.pair me s.waited u
    generalize w.source.send s.pair me s.waited u = r at hsends
    cases hsends with
    | closed hc => exact .stops hpending hc
    | sent hp hf hput => exact .sends hpending hp hf hput
    | full hp hf hput =>
      dsimp only
      split
      · rename_i hwaited
        exact .stays hpending hp hf hput hwaited
      · rename_i hwaited
        have hwaits := Sending.Paths.waits hpending hp hf hput (Bool.eq_false_iff.2 hwaited)
        rwa [hpending] at hwaits

/-! ## Steps of jobs -/

/-- A write to the active slice that waits for the slots has an attempt left. -/
def SlotTask.HasAttempt : SlotTask → Prop
  | .target _ _ attempts => 0 < attempts
  | _ => True

/-- Where a job can get to: who waits for room has something to send, and a write to the active slice that waits for the
slots has an attempt left. -/
def Job.Fit : Job → Prop
  | .send s => s.waited = true → s.pending ≠ []
  | .host (.queued t) => t.HasAttempt
  | _ => True

namespace World

variable {w w' w'' : World} {env : Environment} {me : JobId} {i : Nat}

/-- All that is left to do, on what the jobs have, what is queued and what is live. -/
theorem work_eq (w : World) :
    w.work = total (fun e => jobWork e.2) w.jobs + w.source.backlog + Slots.liveWork * w.slots.live.size := rfl

theorem work_congr (hj : w'.jobs = w.jobs) (hp : w'.source = w.source) (hl : w'.slots.live = w.slots.live) :
    w'.work = w.work := by
  rw [work, work, hj, hp, hl]

theorem spawn_work (w : World) (job : Job) : (w.spawn job).work = w.work + jobWork job := by
  simp only [work_eq, spawn, total_append, total_cons, total_nil]
  omega

/-- A call that is not stuck leaves all else as it is and comes closer to its end. -/
theorem advanceCall_work {c : Call} (hs : w.isCallStuck env me i c = false) :
    (w.advanceCall env me i c).1.work = w.work ∧ (w.advanceCall env me i c).2.work Call.work < c.work := by
  unfold isCallStuck at hs
  unfold advanceCall
  cases hi : w.hosted[i]? with
  | none => exact ⟨rfl, c.work_pos⟩
  | some h =>
    rw [hi] at hs
    refine ⟨work_congr rfl rfl rfl, ?_⟩
    dsimp only at hs ⊢
    cases hg : (c.advance w.setup env me w.session h.workspace).progress with
    | going c' => exact Call.work_advance hs hg
    | done result => exact c.work_pos

theorem advanceRetirement_work {r : Retirement} (hs : w.isRetirementStuck env me i r = false) :
    (w.advanceRetirement env me i r).1.work = w.work ∧ (w.advanceRetirement env me i r).2.work Retirement.work < r.work := by
  unfold isRetirementStuck at hs
  unfold advanceRetirement
  cases r with
  | disposing c =>
    obtain ⟨hw, hc⟩ := advanceCall_work hs
    dsimp only
    generalize w.advanceCall env me i c = s at hw hc ⊢
    obtain ⟨w', c' | result⟩ := s
    · exact ⟨hw, Nat.add_lt_add_right hc 2⟩
    · refine ⟨hw, ?_⟩
      have := c.work_pos
      simp only [Onward.work, Retirement.work]
      omega
  | claiming =>
    dsimp only
    split
    · exact ⟨rfl, Nat.zero_lt_two⟩
    · split
      · exact ⟨rfl, Nat.zero_lt_two⟩
      · exact ⟨work_congr rfl rfl rfl, Nat.one_lt_two⟩
  | joining =>
    dsimp only at hs ⊢
    cases hexit : (w.hosted[i]?).bind (·.exit) with
    | none => simp [hexit] at hs
    | some exit => exact ⟨rfl, Nat.zero_lt_one⟩

/-- A driver that ends leaves its streams to nobody. -/
theorem endDriver_work (w : World) (d : Driver) (exit : DriverExit) : (w.endDriver d exit).1.work ≤ w.work := by
  have h := w.source.backlog_dropReceivers d.pair
  rw [work_eq, work_eq]
  exact Nat.add_le_add_right (Nat.add_le_add_left h _) _

theorem advanceDriver_work {d : Driver} (hs : w.isDriverStuck env me d = false) :
    (w.advanceDriver env me d).1.work + (w.advanceDriver env me d).2.work Driver.work < w.work + d.work := by
  have hpos : 0 < d.work := by
    unfold Driver.work
    omega
  obtain ⟨event, -, hpaths⟩ := w.advanceDriver_paths env me d
  generalize w.advanceDriver env me d = r at hpaths
  unfold isDriverStuck at hs
  cases hpaths with
  | works hh hg | succeeds hh hg =>
    rw [hh] at hs
    have hwork := advanceCall_work hs
    rw [hg] at hwork
    rw [hwork.1]
    simp only [Onward.work, Driver.work, hh, Option.map_some, Option.map_none, Option.getD_some, Option.getD_none] at hwork ⊢
    omega
  | fails hh hg =>
    rw [hh] at hs
    have hwork := advanceCall_work hs
    rw [hg] at hwork
    exact Nat.add_lt_add_of_le_of_lt (Nat.le_trans (endDriver_work ..) (Nat.le_of_eq hwork.1)) hpos
  | hands hh hp =>
    rename_i u rest
    have := (Call.start (.update u)).work_le
    simp only [Onward.work, Driver.work, hh, hp, Option.map_some, Option.map_none, Option.getD_some, Option.getD_none,
      List.length_cons]
    omega
  | completes | unloads => exact Nat.add_lt_add_of_le_of_lt (endDriver_work ..) hpos
  | waits hh hp ho hu hk =>
    rw [hh] at hs
    rcases ho with ho | ho <;> simp [hp, ho, hu, hk] at hs
  | receives hh hp hu hk hr =>
    rename_i u
    have hbacklog := hr.backlog
    have hpush := d.push_length u
    have hsame : (d.push u).handing = d.handing ∧ (d.push u).evaluationOpen = d.evaluationOpen ∧
        (d.push u).buildOpen = d.buildOpen := ⟨rfl, rfl, rfl⟩
    simp only [Onward.work, Driver.work, work_eq, hsame]
    omega
  | closes hh hp hu hk hr =>
    have hopen := (readyKind_eq_some hk).1
    rename_i kind
    cases kind <;> simp_all [Onward.work, Driver.work, Driver.closeStream, Driver.isOpen]

theorem advanceSending_work {s : Sending} (hp : s.waited = true → s.pending ≠ []) (hs : w.isSendingStuck me s = false) :
    (w.advanceSending me s).1.work + (w.advanceSending me s).2.work sendingWork < w.work + sendingWork s := by
  have hpaths := w.advanceSending_paths me s
  generalize w.advanceSending me s = r at hpaths
  have hlast := s.waited.toNat_le
  cases hpaths with
  | ends hpending =>
    have hwaited : s.waited = false := Bool.eq_false_iff.2 fun h => hp h hpending
    have := w.source.backlog_dropSender s.pair
    simp only [Onward.work, sendingWork, work_eq, hpending, hwaited, List.length_nil, Bool.toNat_false]
    omega
  | stops hpending hc =>
    have := w.source.backlog_dropSender s.pair
    simp only [Onward.work, sendingWork, work_eq, hpending, List.length_cons]
    omega
  | sends hpending hp hf hput =>
    have := Source.backlog_put hp hput
    simp only [Onward.work, sendingWork, work_eq, hpending, List.length_cons, Bool.toNat_false]
    omega
  | stays hpending hp hf hput hwaited =>
    -- who has waited in vain is stuck
    rw [hwaited] at hput
    simp only [Source.put, Stream.deliver, if_true] at hput
    split at hput
    · cases hput
    · rename_i hgranted
      unfold isSendingStuck at hs
      rw [hpending] at hs
      exact absurd (by simpa [Source.isClosed, Source.isGranted, hp, hf, hwaited] using hs) hgranted
  | @waits u rest p hpending hp hf hput hwaited =>
    have := w.source.backlog_await s.pair me u.kind
    simp only [Onward.work, sendingWork, work_eq, hpending, List.length_cons, hwaited, Bool.toNat_true, Bool.toNat_false]
    omega

/-- With a new workspace comes a driver that has yet to begin. -/
theorem createHosted_work (w : World) (env : Environment) (slice : Slice) :
    (w.createHosted env slice).1.work ≤ w.work + 3 ∧ (w.createHosted env slice).1.slots = w.slots := by
  unfold createHosted
  split
  · exact ⟨Nat.le_add_right .., rfl⟩
  · split
    · exact ⟨Nat.le_add_right .., rfl⟩
    · have hbacklog := w.source.backlog_subscribe slice
      generalize w.source.subscribe slice = subscribed at hbacklog ⊢
      obtain ⟨source, pair⟩ := subscribed
      have hdriver (i threshold : Nat) : jobWork (.drive { workspace := i, pair, holdback := { threshold } }) = 3 := rfl
      refine ⟨?_, rfl⟩
      simp only [work_eq, spawn, addWorkspace, total_append, total_cons, total_nil, hdriver] at hbacklog ⊢
      omega

/-- One more is live then. -/
theorem createWanted_work (w : World) (env : Environment) (r : Reconciliation) (slice : Slice) :
    (w.createWanted env r slice).1.work + (w.createWanted env r slice).2.work HostCall.work ≤
      w.work + (HostCall.creating r).work + (Slots.liveWork + 3) := by
  have hmade := w.createHosted_work env slice
  unfold createWanted
  generalize w.createHosted env slice = made at hmade ⊢
  obtain ⟨w', error | i⟩ := made
  · have hsame : (HostCall.creating { r with error := r.error.or (some error) }).work = (HostCall.creating r).work := rfl
    simp only [Onward.work, hsame] at hmade ⊢
    omega
  · have hlive := w'.slots.live.size_insert_le slice i
    simp only [Onward.work, work_eq, Slots.liveWork] at hmade ⊢
    omega

theorem performSlotTask_work (w : World) {t : SlotTask} (ht : t.HasAttempt) :
    (w.performSlotTask t).1.work + (w.performSlotTask t).2.work HostCall.work < w.work + (HostCall.queued t).work := by
  unfold performSlotTask
  cases t with
  | reconcile wanted cause =>
    have := w.slots.live.size_foldl_erase fun e => !wanted.contains e.1
    simp only [retireUnwanted, Onward.work, work_eq, HostCall.work, Slots.liveWork, Slots.wantedWork, List.length_map]
    omega
  | forget i cause retired error =>
    have hsame : (w.forgetRetired i).unlockSlots.work = w.work := by
      unfold forgetRetired
      split
      · rfl
      · split
        · split <;> rfl
        · rfl
    simp only [hsame, Onward.work, HostCall.work]
    omega
  | list => exact Nat.lt_add_of_pos_right (Nat.zero_lt_succ _)
  | find slice => exact Nat.lt_add_of_pos_right (Nat.zero_lt_succ _)
  | target slice mutations attempts =>
    have ht : 0 < attempts := ht
    dsimp only
    split
    · show w.work + _ < w.work + 10 * attempts
      simp only [Onward.work, HostCall.work, Call.work, Call.start]
      omega
    · exact Nat.lt_add_of_pos_right (Nat.mul_pos (by decide) ht)
  | drain =>
    simp only [unlockSlots, Onward.work, work_eq, HostCall.work, Slots.liveWork, Listing.values, Listing.size,
      List.length_map]
    show _ + 12 * 0 + _ < _
    omega

theorem askSlots_work (w : World) (me : JobId) {t : SlotTask} (ht : t.HasAttempt) :
    (w.askSlots me t).1.work + (w.askSlots me t).2.work HostCall.work ≤ w.work + (HostCall.queued t).work := by
  unfold askSlots
  dsimp only
  split
  · exact Nat.le_of_lt (performSlotTask_work { w with slots := { w.slots with lock := w.slots.lock.request me } } ht)
  · exact Nat.le_refl _

theorem startHost_work (w : World) (me : JobId) (request : HostRequest) :
    (w.startHost me request).1.work + (w.startHost me request).2.work HostCall.work <
      w.work + (HostCall.starting request).work := by
  -- asking takes one step less than the request
  have asks {w' : World} {t : SlotTask} (ht : t.HasAttempt) (hw : w'.work = w.work)
      (hless : (HostCall.queued t).work < (HostCall.starting request).work) :
      (w'.askSlots me t).1.work + (w'.askSlots me t).2.work HostCall.work < w.work + (HostCall.starting request).work :=
    Nat.lt_of_le_of_lt (w'.askSlots_work me ht) (hw ▸ Nat.add_lt_add_left hless _)
  unfold startHost
  cases request with
  | setSlices slices =>
    refine asks trivial rfl ?_
    have := Slice.length_sortedSet_le slices
    simp only [HostCall.work, Slots.wantedWork, Slots.liveWork]
    omega
  | activate slices active =>
    refine asks trivial rfl ?_
    have := Slice.length_sortedSet_le (slices ++ [active])
    rw [List.length_append, List.length_singleton] at this
    simp only [HostCall.work, Slots.wantedWork, Slots.liveWork]
    omega
  | handles => exact asks trivial rfl (Nat.lt_succ_self 5)
  | activeHandle =>
    dsimp only
    split
    · exact Nat.lt_add_of_pos_right (Nat.zero_lt_succ _)
    · exact asks trivial rfl (Nat.lt_succ_self 5)
  | writeActive mutations attempts =>
    dsimp only
    split
    · exact Nat.lt_add_of_pos_right (Nat.add_pos_left (by decide) _)
    · rename_i hattempts
      split
      · exact Nat.lt_add_of_pos_right (Nat.add_pos_left (by decide) _)
      · exact asks (Nat.pos_of_ne_zero hattempts) rfl (Nat.lt_add_of_pos_left Nat.zero_lt_two)
  | shutdown => exact asks trivial rfl (Nat.lt_succ_self 5)

theorem advanceHost_work {c : HostCall} (hc : ∀ t, c = .queued t → t.HasAttempt) (hs : w.isHostStuck env me c = false) :
    (w.advanceHost env me c).1.work + (w.advanceHost env me c).2.work HostCall.work < w.work + c.work := by
  unfold isHostStuck at hs
  unfold advanceHost
  cases c with
  | starting request => exact w.startHost_work me request
  | queued t =>
    have hheld : w.slots.lock.isHeldBy me = true := by simpa using hs
    simp only [hheld, if_true]
    exact w.performSlotTask_work (hc t rfl)
  | creating r =>
    dsimp only
    cases hw : r.wanted with
    | nil =>
      have hsame : w.unlockSlots.work = w.work := rfl
      simp only [hsame, Onward.work, HostCall.work, hw, List.length_nil]
      omega
    | cons slice rest =>
      dsimp only
      have hcost : (HostCall.creating r).work = (HostCall.creating { r with wanted := rest }).work + 24 := by
        simp only [HostCall.work, Slots.wantedWork, Slots.liveWork, hw, List.length_cons]
        omega
      rw [hcost]
      split
      · exact Nat.add_lt_add_left (Nat.lt_add_of_pos_right (by decide)) _
      · split
        · simp only [Onward.work, work_eq, HostCall.work, Call.work, Call.start, Slots.liveWork, Slots.wantedWork]
          omega
        · have := w.createWanted_work env { r with wanted := rest } slice
          simp only [Slots.liveWork] at this ⊢
          omega
  | evicting r slice i call =>
    have hcall := advanceCall_work hs
    dsimp only at hs ⊢
    generalize w.advanceCall env me i call = a at hcall ⊢
    obtain ⟨w', call' | result⟩ := a
    · simp only [Onward.work, HostCall.work] at hcall ⊢
      omega
    · have := w'.createWanted_work env r slice
      simp only [HostCall.work, Slots.liveWork] at hcall this ⊢
      omega
  | retiring r =>
    dsimp only
    split
    · exact Nat.lt_add_of_pos_right (Nat.add_pos_left Nat.zero_lt_two _)
    · rename_i i rest hr
      simp only [Onward.work, HostCall.work, hr, List.length_cons, beginRetirement, Retirement.work, Call.work, Call.start,
        Slots.liveWork]
      omega
  | disposing r i retirement =>
    have hretirement := advanceRetirement_work hs
    dsimp only at hs ⊢
    generalize w.advanceRetirement env me i retirement = a at hretirement ⊢
    obtain ⟨w', retirement' | exit⟩ := a
    · simp only [Onward.work, HostCall.work] at hretirement ⊢
      omega
    · have := w'.askSlots_work me (t := .forget i r.cause r.retired r.error) trivial
      simp only [HostCall.work] at hretirement this ⊢
      omega
  | writing mutations attempts i call =>
    have hcall := advanceCall_work hs
    have hpos := call.work_pos
    dsimp only at hs ⊢
    generalize w.advanceCall env me i call = a at hcall ⊢
    obtain ⟨w', call' | (error | answer)⟩ := a
    · simp only [Onward.work, HostCall.work] at hcall ⊢
      omega
    · dsimp only
      split <;> simp only [Onward.work, HostCall.work] at hcall ⊢ <;> omega
    · cases answer <;> simp only [Onward.work, HostCall.work] at hcall ⊢ <;> omega
  | draining rest =>
    dsimp only
    split
    · exact Nat.lt_add_of_pos_right (Nat.add_pos_left Nat.zero_lt_two _)
    · simp only [Onward.work, HostCall.work, List.length_cons, beginRetirement, Retirement.work, Call.work, Call.start,
        Slots.liveWork]
      omega
  | closing rest i retirement =>
    have hretirement := advanceRetirement_work hs
    dsimp only at hs ⊢
    generalize w.advanceRetirement env me i retirement = a at hretirement ⊢
    obtain ⟨w', retirement' | exit⟩ := a <;> simp only [Onward.work, HostCall.work] at hretirement ⊢ <;> omega

/-- What comes of a step of a job that is not stuck leaves less to do. -/
theorem advanceJob_work {job : Job} (hf : job.Fit) (hs : w.isJobStuck env me job = false) :
    (w.advanceJob env me job).1.work + (w.advanceJob env me job).2.work jobWork < w.work + jobWork job := by
  unfold isJobStuck at hs
  cases job with
  | call i c =>
    obtain ⟨hsame, hless⟩ := advanceCall_work hs
    rw [advanceJob_call, Onward.work_bimap]
    exact Nat.add_lt_add_of_le_of_lt (Nat.le_of_eq hsame) hless
  | retire i r =>
    obtain ⟨hsame, hless⟩ := advanceRetirement_work hs
    rw [advanceJob_retire, Onward.work_bimap]
    exact Nat.add_lt_add_of_le_of_lt (Nat.le_of_eq hsame) hless
  | drive d =>
    rw [advanceJob_drive, Onward.work_bimap]
    exact advanceDriver_work hs
  | send s =>
    rw [advanceJob_send, Onward.work_bimap]
    exact advanceSending_work hf hs
  | host c =>
    rw [advanceJob_host, Onward.work_bimap]
    exact advanceHost_work (fun t ht => by subst ht; exact hf) hs

theorem advanceHost_fit {c c' : HostCall} (hf : (Job.host c).Fit) (h : (w.advanceHost env me c).2 = .going c') :
    (Job.host c').Fit := by
  have asked {active : Option Slice} {request : HostRequest} {t : SlotTask} (h : request.task active = .ok t) :
      t.HasAttempt := by
    unfold HostRequest.task at h
    cases request with
    | writeActive mutations attempts =>
      dsimp only at h
      split at h
      · cases h
      · rename_i hattempts
        split at h <;> cases h
        exact Nat.pos_of_ne_zero hattempts
    | activeHandle =>
      dsimp only at h
      split at h <;> cases h
      trivial
    | _ =>
      cases h
      trivial
  obtain ⟨step, hpaths, hcomes⟩ := w.advanceHost_paths env me c
  rw [hcomes.onward] at h
  cases hpaths with
  | queues ha hl =>
    cases h
    cases ha with
    | starts ht => exact asked ht
    | returns => trivial
  | waits hl =>
    cases h
    exact hf
  | performs hs hp =>
    cases hp <;> cases h
    all_goals trivial
  | walks hc =>
    cases h
    cases hc <;> trivial
  | ends => cases h
  | _ =>
    cases h
    trivial

/-- A job that goes on stands where jobs can get to. -/
theorem advanceJob_fit {job job' : Job} (hf : job.Fit) (h : (w.advanceJob env me job).2 = .going job') : job'.Fit := by
  cases job with
  | call i c =>
    rw [advanceJob_call] at h
    obtain ⟨_, -, rfl⟩ := Onward.bimap_eq_going_iff.1 h
    trivial
  | retire i r =>
    rw [advanceJob_retire] at h
    obtain ⟨_, -, rfl⟩ := Onward.bimap_eq_going_iff.1 h
    trivial
  | drive d =>
    rw [advanceJob_drive] at h
    obtain ⟨_, -, rfl⟩ := Onward.bimap_eq_going_iff.1 h
    trivial
  | send s =>
    rw [advanceJob_send] at h
    obtain ⟨s', hg, rfl⟩ := Onward.bimap_eq_going_iff.1 h
    unfold advanceSending at hg
    split at hg
    · cases hg
    · rename_i u rest hp
      split at hg
      · cases hg
        nofun
      · cases hg
      · split at hg <;> cases hg
        · exact hf
        · exact fun _ => by simp [hp]
  | host c =>
    rw [advanceJob_host] at h
    obtain ⟨c', hg, rfl⟩ := Onward.bimap_eq_going_iff.1 h
    exact advanceHost_fit hf hg

/-- Jobs have numbers of their own and stand where jobs can get to. -/
structure Fit (w : World) : Prop where
  nodup : (w.jobs.map (·.1)).Nodup
  fresh : ∀ e ∈ w.jobs, e.1 < w.nextJob
  jobs : ∀ e ∈ w.jobs, e.2.Fit

theorem fit_initial (setup : Setup) : (initial setup).Fit :=
  ⟨List.nodup_nil, fun _ h => absurd h List.not_mem_nil, fun _ h => absurd h List.not_mem_nil⟩

theorem Fit.keeps (h : w.Fit) : w.Keeps (freely w.setup) := ⟨rfl, h.fresh, fun _ _ _ => trivial⟩

theorem Fit.spawn (h : w.Fit) {job : Job} (hj : job.Fit) : (w.spawn job).Fit := by
  refine ⟨?_, ?_, ?_⟩
  · show ((w.jobs ++ [(w.nextJob, job)]).map (·.1)).Nodup
    rw [List.map_append, List.nodup_append]
    refine ⟨h.nodup, by simp, fun me hme other hother => ?_⟩
    obtain ⟨e, he, rfl⟩ := List.mem_map.1 hme
    rw [List.mem_singleton.1 hother]
    exact Nat.ne_of_lt (h.fresh e he)
  · intro e he
    rcases List.mem_append.1 he with he | he
    · exact Nat.lt_succ_of_lt (h.fresh e he)
    · rw [List.mem_singleton.1 he]
      exact Nat.lt_succ_self _
  · intro e he
    rcases List.mem_append.1 he with he | he
    · exact h.jobs e he
    · rw [List.mem_singleton.1 he]
      exact hj

theorem Fit.grows (h : w.Fit) (hg : Grows w w') : w'.Fit := by
  rcases hg.jobs with ⟨hj, hn⟩ | ⟨d, -, hj, hn⟩
  · exact ⟨hj ▸ h.nodup, fun e he => hn ▸ h.fresh e (hj ▸ he), fun e he => h.jobs e (hj ▸ he)⟩
  · obtain ⟨hnodup, hfresh, hjobs⟩ := h.spawn (show (Job.drive d).Fit from trivial)
    exact ⟨hj ▸ hnodup, hj ▸ hn ▸ hfresh, hj ▸ hjobs⟩

variable {job : Job}

/-- A step leaves jobs where jobs can get to. -/
theorem Fit.advance (h : w.Fit) (env : Environment) (me : JobId) : (w.advance env me).Fit := by
  cases hj : w.job? me with
  | none => rwa [advance_of_none hj]
  | some job =>
    have hg := advanceJob_grows h.keeps (show (freely w.setup).fits env from trivial) hj
    have hw := h.grows hg
    obtain ⟨jobs, outcomes, hadvance⟩ := advance_eq env hj
    have hnext : (w.advance env me).nextJob = (w.advanceJob env me job).1.nextJob := by rw [hadvance]
    refine ⟨nodup_jobs_advance hj hw.nodup, fun e he => hnext ▸ ?_, fun e he => ?_⟩
    · obtain he | ⟨job', -, rfl⟩ := mem_jobs_advance hj he
      · exact hw.fresh e he
      · exact hw.fresh (me, job) (job?_mem (hg.job? hj))
    · obtain he | ⟨job', hgoing, rfl⟩ := mem_jobs_advance hj he
      · exact hw.jobs e he
      · exact advanceJob_fit (h.jobs _ (job?_mem hj)) hgoing

/-- A step of a job that can take one leaves less to do. -/
theorem advance_work (h : w.Fit) (hc : w.canAdvance env me = true) : (w.advance env me).work < w.work := by
  unfold canAdvance at hc
  cases hj : w.job? me with
  | none => simp [hj] at hc
  | some job =>
    rw [hj] at hc
    have hless := advanceJob_work (h.jobs _ (job?_mem hj)) (by simpa using hc)
    have hg := advanceJob_grows h.keeps (show (freely w.setup).fits env from trivial) hj
    have hw := h.grows hg
    have hme := job?_mem (hg.job? hj)
    unfold World.advance
    rw [hj]
    dsimp only
    generalize w.advanceJob env me job = r at hw hme hless ⊢
    obtain ⟨w', job' | outcome⟩ := r
    · have := total_replace (f := jobWork) hw.nodup hme job'
      simp only [Onward.work, work_eq] at hless this ⊢
      omega
    · have := total_filter (f := jobWork) hw.nodup hme
      simp only [Onward.work, work_eq] at hless this ⊢
      omega

end World

end SliceSync
