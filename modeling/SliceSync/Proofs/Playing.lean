import Mathlib.Data.List.Nodup
import Mathlib.Data.List.Pairwise
import SliceSync.Proofs.Opening
import SliceSync.Proofs.Scripts
/-!
# Every script has its lane

Once the workspaces are made the scripts are fed: each gets a sender, with which its streams end
(`Source.close_sender`). The lanes of the scripts have nothing in common (`Scenario.lanes_among`), and whoever can take a
step takes it in a lane. So while others are still to be fed the lanes go on by themselves, in whatever order their jobs
are taken ahead (`World.Plays.moves`, `World.Fed.advance`).
-/

namespace SliceSync

open Event (tellings creations)

/-- A sender that comes just before a feed closes leaves the streams as they were. -/
theorem Source.close_sender {s : Source} {slice : Slice} {i : Nat} (h : s.feeds.get? slice = some ⟨i, true⟩) :
    (s.sender slice).2 = i ∧ (s.sender slice).1.close slice = { s with feeds := s.feeds.erase slice } := by
  have hsender : s.sender slice = (s.addSender i, i) := by simp only [sender, h]
  rw [hsender]
  refine ⟨rfl, ?_⟩
  have hfeed : (s.addSender i).feeds.get? slice = some ⟨i, true⟩ := h
  unfold close
  rw [hfeed]
  simp only [if_true, dropSender, addSender, modifyPair, List.modify_modify_eq]
  exact congrArg (fun pairs => { s with feeds := s.feeds.erase slice, pairs }) (List.modify_id i s.pairs)

/-! ## The lanes of a scenario -/

namespace Lane

variable {l l' : Lane}

theorem Apart.symm (h : l.Apart l') : l'.Apart l :=
  ⟨h.place.symm, h.sender.symm, ⟨h.driver.2.symm, h.driver.1.symm⟩, h.tag.symm, fun id hid hid' => h.contextId id hid' hid⟩

/-- Lanes on workspaces in so many places, that have nothing in common. -/
structure Among (lanes : List Lane) (size : Nat) : Prop where
  place : ∀ l ∈ lanes, l.place < size
  /-- Senders begin when all drivers have. -/
  sender : ∀ l ∈ lanes, size < l.sender
  project : ∀ l ∈ lanes, ∀ u ∈ l.updates, u.project = l.project
  apart : lanes.Pairwise Apart

theorem Among.take {lanes : List Lane} {size : Nat} (h : Among lanes size) (k : Nat) : Among (lanes.take k) size where
  place := fun l hl => h.place l (List.mem_of_mem_take hl)
  sender := fun l hl => h.sender l (List.mem_of_mem_take hl)
  project := fun l hl => h.project l (List.mem_of_mem_take hl)
  apart := h.apart.sublist (List.take_sublist k lanes)

theorem Among.apart_of_ne {lanes : List Lane} {size : Nat} (h : Among lanes size) (hl : l ∈ lanes) (hl' : l' ∈ lanes)
    (hne : l ≠ l') : l.Apart l' := by
  have : Std.Symm Apart := ⟨fun _ _ => Apart.symm⟩
  exact h.apart.forall hl hl' hne

end Lane

namespace Scenario

variable (scenario : Scenario) (slices : List Slice) {script : Script} {k : Nat}

/-- The lane of a script: workspaces stand in the order of their slices, senders begin in the order of the scripts. -/
def lane (k : Nat) (script : Script) : Lane where
  place := slices.idxOf script.slice
  sender := slices.length + 1 + k
  project := scenario.configured script.slice
  updates := script.updates (scenario.configured script.slice)

def lanes : List Lane := scenario.scripts.mapIdx (scenario.lane slices)

/-- The id of the context that a script makes, if it makes one. -/
def contextId? (script : Script) : Option ContextId :=
  ((firstEvaluation? (script.updates (scenario.configured script.slice))).bind (·.creationParams.toOption)).map (·.id)

/-- A scenario that lists each slice once: its slices are displayed differently, and its contexts have different ids. -/
structure Distinct : Prop where
  slices : (scenario.scripts.map (·.slice.display)).Nodup
  contexts : (scenario.scripts.filterMap scenario.contextId?).Nodup

variable {scenario slices}

theorem Distinct.nodup (hd : scenario.Distinct) : (scenario.scripts.map (·.slice)).Nodup := by
  refine List.Nodup.of_map Slice.display ?_
  rw [List.map_map]
  exact hd.slices

theorem drop_eq_cons (hk : scenario.scripts[k]? = some script) :
    scenario.scripts.drop k = script :: scenario.scripts.drop (k + 1) := by
  obtain ⟨hlt, rfl⟩ := List.getElem?_eq_some_iff.1 hk
  exact List.drop_eq_getElem_cons hlt

/-- The slices of the scripts to come are other slices. -/
theorem Distinct.others (hd : scenario.Distinct) (hk : scenario.scripts[k]? = some script) :
    ∀ other ∈ scenario.scripts.drop (k + 1), script.slice ≠ other.slice := by
  have hnodup := hd.nodup.sublist ((List.drop_sublist k scenario.scripts).map (·.slice))
  rw [drop_eq_cons hk, List.map_cons, List.nodup_cons] at hnodup
  exact fun other hother heq => hnodup.1 (heq ▸ List.mem_map_of_mem hother)

theorem mem_lanes {l : Lane} :
    l ∈ scenario.lanes slices ↔ ∃ k script, scenario.scripts[k]? = some script ∧ scenario.lane slices k script = l := by
  unfold lanes
  rw [List.mem_iff_getElem?]
  simp only [List.getElem?_mapIdx, Option.map_eq_some_iff]

theorem lanes_length : (scenario.lanes slices).length = scenario.scripts.length := List.length_mapIdx

theorem lanes_take_succ (hk : scenario.scripts[k]? = some script) : (scenario.lanes slices).take (k + 1) =
    (scenario.lanes slices).take k ++ [scenario.lane slices k script] := by
  rw [List.take_add_one, lanes, List.getElem?_mapIdx, hk]
  rfl

theorem lane_mem (hk : scenario.scripts[k]? = some script) : scenario.lane slices k script ∈ scenario.lanes slices :=
  mem_lanes.2 ⟨k, script, hk, rfl⟩

/-- Two scripts of a scenario that lists each slice once have lanes with nothing in common. -/
theorem lanes_among (hd : scenario.Distinct) (hin : ∀ script ∈ scenario.scripts, script.slice ∈ slices) :
    Lane.Among (scenario.lanes slices) slices.length where
  place := by
    intro l hl
    obtain ⟨k, script, hk, rfl⟩ := mem_lanes.1 hl
    exact List.idxOf_lt_length_iff.2 (hin script (List.mem_of_getElem? hk))
  sender := by
    intro l hl
    obtain ⟨k, script, -, rfl⟩ := mem_lanes.1 hl
    exact Nat.lt_of_lt_of_le (Nat.lt_succ_self _) (Nat.le_add_right _ _)
  project := by
    intro l hl
    obtain ⟨k, script, -, rfl⟩ := mem_lanes.1 hl
    exact script.updates_project _
  apart := by
    unfold lanes
    refine List.pairwise_iff_getElem.2 fun i j hi hj hij => ?_
    rw [List.length_mapIdx] at hi hj
    rw [List.getElem_mapIdx, List.getElem_mapIdx]
    have hdisplay : scenario.scripts[i].slice.display ≠ scenario.scripts[j].slice.display :=
      List.pairwise_iff_getElem.1 (List.pairwise_map.1 hd.slices) i j hi hj hij
    have hcontext := List.pairwise_iff_getElem.1 (List.pairwise_filterMap.1 hd.contexts) i j hi hj hij
    have hplace {k : Nat} (hk : k < scenario.scripts.length) (k' : Nat) :
        (scenario.lane slices k' scenario.scripts[k]).place < slices.length :=
      List.idxOf_lt_length_iff.2 (hin _ (List.getElem_mem hk))
    refine ⟨fun h => hdisplay ?_, fun h => ?_, ⟨fun h => ?_, fun h => ?_⟩, fun h => hdisplay ?_, fun id hid hid' => ?_⟩
    · rw [(List.idxOf_inj (hin _ (List.getElem_mem hi))).1 h]
    · exact absurd (Nat.add_left_cancel h) (Nat.ne_of_lt hij)
    · have hlt : slices.idxOf scenario.scripts[i].slice < slices.length := hplace hi i
      have heq : slices.idxOf scenario.scripts[i].slice + 1 = slices.length + 1 + j := h
      omega
    · have hlt : slices.idxOf scenario.scripts[j].slice < slices.length := hplace hj j
      have heq : slices.length + 1 + i = slices.idxOf scenario.scripts[j].slice + 1 := h
      omega
    · exact (String.append_right_inj _).1 ((String.append_left_inj _).1 h)
    · exact hcontext id hid id hid' rfl

end Scenario

/-! ## All lanes together -/

namespace World

/-- A world in which lanes follow their scripts. Besides them there are only drivers that wait, and what has been told or
created is the lanes' own. -/
structure Plays (w : World) (settings : Settings) (size : Nat) (lanes : List Lane) : Prop where
  setup : w.setup = { settings }
  capacity : w.source.capacity = max settings.updateChannelCapacity 1
  follows : ∀ l ∈ lanes, l.Follows (w.outlook l)
  idle : ∀ i < size, (∀ l ∈ lanes, l.place ≠ i) → w.Idle i
  jobs : ∀ me, (w.job? me).isSome →
    (∃ l ∈ lanes, me = l.driver ∨ me = l.sender) ∨ ∃ i < size, me = i + 1 ∧ ∀ l ∈ lanes, l.place ≠ i
  ids : ∀ id ∈ w.session.live, ∃ l ∈ lanes, l.contextId? = some id
  tells : ∀ owner ∈ tellings w.events, ∃ l ∈ lanes, owner = l.tag
  creates : ∀ c ∈ creations w.events, ∃ l ∈ lanes, l.contextId? = some c.2.id

variable {w w' : World} {scenario : Scenario} {settings : Settings} {slices wanted : List Slice} {script : Script}
  {size k : Nat} {lanes lanes' : List Lane} {l : Lane} {me : JobId}

/-- Something is done in one lane, which may be a new one. -/
theorem Plays.inside (h : w.Plays settings size lanes) (ha : Lane.Among lanes' size) (hl : l ∈ lanes')
    (hold : ∀ l' ∈ lanes, l' ∈ lanes') (hnew : ∀ l' ∈ lanes', l' = l ∨ l' ∈ lanes) (hf : l.Follows (w'.outlook l))
    (hi : l.Inside w w') : w'.Plays settings size lanes' := by
  obtain ⟨events, hevents, ⟨more, hlive, hmore⟩, htells, hcreates⟩ := hi.keeps
  refine
    { setup := hi.setup.trans h.setup
      capacity := hi.capacity.trans h.capacity
      follows := fun l' hl' => ?_
      idle := fun i hsize hfree => ?_
      jobs := fun me hme => ?_
      ids := fun id hid => ?_
      tells := fun owner ho => ?_
      creates := fun c hc => ?_ }
  · by_cases hne : l = l'
    · exact hne ▸ hf
    · rw [hi.outlook (ha.apart_of_ne hl hl' hne)]
      exact h.follows l' ((hnew l' hl').resolve_left (Ne.symm hne))
  · have hplace := (hfree l hl).symm
    have hdriver : i + 1 ≠ l.driver := fun heq => hplace (Nat.succ.inj heq)
    have hsender : i + 1 ≠ l.sender := Nat.ne_of_lt (Nat.lt_of_le_of_lt (Nat.succ_le_of_lt hsize) (ha.sender l hl))
    obtain ⟨hdrives, hworkspace, hexit, hpair⟩ := h.idle i hsize fun l' hl' => hfree l' (hold l' hl')
    exact ⟨by rwa [hi.jobs _ hdriver hsender], by rwa [workspace?, hi.hosted i hplace], by rwa [exitOf, hi.hosted i hplace],
      by rwa [hi.pairs i hplace]⟩
  · by_cases hme' : me = l.driver ∨ me = l.sender
    · exact .inl ⟨l, hl, hme'⟩
    · rw [not_or] at hme'
      rw [hi.jobs me hme'.1 hme'.2] at hme
      rcases h.jobs me hme with ⟨l', hl', hme''⟩ | ⟨i, hsize, rfl, hfree⟩
      · exact .inl ⟨l', hold l' hl', hme''⟩
      · refine .inr ⟨i, hsize, rfl, fun l' hl' => ?_⟩
        rcases hnew l' hl' with rfl | hl'
        · exact fun heq => hme'.1 (congrArg (· + 1) heq.symm)
        · exact hfree l' hl'
  · rw [hlive, List.mem_append] at hid
    rcases hid with hid | hid
    · obtain ⟨l', hl', hid⟩ := h.ids id hid
      exact ⟨l', hold l' hl', hid⟩
    · exact ⟨l, hl, hmore id hid⟩
  · rw [hevents, Event.tellings_append, List.mem_append] at ho
    rcases ho with ho | ho
    · obtain ⟨l', hl', ho⟩ := h.tells owner ho
      exact ⟨l', hold l' hl', ho⟩
    · exact ⟨l, hl, htells owner ho⟩
  · rw [hevents, Event.creations_append, List.mem_append] at hc
    rcases hc with hc | hc
    · obtain ⟨l', hl', hc⟩ := h.creates c hc
      exact ⟨l', hold l' hl', hc⟩
    · exact ⟨l, hl, hcreates c hc⟩

/-- Whoever can go on does so in a lane. -/
theorem Plays.moves (h : w.Plays settings size lanes) (ha : Lane.Among lanes size) (hf : w.Fit)
    (hc : w.canAdvance {} me = true) :
    ∃ l ∈ lanes, (me = l.driver ∨ me = l.sender) ∧ l.Follows ((w.advance {} me).outlook l) ∧
      l.Alone w (w.advance {} me) := by
  rcases h.jobs me (job?_isSome_of_canAdvance hc) with ⟨l, hl, hme⟩ | ⟨i, hi, rfl, hfree⟩
  · have hne : l.sender ≠ l.driver :=
      Nat.ne_of_gt (Nat.lt_of_le_of_lt (Nat.succ_le_of_lt (ha.place l hl)) (ha.sender l hl))
    have hfollows := h.follows l hl
    refine ⟨l, hl, hme, ?_⟩
    rcases hme with rfl | rfl
    · refine hfollows.drive hf ?_ ?_ (ha.project l hl) hne
      · rw [h.setup]
      · rw [h.setup]
    · refine hfollows.send hf ?_ hne
      rw [h.capacity]
      exact Nat.lt_of_lt_of_le Nat.zero_lt_one (Nat.le_max_right _ _)
  · rw [(h.idle i hi hfree).canAdvance] at hc
    cases hc

/-! ## Scripts are fed -/

/-- A place at which nothing has happened yet, with a sender that has just begun. -/
theorem Idle.follows (h : w.Idle l.place) (hf : w.Fit) (hs : l.sender = w.nextJob) (hne : l.sender ≠ l.driver)
    (hknown : l.knownIn w.session = false) (htold : (tellings w.events).count l.tag = 0) (hmade : l.madeIn w.events = [])
    (feeds : Listing Slice Feed) :
    l.Follows (outlook (spawn { w with source := { w.source with feeds } }
      (.send { pair := l.place, pending := l.updates })) l) := by
  obtain ⟨⟨threshold, hdriver⟩, ⟨slice, hworkspace⟩, hexit, hpair⟩ := h
  have hjob : (spawn { w with source := { w.source with feeds } }
      (.send { pair := l.place, pending := l.updates })).job? =
        Function.update w.job? w.nextJob (some (.send { pair := l.place, pending := l.updates })) :=
    job?_spawn hf.fresh _
  have hlook : outlook (spawn { w with source := { w.source with feeds } }
      (.send { pair := l.place, pending := l.updates })) l =
      { w.outlook l with sender := some (.send { pair := l.place, pending := l.updates }) } := by
    unfold outlook
    rw [hjob, hs, Function.update_self, Function.update_of_ne (hs ▸ hne.symm)]
    rfl
  have hdriver : w.job? l.driver = _ := hdriver
  rw [hlook, outlook, hworkspace, hexit, hpair, hdriver, hknown, htold, hmade]
  exact @Lane.Follows.working _ _ _ (some { pair := l.place, pending := l.updates }) _ _ [] [] []
    { workspace := rfl
      exit := rfl
      driver := rfl
      home := ⟨rfl, rfl⟩
      sender := rfl
      sends := fun s hs => by
        cases hs
        rfl
      pair := rfl
      followed := rfl
      senders := fun kind => by cases kind <;> rfl
      queues := fun kind => .free (fun s hs hw => by
        cases hs
        cases hw.1) (by cases kind <;> rfl) (by cases kind <;> rfl)
      closed := fun kind hk => by cases kind <;> cases hk
      flow := fun kind => by cases kind <;> rfl
      passes := ⟨threshold, rfl, rfl⟩
      hands := .rests (.fresh rfl rfl rfl rfl)
      told := rfl }

/-- One more lane begins. -/
theorem Plays.begins (h : w.Plays settings size lanes) (ha : Lane.Among (lanes ++ [l]) size) (hf : w.Fit)
    (hs : l.sender = w.nextJob) (feeds : Listing Slice Feed) :
    (spawn { w with source := { w.source with feeds } } (.send { pair := l.place, pending := l.updates })).Plays settings size
      (lanes ++ [l]) := by
  have hl : l ∈ lanes ++ [l] := List.mem_append_right _ (List.mem_singleton_self l)
  have hold : ∀ l' ∈ lanes, l' ∈ lanes ++ [l] := fun _ => List.mem_append_left _
  have hapart : ∀ l' ∈ lanes, l'.Apart l := fun l' hl' =>
    (List.pairwise_append.1 ha.apart).2.2 l' hl' l (List.mem_singleton_self l)
  have hidle := h.idle l.place (ha.place l hl) fun l' hl' => (hapart l' hl').place
  have hne : l.sender ≠ l.driver :=
    Nat.ne_of_gt (Nat.lt_of_le_of_lt (Nat.succ_le_of_lt (ha.place l hl)) (ha.sender l hl))
  -- what has been told and created so far is of other lanes
  have hknown : l.knownIn w.session = false := by
    unfold Lane.knownIn
    cases hid : l.contextId? with
    | none => rfl
    | some id =>
      have hnot : id ∉ w.session.live := fun hin => by
        obtain ⟨l', hl', hid'⟩ := h.ids id hin
        exact (hapart l' hl').contextId id hid' hid
      simpa [Session.isLive] using hnot
  have htold : (tellings w.events).count l.tag = 0 := List.count_eq_zero.2 fun hin => by
    obtain ⟨l', hl', htag⟩ := h.tells _ hin
    exact (hapart l' hl').tag htag.symm
  have hmade : l.madeIn w.events = [] := List.filter_eq_nil_iff.2 fun c hc => by
    obtain ⟨l', hl', hid⟩ := h.creates c hc
    simpa using (hapart l' hl').contextId _ hid
  have hjob : (spawn { w with source := { w.source with feeds } }
      (.send { pair := l.place, pending := l.updates })).job? =
        Function.update w.job? w.nextJob (some (.send { pair := l.place, pending := l.updates })) :=
    job?_spawn hf.fresh _
  refine h.inside ha hl hold (fun l' hl' => ?_) (hidle.follows hf hs hne hknown htold hmade feeds)
    { setup := rfl
      capacity := rfl
      hosted := fun _ _ => rfl
      claims := fun _ => rfl
      pairs := fun _ _ => rfl
      jobs := fun me _ hme => by rw [hjob, Function.update_of_ne (hs ▸ hme)]
      keeps := ⟨[], (List.append_nil _).symm, Lane.keeps_silent (by simp) rfl⟩ }
  exact (List.mem_append.1 hl').symm.imp_left List.mem_singleton.1

/-- A world in which so many of a scenario's scripts have been fed, and their lanes go on. -/
structure Fed (w : World) (scenario : Scenario) (settings : Settings) (slices : List Slice) (k : Nat) : Prop extends
    w.Plays settings slices.length ((scenario.lanes slices).take k) where
  live : ∀ slice i, w.slots.live.get? slice = some i ↔ slices[i]? = some slice
  lock : w.slots.lock = {}
  nextJob : w.nextJob = slices.length + 1 + k
  feeds : ∀ script ∈ scenario.scripts.drop k, w.source.feeds.get? script.slice = some ⟨slices.idxOf script.slice, true⟩
  within : ∀ script ∈ scenario.scripts, script.slice ∈ slices

theorem Fed.among (h : w.Fed scenario settings slices k) (hd : scenario.Distinct) :
    Lane.Among (scenario.lanes slices) slices.length :=
  Scenario.lanes_among hd h.within

/-- The place of a script's slice is live. -/
theorem Fed.live_idxOf (h : w.Fed scenario settings slices k) (hin : script ∈ scenario.scripts) :
    w.slots.live.get? script.slice = some (slices.idxOf script.slice) :=
  (h.live _ _).2 (List.getElem?_idxOf (h.within script hin))

/-- When the host has taken the slices no script has been fed yet. -/
theorem Opening.fed {outcome : Outcome} (h : w.Opening settings scenario.wanted slices) (hf : w.Fit)
    (ho : w.outcome? 0 = some outcome) : w.Fed scenario settings slices 0 := by
  obtain ⟨-, hgone, hlock, hall⟩ := h.returned ho
  have hwithin : ∀ script ∈ scenario.scripts, script.slice ∈ slices := fun script hscript =>
    hall _ (List.mem_append_left _ (List.mem_map_of_mem hscript))
  have hevents : w.events = [] := by rw [events, h.log, List.map_nil]
  exact
    { setup := h.setup
      capacity := h.capacity
      follows := fun l hl => absurd hl List.not_mem_nil
      idle := fun i hi _ => h.toHosts.idle hi
      jobs := fun me hme => by
        obtain ⟨job, hj⟩ := Option.isSome_iff_exists.1 hme
        have hlt := job?_lt hf.fresh hj
        rw [h.nextJob] at hlt
        cases me with
        | zero => cases hj.symm.trans hgone
        | succ i => exact .inr ⟨i, Nat.lt_of_succ_lt_succ hlt, rfl, fun l hl => absurd hl List.not_mem_nil⟩
      ids := by simp [h.ids]
      tells := by simp [hevents]
      creates := by simp [hevents]
      live := h.live
      lock := hlock
      nextJob := h.nextJob
      feeds := fun script hscript => by
        have hin := hwithin script (List.mem_of_mem_drop hscript)
        rw [h.feeds, (h.live _ _).2 (List.getElem?_idxOf hin)]
        rfl
      within := hwithin }

/-- Whoever can go on does so in a lane, while other scripts are still to be fed. -/
theorem Fed.advance (h : w.Fed scenario settings slices k) (hd : scenario.Distinct) (hf : w.Fit)
    (hc : w.canAdvance {} me = true) :
    (w.advance {} me).Fed scenario settings slices k ∧
      ∃ l ∈ (scenario.lanes slices).take k, (me = l.driver ∨ me = l.sender) ∧ l.Alone w (w.advance {} me) := by
  have ha := (h.among hd).take k
  obtain ⟨l, hl, hme, hfollows, halone⟩ := h.toPlays.moves ha hf hc
  refine ⟨?_, l, hl, hme, halone⟩
  exact
    { toPlays := h.toPlays.inside ha hl (fun _ => id) (fun _ => .inr) hfollows halone.toInside
      live := halone.slots.symm ▸ h.live
      lock := halone.slots.symm ▸ h.lock
      nextJob := halone.nextJob.trans h.nextJob
      feeds := halone.feeds.symm ▸ h.feeds
      within := h.within }

/-- One more script is fed. -/
theorem Fed.feed (h : w.Fed scenario settings slices k) (hd : scenario.Distinct) (hf : w.Fit)
    (hk : scenario.scripts[k]? = some script) :
    scenario.feed w script = spawn { w with source := { w.source with feeds := w.source.feeds.erase script.slice } }
      (.send { pair := slices.idxOf script.slice, pending := script.updates (scenario.configured script.slice) }) ∧
      (scenario.feed w script).Fed scenario settings slices (k + 1) := by
  have hdrop := Scenario.drop_eq_cons hk
  have hfeed := h.feeds script (hdrop ▸ List.mem_cons_self)
  obtain ⟨hpair, hsource⟩ := Source.close_sender hfeed
  have hfed : scenario.feed w script =
      spawn { w with source := { w.source with feeds := w.source.feeds.erase script.slice } }
        (.send { pair := slices.idxOf script.slice, pending := script.updates (scenario.configured script.slice) }) := by
    unfold Scenario.feed
    dsimp only
    rw [hpair, hsource]
  have hlanes : (scenario.lanes slices).take (k + 1) = _ := Scenario.lanes_take_succ hk
  refine ⟨hfed, ?_⟩
  rw [hfed]
  exact
    { toPlays := hlanes ▸ h.toPlays.begins (hlanes ▸ (h.among hd).take (k + 1)) hf h.nextJob.symm _
      live := h.live
      lock := h.lock
      nextJob := congrArg (· + 1) h.nextJob
      feeds := fun other hother => by
        change (w.source.feeds.erase script.slice).get? other.slice = _
        rw [Listing.get?_erase, if_neg (hd.others hk other hother)]
        exact h.feeds other (hdrop ▸ List.mem_cons_of_mem _ hother)
      within := h.within }

end World

end SliceSync
