import SliceSync.Proofs.Replaying
/-!
# Where a replay can get to

Wherever the replay of a scenario that lists each slice once gets to, it stands at one of a few points
(`Replaying.Stands`): the slices are being hosted, the scripts fed, the senders awaited, the slices asked for one by one,
or the host shut down. Every step of a job leaves the replay at its point (`Replaying.Stands.advance`), and every step of
the routine takes it to the next one (`Replaying.Stands.proceed`). Where no job can go on the routine can
(`Replaying.Stands.goesOn`).
-/

namespace SliceSync

open Event (creations)

/-! ## What a step of the routine leaves to do -/

namespace World

theorem claimExit_work (w : World) (place : Nat) : (w.claimExit place).work = w.work := rfl

/-- With a script that is fed there is no more to do than its sender has. -/
theorem feed_work (scenario : Scenario) (w : World) (script : Script) : (scenario.feed w script).work ≤
    w.work + sendingWork { pair := 0, pending := script.updates (scenario.configured script.slice) } := by
  have hsender := w.source.backlog_sender script.slice
  have hclose := (w.source.sender script.slice).1.backlog_close script.slice
  unfold Scenario.feed
  dsimp only
  rw [spawn_work, work_eq, work_eq]
  simp only [jobWork, sendingWork]
  omega

end World

namespace Replaying

variable {scenario : Scenario} {settings : Settings} {r next : Replaying} {w : World} {slices : List Slice} {script : Script}
  {k : Nat} {out : SliceOutcome} {me : JobId} {l : Lane}

/-! ## Where a replay stands -/

/-- A lane that has come to its end, and what was found out about its slice. -/
structure Found (w : World) (l : Lane) (out : SliceOutcome) : Prop where
  through : l.Over (w.outlook l)
  told : (w.outlook l).found? l.project.slice = some out

/-- All senders are through, and so many slices have been asked for. -/
structure Asks (r : Replaying) (scenario : Scenario) (settings : Settings) (slices : List Slice) (k : Nat) : Prop where
  fed : r.world.Fed scenario settings slices scenario.scripts.length
  sent : ∀ l ∈ scenario.lanes slices, (r.world.outcome? l.sender).isSome
  found : List.Forall₂ (Found r.world) ((scenario.lanes slices).take k) r.outcomes

/-- Where a replay can get to. -/
inductive Stands (scenario : Scenario) (settings : Settings) (r : Replaying) : Prop
  | opening {slices : List Slice} (hr : r.routine = .opening) (hs : r.senders = []) (ho : r.outcomes = [])
      (h : r.world.Opening settings scenario.wanted slices)
  | feeding {slices : List Slice} {k : Nat} (hr : r.routine = .feeding (scenario.scripts.drop k))
      (hs : r.senders = ((scenario.lanes slices).take k).map (·.sender)) (ho : r.outcomes = [])
      (hc : ∀ i, r.world.isClaimed i = false) (hk : k ≤ scenario.scripts.length)
      (h : r.world.Fed scenario settings slices k)
  | sending {slices : List Slice} {senders : List JobId} (hr : r.routine = .sending senders)
      (hall : ∀ me ∈ senders, ∃ l ∈ scenario.lanes slices, l.sender = me)
      (hs : ∀ l ∈ scenario.lanes slices, l.sender ∈ senders ∨ (r.world.outcome? l.sender).isSome) (ho : r.outcomes = [])
      (hc : ∀ i, r.world.isClaimed i = false) (h : r.world.Fed scenario settings slices scenario.scripts.length)
  | asking {slices : List Slice} {k : Nat} (hr : r.routine = .asking ((scenario.scripts.drop k).map (·.slice)))
      (hc : ∀ script ∈ scenario.scripts.drop k, r.world.isClaimed (slices.idxOf script.slice) = false)
      (h : r.Asks scenario settings slices k)
  | joining {slices : List Slice} {k : Nat} {script : Script}
      (hr : r.routine =
        .joining script.slice (slices.idxOf script.slice) ((scenario.scripts.drop (k + 1)).map (·.slice)))
      (hk : scenario.scripts[k]? = some script)
      (hc : ∀ script ∈ scenario.scripts.drop (k + 1), r.world.isClaimed (slices.idxOf script.slice) = false)
      (h : r.Asks scenario settings slices k)
  | closing {slices : List Slice} {me : JobId} {before : World} {todo : List Nat} {held : Option Nat}
      (hr : r.routine = .closing me) (hme : slices.length < me)
      (hcame : List.Forall₂ (fun script out => script.Came before slices.length out) scenario.scripts r.outcomes)
      (h : r.world.WindsUp me slices.length (before.alive slices.length) (creations before.events) todo held)
  | returned (hr : r.routine = .returned) (hopen : r.world.source.canOpen = true)
      (h : List.Forall₂ Script.Reported scenario.scripts (r.report scenario).slices)

/-- With streams as long as they can be none that is too long is opened. -/
theorem Stands.canOpen (h : r.Stands scenario settings) (hc : settings.updateChannelCapacity ≤ Source.capacityLimit) :
    r.world.source.canOpen = true := by
  have fits (hw : r.world.source.capacity = max settings.updateChannelCapacity 1) : r.world.source.canOpen = true := by
    rw [Source.canOpen, hw]
    exact decide_eq_true (max_le hc (by decide))
  cases h with
  | opening _ _ _ h => exact fits h.capacity
  | feeding _ _ _ _ _ h => exact fits h.capacity
  | sending _ _ _ _ _ h => exact fits h.capacity
  | asking _ _ h => exact fits h.fed.capacity
  | joining _ _ _ h => exact fits h.fed.capacity
  | closing _ _ _ h => exact h.opens
  | returned _ hopen => exact hopen

/-! ## Steps of jobs -/

/-- What is known of an outcome stays known. -/
theorem outcome?_kept (h : (w.outcome? me).isSome) (other : JobId) : ((w.advance {} other).outcome? me).isSome := by
  obtain ⟨outcome, ho⟩ := Option.isSome_iff_exists.1 h
  exact Option.isSome_iff_exists.2 ⟨outcome, World.outcome?_perform ho (.advance {} other)⟩

/-- A lane that has come to its end stays as it is. -/
theorem Found.advance {l' : Lane} (h : Found w l' out) (ha : Lane.Among (scenario.lanes slices) slices.length)
    (hl' : l' ∈ scenario.lanes slices) (hl : l ∈ scenario.lanes slices) (hme : me = l.driver ∨ me = l.sender)
    (halone : l.Alone w (w.advance {} me)) (hc : w.canAdvance {} me = true) : Found (w.advance {} me) l' out := by
  have hjob := World.job?_isSome_of_canAdvance hc
  have hne : l ≠ l' := by
    -- its driver and its sender are gone
    rintro rfl
    rcases hme with rfl | rfl
    · rw [show w.job? l.driver = none from h.through.driver] at hjob
      cases hjob
    · rw [show w.job? l.sender = none from h.through.sender] at hjob
      cases hjob
  have hsame := halone.toInside.outlook (ha.apart_of_ne hl hl' hne)
  exact ⟨hsame.symm ▸ h.through, hsame.symm ▸ h.told⟩

theorem Asks.advance (h : r.Asks scenario settings slices k) (hd : scenario.Distinct) (hf : r.world.Fit)
    (hc : r.world.canAdvance {} me = true) :
    ({ r with world := r.world.advance {} me } : Replaying).Asks scenario settings slices k ∧
      ∀ i, (r.world.advance {} me).isClaimed i = r.world.isClaimed i := by
  obtain ⟨hfed, l, hl, hme, halone⟩ := h.fed.advance hd hf hc
  refine ⟨⟨hfed, fun l hl => outcome?_kept (h.sent l hl) me, ?_⟩, halone.claims⟩
  have hmem := List.forall₂_and_left _ _ |>.2 ⟨fun l' (hl' : l' ∈ (scenario.lanes slices).take k) => hl', h.found⟩
  exact hmem.imp fun l' out hfound =>
    hfound.2.advance (h.fed.among hd) (List.mem_of_mem_take hfound.1) (List.mem_of_mem_take hl) hme halone hc

/-- A step of a job, whichever can go on, leaves the replay where it stands. -/
theorem Stands.advance (h : r.Stands scenario settings) (hd : scenario.Distinct) (hf : r.world.Fit)
    (hn : r.world.Numbered) (hr : r.routine.isOver = false) (hc : r.world.canAdvance {} me = true) :
    ({ r with world := r.world.advance {} me } : Replaying).Stands scenario settings := by
  cases h with
  | opening hr hs ho h =>
    obtain ⟨slices', h'⟩ := h.advance hf
    rw [h.canAdvance hf hc]
    exact .opening hr hs ho h'
  | feeding hr hs ho hclaimed hk h =>
    obtain ⟨h', l, -, -, halone⟩ := h.advance hd hf hc
    exact .feeding hr hs ho (fun i => (halone.claims i).trans (hclaimed i)) hk h'
  | sending hr hall hs ho hclaimed h =>
    obtain ⟨h', l, -, -, halone⟩ := h.advance hd hf hc
    exact .sending hr hall (fun l hl => (hs l hl).imp_right fun hsent => outcome?_kept hsent me) ho
      (fun i => (halone.claims i).trans (hclaimed i)) h'
  | asking hr hclaimed h =>
    obtain ⟨h', hsame⟩ := h.advance hd hf hc
    exact .asking hr (fun script hscript => (hsame _).trans (hclaimed script hscript)) h'
  | joining hr hk hclaimed h =>
    obtain ⟨h', hsame⟩ := h.advance hd hf hc
    exact .joining hr hk (fun script hscript => (hsame _).trans (hclaimed script hscript)) h'
  | closing hr hme hcame h =>
    obtain ⟨todo, held, h'⟩ := h.advance hme hf hn hc
    exact .closing hr hme hcame h'
  | returned hover =>
    rw [hover] at hr
    cases hr

/-! ## Steps of the routine -/

/-- What a step of the routine can do to the world: it leaves it as it is, claims an exit, or begins a job. -/
inductive Changes (w w' : World) : Prop
  | nothing (h : w' = w)
  | claims {place : Nat} (h : w' = w.claimExit place)
  | begins {source : Source} {job : Job} (hj : job.Fit) (h : w' = { w with source }.spawn job)

/-- With each step of the routine there is less left to do, with the job that it begins. -/
theorem proceed_spec (h : r.proceed? scenario = some next) :
    Changes r.world next.world ∧ next.work scenario < r.work scenario := by
  unfold proceed? at h
  unfold work routineWork
  cases hr : r.routine with
  | opening =>
    simp only [hr] at h
    split at h <;> cases h
    · exact ⟨.nothing rfl, by dsimp only; omega⟩
    · exact ⟨.nothing rfl, by dsimp only; omega⟩
  | feeding scripts =>
    rw [hr] at h
    cases scripts with
    | nil =>
      cases h
      exact ⟨.nothing rfl, by simp⟩
    | cons script rest =>
      cases h
      refine ⟨.begins (show (Job.send { pair := _, pending := _ }).Fit from nofun) rfl, ?_⟩
      have hwork := World.feed_work scenario r.world script
      simp only [World.total_cons, List.length_append, List.length_singleton]
      omega
  | sending senders =>
    rw [hr] at h
    cases senders with
    | nil =>
      cases h
      exact ⟨.nothing rfl, by simp⟩
    | cons sender rest =>
      obtain ⟨-, -, rfl⟩ := Option.map_eq_some_iff.1 h
      exact ⟨.nothing rfl, by simp⟩
  | asking slices =>
    rw [hr] at h
    cases slices with
    | nil =>
      cases h
      refine ⟨.begins (show (Job.host (.starting .shutdown)).Fit from trivial) rfl, ?_⟩
      simp only [World.spawn_work, World.jobWork, List.length_nil]
      omega
    | cons slice rest =>
      dsimp only at h
      split at h
      · cases h
      · split at h
        · cases h
          exact ⟨.nothing rfl, by simp⟩
        · split at h <;> cases h
          · exact ⟨.nothing rfl, by simp [note]⟩
          · refine ⟨.claims rfl, ?_⟩
            simp only [World.claimExit_work, List.length_cons]
            omega
  | joining slice place rest =>
    rw [hr] at h
    obtain ⟨-, -, rfl⟩ := Option.map_eq_some_iff.1 h
    exact ⟨.nothing rfl, by simp [note]⟩
  | closing shutdown =>
    rw [hr] at h
    obtain ⟨-, -, rfl⟩ := Option.map_eq_some_iff.1 h
    exact ⟨.nothing rfl, by simp⟩
  | returned | failed | panicked =>
    rw [hr] at h
    cases h

theorem Changes.fit {w' : World} (h : Changes w w') (hf : w.Fit) : w'.Fit := by
  cases h with
  | nothing h => exact h ▸ hf
  | claims h => exact h ▸ ⟨hf.nodup, hf.fresh, hf.jobs⟩
  | @begins source job hj h =>
    have hw : ({ w with source } : World).Fit := ⟨hf.nodup, hf.fresh, hf.jobs⟩
    exact h ▸ hw.spawn hj

theorem Changes.numbered {w' : World} (h : Changes w w') (hf : w.Fit) (hn : w.Numbered) : w'.Numbered := by
  cases h with
  | nothing h => exact h ▸ hn
  | claims h => exact h ▸ ⟨hn.begun, hn.apart, hn.left⟩
  | @begins source job hj h =>
    have hw : ({ w with source } : World).Numbered := ⟨hn.begun, hn.apart, hn.left⟩
    exact h ▸ hw.spawn hf.fresh job

/-- All lanes are there when all scripts have been fed. -/
theorem lanes_take (hk : scenario.scripts.length ≤ k) : (scenario.lanes slices).take k = scenario.lanes slices :=
  List.take_of_length_le (Scenario.lanes_length.trans_le hk)

/-- The scripts that are left, one by one. -/
theorem drop_cases (scenario : Scenario) (k : Nat) :
    scenario.scripts.length ≤ k ∧ scenario.scripts.drop k = [] ∨
      ∃ script, scenario.scripts[k]? = some script ∧
        scenario.scripts.drop k = script :: scenario.scripts.drop (k + 1) := by
  cases hk : scenario.scripts[k]? with
  | none =>
    have hlength := List.getElem?_eq_none_iff.1 hk
    exact .inl ⟨hlength, List.drop_of_length_le hlength⟩
  | some script => exact .inr ⟨script, rfl, Scenario.drop_eq_cons hk⟩

/-- Where a driver has ended whose slice's sender is through, its lane has come to its end. -/
theorem Asks.over_of_exit (h : r.Asks scenario settings slices k) (hn : r.world.Numbered) (hl : l ∈ scenario.lanes slices)
    (he : (r.world.exitOf l.place).isSome) : l.Over (r.world.outlook l) := by
  obtain ⟨hended, hdriver⟩ := (h.fed.follows l (by rwa [lanes_take (Nat.le_refl _)])).ended he
  refine ⟨hended, hdriver, ?_⟩
  cases hj : (r.world.outlook l).sender with
  | none => rfl
  | some job =>
    have hsent := h.sent l hl
    rw [hn.apart hj] at hsent
    cases hsent

/-- The next script is fed, or with all of them fed the senders are awaited. -/
theorem stands_of_feeding (h : r.world.Fed scenario settings slices k) (hd : scenario.Distinct) (hf : r.world.Fit)
    (hr : r.routine = .feeding (scenario.scripts.drop k))
    (hs : r.senders = ((scenario.lanes slices).take k).map (·.sender)) (ho : r.outcomes = [])
    (hc : ∀ i, r.world.isClaimed i = false) (hk : k ≤ scenario.scripts.length) (hp : r.proceed? scenario = some next) :
    next.Stands scenario settings := by
  unfold proceed? at hp
  rw [hr] at hp
  rcases drop_cases scenario k with ⟨hle, hdrop⟩ | ⟨script, hscript, hdrop⟩
  · rw [hdrop] at hp
    cases hp
    obtain rfl := Nat.le_antisymm hk hle
    rw [lanes_take (Nat.le_refl _)] at hs
    refine .sending rfl (fun me hme => ?_) (fun l hl => .inl ?_) ho hc h
    · rw [hs] at hme
      exact List.mem_map.1 hme
    · rw [hs]
      exact List.mem_map_of_mem hl
  · rw [hdrop] at hp
    cases hp
    obtain ⟨hfeed, h'⟩ := h.feed hd hf hscript
    refine .feeding rfl ?_ ho (fun i => ?_) (Nat.succ_le_of_lt (List.getElem?_eq_some_iff.1 hscript).1) h'
    · rw [Scenario.lanes_take_succ hscript, List.map_append, ← hs, h.nextJob]
      rfl
    · rw [hfeed]
      exact hc i

/-- The routine asks for the next slice: nobody has the slots, the slice has a workspace, and the exit of its driver has
not been claimed yet. -/
theorem Asks.asks (h : r.Asks scenario settings slices k)
    (hr : r.routine = .asking ((scenario.scripts.drop k).map (·.slice))) (hk : scenario.scripts[k]? = some script)
    (hc : ∀ script ∈ scenario.scripts.drop k, r.world.isClaimed (slices.idxOf script.slice) = false) :
    r.proceed? scenario = some
      { r with
        world := r.world.claimExit (slices.idxOf script.slice)
        routine :=
          .joining script.slice (slices.idxOf script.slice) ((scenario.scripts.drop (k + 1)).map (·.slice)) } := by
  have hdrop := Scenario.drop_eq_cons hk
  have hlive := h.fed.live_idxOf (List.mem_of_getElem? hk)
  have hclaimed := hc _ (hdrop ▸ List.mem_cons_self)
  unfold proceed?
  rw [hr, hdrop, List.map_cons]
  simp only [h.fed.lock, World.handleOf, hlive, hclaimed]
  rfl

/-- The next slice is asked for. -/
theorem Asks.ask (h : r.Asks scenario settings slices k) (hd : scenario.Distinct)
    (hr : r.routine = .asking ((scenario.scripts.drop k).map (·.slice))) (hk : scenario.scripts[k]? = some script)
    (hc : ∀ script ∈ scenario.scripts.drop k, r.world.isClaimed (slices.idxOf script.slice) = false)
    (hp : r.proceed? scenario = some next) : next.Stands scenario settings := by
  cases (h.asks hr hk hc).symm.trans hp
  have hdrop := Scenario.drop_eq_cons hk
  refine .joining rfl hk (fun other hother => ?_) ⟨h.fed.claimExit _, h.sent, h.found.imp fun l out hfound => ?_⟩
  · -- another slice has another place
    have hne : slices.idxOf script.slice ≠ slices.idxOf other.slice := by
      rw [Ne, List.idxOf_inj (h.fed.within _ (List.mem_of_getElem? hk))]
      exact hd.others hk other hother
    rw [World.isClaimed_claimExit hne]
    exact hc other (hdrop ▸ List.mem_cons_of_mem _ hother)
  · have hsame := World.outlook_claimExit r.world (slices.idxOf script.slice) l
    exact ⟨hsame.symm ▸ hfound.through, hsame.symm ▸ hfound.told⟩

/-- The driver of a slice has ended. -/
theorem Asks.join (h : r.Asks scenario settings slices k) (hn : r.world.Numbered)
    (hr : r.routine =
      .joining script.slice (slices.idxOf script.slice) ((scenario.scripts.drop (k + 1)).map (·.slice)))
    (hk : scenario.scripts[k]? = some script)
    (hc : ∀ script ∈ scenario.scripts.drop (k + 1), r.world.isClaimed (slices.idxOf script.slice) = false)
    (hp : r.proceed? scenario = some next) : next.Stands scenario settings := by
  unfold proceed? at hp
  rw [hr] at hp
  obtain ⟨exit, he, rfl⟩ := Option.map_eq_some_iff.1 hp
  have hover : (scenario.lane slices k script).Over (r.world.outlook (scenario.lane slices k script)) :=
    h.over_of_exit hn (Scenario.lane_mem hk) (Option.isSome_iff_exists.2 ⟨exit, he⟩)
  obtain ⟨-, ws, hws, -⟩ := hover.ended.rests
  obtain ⟨out, hfound⟩ : ∃ out, (r.world.outlook (scenario.lane slices k script)).found? script.slice = some out :=
    ⟨_, by rw [Outlook.found?, hws, Option.map_some]⟩
  have hnote := r.world.outcomeOf_lane scenario slices k script
  rw [he, hfound] at hnote
  refine .asking rfl hc ⟨h.fed, h.sent, ?_⟩
  simp only [note, hnote, Option.toList_some]
  rw [Scenario.lanes_take_succ hk]
  exact List.rel_append h.found (.cons ⟨hover, hfound⟩ .nil)

/-- What was found out about the slices is what comes of their scripts. -/
theorem Asks.came (h : r.Asks scenario settings slices k) (hk : scenario.scripts.length ≤ k) :
    List.Forall₂ (fun script out => script.Came r.world slices.length out) scenario.scripts r.outcomes := by
  have hfound := h.found
  rw [lanes_take hk] at hfound
  obtain ⟨hlength, hget⟩ := List.forall₂_iff_get.1 hfound
  rw [Scenario.lanes_length] at hlength
  refine List.forall₂_iff_get.2 ⟨hlength, fun i hi ho => ?_⟩
  have hlane : (scenario.lanes slices).get ⟨i, by rwa [Scenario.lanes_length]⟩ =
      scenario.lane slices i (scenario.scripts.get ⟨i, hi⟩) := List.getElem_mapIdx
  have hlast := hget i (by rwa [Scenario.lanes_length]) ho
  rw [hlane] at hlast
  exact hlast.through.ended.came (List.idxOf_lt_length_iff.2 (h.fed.within _ (List.get_mem ..))) hlast.told

/-- With all slices asked for the host begins to shut down. -/
theorem Asks.close (h : r.Asks scenario settings slices k) (hd : scenario.Distinct) (hf : r.world.Fit)
    (hc : r.world.source.canOpen = true) (hk : scenario.scripts.length ≤ k) (hr : r.routine = .asking [])
    (hp : r.proceed? scenario = some next) : next.Stands scenario settings := by
  unfold proceed? at hp
  rw [hr] at hp
  cases hp
  have hover := (List.forall₂_and_left _ _).1 (h.found.imp fun l out hfound => ⟨hfound.through, hfound⟩)
  rw [lanes_take hk] at hover
  refine .closing rfl ?_ (h.came hk) (h.fed.windsUp hd hf hc hover.1)
  rw [h.fed.nextJob]
  exact Nat.lt_of_lt_of_le (Nat.lt_succ_self _) (Nat.le_add_right _ _)

/-- A step of the routine, where there is one, takes the replay to where it stands next. -/
theorem Stands.proceed (h : r.Stands scenario settings) (hd : scenario.Distinct)
    (hc : settings.updateChannelCapacity ≤ Source.capacityLimit) (hf : r.world.Fit) (hn : r.world.Numbered)
    (hp : r.proceed? scenario = some next) : next.Stands scenario settings := by
  have hopens := h.canOpen hc
  cases h with
  | opening hr hs ho h =>
    unfold proceed? at hp
    rw [hr] at hp
    cases houtcome : r.world.outcome? 0 with
    | none =>
      rw [houtcome] at hp
      cases hp
    | some outcome =>
      obtain ⟨rfl, -⟩ := h.returned houtcome
      rw [houtcome] at hp
      cases hp
      exact .feeding (k := 0) rfl hs ho h.isClaimed (Nat.zero_le _) (h.fed hf houtcome)
  | feeding hr hs ho hclaimed hk h => exact stands_of_feeding h hd hf hr hs ho hclaimed hk hp
  | sending hr hall hs ho hclaimed h =>
    unfold proceed? at hp
    rw [hr] at hp
    rename_i senders
    cases senders with
    | nil =>
      cases hp
      refine .asking (k := 0) rfl (fun script _ => hclaimed _) ⟨h, fun l hl => ?_, ho ▸ .nil⟩
      exact (hs l hl).resolve_left List.not_mem_nil
    | cons sender rest =>
      obtain ⟨outcome, houtcome, rfl⟩ := Option.map_eq_some_iff.1 hp
      refine .sending rfl (fun me hme => hall me (List.mem_cons_of_mem _ hme)) (fun l hl => ?_) ho hclaimed h
      rcases hs l hl with hin | hsent
      · rcases List.mem_cons.1 hin with rfl | hin
        · exact .inr (Option.isSome_iff_exists.2 ⟨outcome, houtcome⟩)
        · exact .inl hin
      · exact .inr hsent
  | asking hr hclaimed h =>
    rename_i slices k
    rcases drop_cases scenario k with ⟨hk, hdrop⟩ | ⟨script, hk, -⟩
    · rw [hdrop] at hr
      exact h.close hd hf hopens hk hr hp
    · exact h.ask hd hr hk hclaimed hp
  | joining hr hk hclaimed h => exact h.join hn hr hk hclaimed hp
  | closing hr hme hcame h =>
    unfold proceed? at hp
    rw [hr] at hp
    obtain ⟨outcome, houtcome, rfl⟩ := Option.map_eq_some_iff.1 hp
    obtain ⟨hmade, howed⟩ := h.returned hn houtcome
    refine .returned rfl hopens ?_
    change List.Forall₂ Script.Reported scenario.scripts (r.outcomes.map (·.report r.world.events))
    rw [List.forall₂_map_right_iff]
    exact hcame.imp fun script out hcame => hcame.reported hmade fun {i ws handle} hi hw hs hc =>
      howed (i, handle.serial) ⟨hi, ws, handle, hw, hs, hc, rfl⟩
  | returned hr =>
    unfold proceed? at hp
    rw [hr] at hp
    cases hp

/-- The routine neither fails nor panics. -/
theorem Stands.returned_of_isOver (h : r.Stands scenario settings) (hr : r.routine.isOver = true) :
    r.routine = .returned := by
  cases h with
  | returned hr' => exact hr'
  | opening hr' | feeding hr' | sending hr' | asking hr' | joining hr' | closing hr' =>
    rw [hr'] at hr
    cases hr

theorem Stands.reported (h : r.Stands scenario settings) (hr : r.routine = .returned) :
    List.Forall₂ Script.Reported scenario.scripts (r.report scenario).slices := by
  cases h with
  | returned _ _ h => exact h
  | opening hr' | feeding hr' | sending hr' | asking hr' | joining hr' | closing hr' => cases hr'.symm.trans hr

/-- Where no job can go on the routine can, unless it is over. -/
theorem Stands.goesOn (h : r.Stands scenario settings) (hn : r.world.Numbered) (hrest : r.world.AtRest {})
    (hr : r.routine.isOver = false) : ∃ next, r.proceed? scenario = some next := by
  -- where no job can go on all lanes have come to their ends
  have follows {slices : List Slice} {l : Lane} (h : r.world.Fed scenario settings slices scenario.scripts.length)
      (hl : l ∈ scenario.lanes slices) : l.Over (r.world.outlook l) :=
    (h.follows l (by rwa [lanes_take (Nat.le_refl _)])).over_of_atRest hrest
  unfold proceed?
  cases h with
  | opening hr' hs ho h =>
    obtain ⟨outcome, houtcome⟩ := Option.isSome_iff_exists.1 (h.rests hrest)
    obtain ⟨rfl, -⟩ := h.returned houtcome
    rw [hr', houtcome]
    exact ⟨_, rfl⟩
  | feeding hr' =>
    rw [hr']
    cases scenario.scripts.drop _ <;> exact ⟨_, rfl⟩
  | sending hr' hall hs ho hclaimed h =>
    rename_i slices senders
    rw [hr']
    cases senders with
    | nil => exact ⟨_, rfl⟩
    | cons sender rest =>
      obtain ⟨l, hl, rfl⟩ := hall sender List.mem_cons_self
      have hlt : l.sender < r.world.nextJob := by
        obtain ⟨k, script, hk, rfl⟩ := Scenario.mem_lanes.1 hl
        rw [h.nextJob]
        exact Nat.add_lt_add_left (List.getElem?_eq_some_iff.1 hk).1 _
      obtain ⟨outcome, houtcome⟩ := Option.isSome_iff_exists.1 (hn.left _ hlt (follows h hl).sender)
      exact ⟨_, Option.map_eq_some_iff.2 ⟨outcome, houtcome, rfl⟩⟩
  | asking hr' hclaimed h =>
    rename_i slices k
    rcases drop_cases scenario k with ⟨hk, hdrop⟩ | ⟨script, hk, -⟩
    · rw [hr', hdrop]
      exact ⟨_, rfl⟩
    · exact ⟨_, h.asks hr' hk hclaimed⟩
  | joining hr' hk hclaimed h =>
    obtain ⟨exit, he⟩ := Option.isSome_iff_exists.1 (follows h.fed (Scenario.lane_mem hk)).ended.rests.1
    rw [hr']
    exact ⟨_, Option.map_eq_some_iff.2 ⟨exit, he, rfl⟩⟩
  | closing hr' hme hcame h =>
    obtain ⟨outcome, houtcome⟩ := Option.isSome_iff_exists.1 (h.rests hrest)
    rw [hr']
    exact ⟨_, Option.map_eq_some_iff.2 ⟨outcome, houtcome, rfl⟩⟩
  | returned hr' =>
    rw [hr'] at hr
    cases hr

end Replaying

end SliceSync
