import SliceSync.Proofs.Attempts
import SliceSync.Proofs.Rounds
import SliceSync.Proofs.Turns
/-!
# Trials with one change

The handlers of argument lists take a change in rounds. A round that ends with a failure has been counted by the
handlers that it reached; when the same change comes again they count it once more (`afterTrials_references`).
If they were harmless, nothing is left of them after a round that gets everywhere (`Harmless.afterTrials_concat`),
and the context holds what it would hold without them (`contains_toldInTrials`).
-/

namespace SliceSync

open References (turn comings goings Decides)

/-- Those from outside leave a list of paths alone. -/
def Environment.Spares (env : Environment) (list : PathList) : Prop :=
  ∀ call, ∀ m ∈ (env.reply call).mutations, m.part ≠ .paths list

instance {η : Type} (call : Nat → η → Round η) (position : Nat) (l : List η) (n : Nat) :
    Decidable (Reaches call position l n) :=
  decidable_of_iff (∀ k < n, ∀ h ∈ l[k]?, (call (position + k) h).failure.isNone = true) <| by
    simp only [Reaches, Option.mem_def, Option.isNone_iff_eq_none]
    exact ⟨fun hr k h hk hl => hr k hk h hl, fun hr k hk h hl => hr k h hk hl⟩

/-! ## Rounds -/

section Round

variable {η : Type} {call : Nat → η → Round η} {v : Bool} {E : η → Prop}

/-- Handlers decide on something or leave it as it was: so does a round of them, by one that it reaches. -/
theorem round_decides (β : Content → Bool)
    (hd : ∀ n h (c : Content), E h → β (c.replay (Effect.mutations (call n h).effects)) = v)
    (hk : ∀ n h (c : Content), ¬E h → β (c.replay (Effect.mutations (call n h).effects)) = β c) (position : Nat)
    (l : List η) (c : Content) :
    β (c.replay (Effect.mutations (callUntilFailure call position l).effects)) = v ∧
        (∃ n h, l[n]? = some h ∧ Reaches call position l n ∧ E h) ∨
      β (c.replay (Effect.mutations (callUntilFailure call position l).effects)) = β c ∧
        ∀ n h, l[n]? = some h → Reaches call position l n → ¬E h := by
  induction l generalizing position c with
  | nil => exact .inr ⟨rfl, fun n h hl => by cases hl⟩
  | cons g rest ih =>
    cases hf : (call position g).failure with
    | some error =>
      rw [callUntilFailure_cons_of_failure hf]
      by_cases hg : E g
      · exact .inl ⟨hd position g c hg, 0, g, rfl, reaches_zero, hg⟩
      · refine .inr ⟨hk position g c hg, fun n h hl hr => ?_⟩
        cases n with
        | zero =>
          cases hl
          exact hg
        | succ n => exact absurd (hf.symm.trans (reaches_cons.1 hr).1) nofun
    | none =>
      rw [callUntilFailure_cons_of_none hf, Effect.mutations_append, Content.replay_append]
      rcases ih (position + 1) (c.replay (Effect.mutations (call position g).effects)) with
        ⟨hv, n, h, hl, hr, hh⟩ | ⟨hsame, hnone⟩
      · exact .inl ⟨hv, n + 1, h, hl, reaches_cons.2 ⟨hf, hr⟩, hh⟩
      · by_cases hg : E g
        · exact .inl ⟨hsame.trans (hd position g c hg), 0, g, rfl, reaches_zero, hg⟩
        · refine .inr ⟨hsame.trans (hk position g c hg), fun n h hl hr => ?_⟩
          cases n with
          | zero =>
            cases hl
            exact hg
          | succ n => exact hnone n h hl (reaches_cons.1 hr).2

end Round

/-- A round of calls with a change of the argument list. -/
def argumentRound (env : Environment) (d : ArgumentDifference) (activity : Activity) (l : List ArgumentHandler) :
    Round (List ArgumentHandler) :=
  callUntilFailure (HandlerSet.callArguments env d activity) 0 l

/-- The round gets to a place. -/
def ArgumentsReach (env : Environment) (d : ArgumentDifference) (activity : Activity) (l : List ArgumentHandler)
    (n : Nat) : Prop :=
  Reaches (HandlerSet.callArguments env d activity) 0 l n

instance (env : Environment) (d : ArgumentDifference) (activity : Activity) (l : List ArgumentHandler) (n : Nat) :
    Decidable (ArgumentsReach env d activity l n) :=
  inferInstanceAs (Decidable (Reaches ..))

section Arguments

variable {env : Environment} {d : ArgumentDifference} {activity : Activity} {l l' : List ArgumentHandler} {n : Nat}
  {name : String} {r : References}

open HandlerSet (callArguments forgetArguments)

theorem callArguments_forget (n : Nat) (h : ArgumentHandler) :
    forgetArguments (callArguments env d activity n h).state = forgetArguments h := by
  cases h with
  | references name r => simp [callArguments, forgetArguments]
  | external name => rfl

theorem callArguments_failure (n : Nat) (g g' : ArgumentHandler) (h : forgetArguments g = forgetArguments g') :
    (callArguments env d activity n g).failure = (callArguments env d activity n g').failure := by
  cases g <;> cases g' <;> first | cases h | skip
  · rfl
  · rfl

/-- A round counts, and changes nothing else of the handlers. -/
theorem argumentRound_forget (env : Environment) (d : ArgumentDifference) (activity : Activity)
    (l : List ArgumentHandler) :
    (argumentRound env d activity l).state.map forgetArguments = l.map forgetArguments :=
  map_state callArguments_forget

/-- Whatever has been counted, a round fails alike, and gets to the same places. -/
theorem argumentRound_congr (h : l.map forgetArguments = l'.map forgetArguments) :
    (argumentRound env d activity l).failure = (argumentRound env d activity l').failure ∧
      ∀ n, ArgumentsReach env d activity l n ↔ ArgumentsReach env d activity l' n :=
  failure_congr callArguments_failure h

theorem argumentRound_reached (hl : l[n]? = some (.references name r)) (hr : ArgumentsReach env d activity l n) :
    (argumentRound env d activity l).state[n]? = some (.references name (r.follow d).1) :=
  getElem?_state_of_reaches hl hr

theorem argumentRound_not_reached (hr : ¬ArgumentsReach env d activity l n) :
    (argumentRound env d activity l).state[n]? = l[n]? :=
  getElem?_state_of_not_reaches hr

theorem callArguments_references (n : Nat) (name : String) (r : References) :
    Effect.mutations (callArguments env d activity n (.references name r)).effects = (r.follow d).2 := by
  simp [callArguments]

/-- What a round does to a path in the context, if those from outside leave its list alone. -/
theorem argumentRound_decides {list : PathList} (hs : env.Spares list) (path : String) (l : List ArgumentHandler)
    (c : Content) :
    ((c.replay (Effect.mutations (argumentRound env d activity l).effects)).paths list).contains path =
          decide (goings list d path < comings list d path) ∧
        (∃ n name r, l[n]? = some (.references name r) ∧ ArgumentsReach env d activity l n ∧ r.list = list ∧
          Decides (r.counts.get? path) (comings list d path) (goings list d path)) ∨
      ((c.replay (Effect.mutations (argumentRound env d activity l).effects)).paths list).contains path =
          (c.paths list).contains path ∧
        ∀ n name r, l[n]? = some (.references name r) → ArgumentsReach env d activity l n → r.list = list →
          ¬Decides (r.counts.get? path) (comings list d path) (goings list d path) := by
  let E : ArgumentHandler → Prop := fun h => ∃ name r, h = .references name r ∧ r.list = list ∧
    Decides (r.counts.get? path) (comings list d path) (goings list d path)
  have hd (n : Nat) (h : ArgumentHandler) (c : Content) (hE : E h) :
      ((c.replay (Effect.mutations (callArguments env d activity n h).effects)).paths list).contains path =
        decide (goings list d path < comings list d path) := by
    obtain ⟨name, r, rfl, rfl, hdecides⟩ := hE
    rw [callArguments_references]
    exact References.contains_replay_follow_of_decides hdecides c
  have hk (n : Nat) (h : ArgumentHandler) (c : Content) (hE : ¬E h) :
      ((c.replay (Effect.mutations (callArguments env d activity n h).effects)).paths list).contains path =
        (c.paths list).contains path := by
    cases h with
    | references name r =>
      rw [callArguments_references]
      by_cases hlist : r.list = list
      · subst hlist
        exact References.contains_replay_follow_of_not_decides (fun h => hE ⟨name, r, rfl, rfl, h⟩) c
      · rw [References.paths_follow_of_ne r d c hlist]
    | external name =>
      -- it leaves the list alone
      have : ∀ m ∈ Effect.mutations (callArguments env d activity n (.external name)).effects,
          m.part ≠ .paths list := by
        intro m hm
        simp only [callArguments, callExternal, Effect.mutations_called_cons,
          Effect.mutations_map_mutate] at hm
        exact hs _ m hm
      rw [Content.paths_replay this]
  have hround := round_decides (fun c => (c.paths list).contains path) hd hk 0 l c
  refine hround.imp (And.imp_right ?_) (And.imp_right ?_)
  · rintro ⟨n, h, hl, hr, name, r, rfl, hlist, hdecides⟩
    exact ⟨n, name, r, hl, hr, hlist, hdecides⟩
  · intro hnone n name r hl hr hlist hdecides
    exact hnone n _ hl hr ⟨name, r, rfl, hlist, hdecides⟩

/-! ## Trials -/

variable {activityOn : Occasion → Activity} {trials : List Occasion} {b : Build}

/-- The handlers of argument lists after trials with one change. -/
def afterTrials (d : ArgumentDifference) (activityOn : Occasion → Activity) :
    List ArgumentHandler → List Occasion → List ArgumentHandler
  | l, [] => l
  | l, o :: rest => afterTrials d activityOn (argumentRound o.env d (activityOn o) l).state rest

/-- How many of the trials get to a place. -/
def trialsReaching (d : ArgumentDifference) (activityOn : Occasion → Activity) (l : List ArgumentHandler)
    (trials : List Occasion) (n : Nat) : Nat :=
  trials.countP fun o => ArgumentsReach o.env d (activityOn o) l n

theorem trialsReaching_congr (h : l.map forgetArguments = l'.map forgetArguments) (trials : List Occasion) (n : Nat) :
    trialsReaching d activityOn l trials n = trialsReaching d activityOn l' trials n := by
  refine List.countP_congr fun o _ => ?_
  simpa only [decide_eq_true_eq] using (argumentRound_congr h).2 n

theorem trialsReaching_cons (o : Occasion) (rest : List Occasion) (n : Nat) :
    trialsReaching d activityOn l (o :: rest) n =
      trialsReaching d activityOn (argumentRound o.env d (activityOn o) l).state rest n +
        if ArgumentsReach o.env d (activityOn o) l n then 1 else 0 := by
  rw [trialsReaching_congr (argumentRound_forget ..)]
  unfold trialsReaching
  rw [List.countP_cons]
  simp only [decide_eq_true_eq]

theorem afterTrials_concat (d : ArgumentDifference) (activityOn : Occasion → Activity) (l : List ArgumentHandler)
    (trials : List Occasion) (last : Occasion) :
    afterTrials d activityOn l (trials ++ [last]) =
      (argumentRound last.env d (activityOn last) (afterTrials d activityOn l trials)).state := by
  induction trials generalizing l with
  | nil => rfl
  | cons o rest ih => exact ih _

theorem afterTrials_forget (d : ArgumentDifference) (activityOn : Occasion → Activity) (l : List ArgumentHandler)
    (trials : List Occasion) :
    (afterTrials d activityOn l trials).map forgetArguments = l.map forgetArguments := by
  induction trials generalizing l with
  | nil => rfl
  | cons o rest ih => exact (ih _).trans (argumentRound_forget ..)

/-- Each trial that gets to a handler turns its counts once more. -/
theorem afterTrials_references (hl : l[n]? = some (.references name r)) (activityOn : Occasion → Activity)
    (trials : List Occasion) :
    ∃ r', (afterTrials d activityOn l trials)[n]? = some (.references name r') ∧ r'.list = r.list ∧
      ∀ path, r'.counts.get? path = turn (r.counts.get? path)
        (trialsReaching d activityOn l trials n * comings r.list d path)
        (trialsReaching d activityOn l trials n * goings r.list d path) := by
  induction trials generalizing l r with
  | nil =>
    refine ⟨r, hl, rfl, fun path => ?_⟩
    simp [trialsReaching, References.turn_zero]
  | cons o rest ih =>
    rw [afterTrials, trialsReaching_cons]
    by_cases hr : ArgumentsReach o.env d (activityOn o) l n
    · obtain ⟨r', hl', hlist, hcounts⟩ := ih (argumentRound_reached hl hr)
      rw [References.follow_list] at hlist hcounts
      refine ⟨r', hl', hlist, fun path => ?_⟩
      rw [hcounts, References.get?_follow, if_pos hr, References.turn_turn]
    · obtain ⟨r', hl', hlist, hcounts⟩ := ih ((argumentRound_not_reached hr).trans hl)
      refine ⟨r', hl', hlist, fun path => ?_⟩
      rw [hcounts, if_neg hr, Nat.add_zero]

/-- A handler from outside stays as it is. -/
theorem afterTrials_external (hl : l[n]? = some (.external name)) (trials : List Occasion) :
    (afterTrials d activityOn l trials)[n]? = some (.external name) := by
  have hsame := congrArg (·[n]?) (afterTrials_forget d activityOn l trials)
  simp only [List.getElem?_map, hl, Option.map_some] at hsame
  obtain ⟨h, hh, hforget⟩ := Option.map_eq_some_iff.1 hsame
  cases h with
  | references => cases hforget
  | external => rw [hh]; exact congrArg some hforget

theorem afterTrials_none (hl : l[n]? = none) (trials : List Occasion) :
    (afterTrials d activityOn l trials)[n]? = none := by
  have hsame := congrArg (·[n]?) (afterTrials_forget d activityOn l trials)
  simpa only [List.getElem?_map, hl, Option.map_none, Option.map_eq_none_iff] using hsame

/-- Trials that turn all counts alike leave the same handlers. -/
theorem afterTrials_ext (others : List Occasion)
    (h : ∀ n name r, l[n]? = some (.references name r) → ∀ path,
      turn (r.counts.get? path) (trialsReaching d activityOn l trials n * comings r.list d path)
          (trialsReaching d activityOn l trials n * goings r.list d path) =
        turn (r.counts.get? path) (trialsReaching d activityOn l others n * comings r.list d path)
          (trialsReaching d activityOn l others n * goings r.list d path)) :
    afterTrials d activityOn l trials = afterTrials d activityOn l others := by
  refine List.ext_getElem? fun n => ?_
  cases hl : l[n]? with
  | none => rw [afterTrials_none hl, afterTrials_none hl]
  | some handler =>
    cases handler with
    | external name => rw [afterTrials_external hl, afterTrials_external hl]
    | references name r =>
      obtain ⟨r₁, hl₁, hlist₁, hcounts₁⟩ := afterTrials_references hl activityOn trials
      obtain ⟨r₂, hl₂, hlist₂, hcounts₂⟩ := afterTrials_references hl activityOn others
      rw [hl₁, hl₂]
      have hcounts : r₁.counts = r₂.counts := NameMap.ext_get? fun path => by
        rw [hcounts₁, hcounts₂, h n name r hl path]
      cases r₁
      cases r₂
      cases hcounts
      cases hlist₁.trans hlist₂.symm
      rfl

/-- Nothing is left of trials: a handler was not reached by them, or as many arguments naming a path came as
went, or so many went that none is left. -/
def Harmless (d : ArgumentDifference) (activityOn : Occasion → Activity) (l : List ArgumentHandler)
    (trials : List Occasion) : Prop :=
  ∀ n name r, l[n]? = some (.references name r) → ∀ path,
    trialsReaching d activityOn l trials n = 0 ∨ comings r.list d path = goings r.list d path ∨
      (r.counts.get? path).getD 0 + comings r.list d path ≤ goings r.list d path

theorem trialsReaching_concat {last : Occasion} (hall : ∀ n, ArgumentsReach last.env d (activityOn last) l n)
    (trials : List Occasion) (n : Nat) :
    trialsReaching d activityOn l (trials ++ [last]) n = trialsReaching d activityOn l trials n + 1 := by
  unfold trialsReaching
  rw [List.countP_append]
  simp [hall n]

/-- After a further round that gets everywhere, the handlers are as after that round alone if the trials were
harmless. -/
theorem Harmless.afterTrials_concat (h : Harmless d activityOn l trials) {last : Occasion}
    (hall : ∀ n, ArgumentsReach last.env d (activityOn last) l n) :
    afterTrials d activityOn l (trials ++ [last]) = afterTrials d activityOn l [last] := by
  refine afterTrials_ext [last] fun n name r hl path => ?_
  have hone := trialsReaching_concat hall [] n
  rw [List.nil_append] at hone
  rw [trialsReaching_concat hall, hone]
  simp only [trialsReaching, List.countP_nil, Nat.zero_add, Nat.one_mul]
  exact (References.turn_eq_iff ..).2 (h n name r hl path)

theorem argumentRound_before (hl : (argumentRound env d activity l).state[n]? = some (.references name r)) :
    ∃ r₀, l[n]? = some (.references name r₀) := by
  have hsame := congrArg (·[n]?) (argumentRound_forget env d activity l)
  simp only [List.getElem?_map, hl, Option.map_some] at hsame
  obtain ⟨h₀, hh₀, hforget⟩ := Option.map_eq_some_iff.1 hsame.symm
  cases h₀ with
  | references name₀ r₀ =>
    obtain ⟨rfl, -⟩ := ArgumentHandler.references.inj hforget
    exact ⟨r₀, hh₀⟩
  | external => cases hforget

theorem Harmless.rest {o : Occasion} {rest : List Occasion} (h : Harmless d activityOn l (o :: rest)) :
    Harmless d activityOn (argumentRound o.env d (activityOn o) l).state rest := by
  intro n name r hl path
  -- what stands there now stood there before, turned if it was reached
  obtain ⟨r₀, hl₀⟩ := argumentRound_before hl
  have hbefore := h n name r₀ hl₀ path
  rw [trialsReaching_cons] at hbefore
  by_cases hr : ArgumentsReach o.env d (activityOn o) l n
  · rw [argumentRound_reached hl₀ hr] at hl
    cases hl
    rw [References.follow_list, References.get?_follow, References.getD_turn]
    rw [if_pos hr] at hbefore
    omega
  · rw [argumentRound_not_reached hr, hl₀] at hl
    cases hl
    rwa [if_neg hr] at hbefore

/-! ## What the context is told -/

/-- What a context is told in trials with one build. -/
def toldInTrials (b : Build) (d : ArgumentDifference) (activityOn : Occasion → Activity) :
    List ArgumentHandler → List Occasion → List Mutation
  | _, [] => []
  | l, o :: rest =>
    (Payload.build b).tells (Effect.mutations (argumentRound o.env d (activityOn o) l).effects) ++
      toldInTrials b d activityOn (argumentRound o.env d (activityOn o) l).state rest

theorem toldInTrials_concat (b : Build) (d : ArgumentDifference) (activityOn : Occasion → Activity)
    (l : List ArgumentHandler) (trials : List Occasion) (last : Occasion) :
    toldInTrials b d activityOn l (trials ++ [last]) = toldInTrials b d activityOn l trials ++
      (Payload.build b).tells (Effect.mutations
        (argumentRound last.env d (activityOn last) (afterTrials d activityOn l trials)).effects) := by
  induction trials generalizing l with
  | nil => simp [toldInTrials, afterTrials]
  | cons o rest ih =>
    rw [List.cons_append, toldInTrials, ih, toldInTrials, List.append_assoc]
    rfl

/-- What a build tells besides its handlers is not about paths. -/
theorem paths_tells (c : Content) (mutations : List Mutation) (list : PathList) :
    (c.replay ((Payload.build b).tells mutations)).paths list =
      ((c.apply (.setOptions b.arguments)).replay mutations).paths list := by
  rw [Payload.tells]
  rw [Content.replay_cons, Content.replay_append]
  refine Content.paths_replay (fun m hm => ?_) _
  rw [List.mem_singleton.1 hm]
  rintro ⟨⟩

/-- Some handler decides on a path. -/
def Decided (d : ArgumentDifference) (list : PathList) (path : String) (l : List ArgumentHandler) : Prop :=
  ∃ (n : Nat) (name : String) (r : References), l[n]? = some (.references name r) ∧ r.list = list ∧
    Decides (r.counts.get? path) (comings list d path) (goings list d path)

/-- What a trial does to a path in the context: a handler it reaches decides on it, or it stays as it was. -/
theorem told_decides (b : Build) (d : ArgumentDifference) (activity : Activity) {list : PathList} (hs : env.Spares list)
    (path : String) (l : List ArgumentHandler) (c : Content) :
    ((c.replay ((Payload.build b).tells
        (Effect.mutations (argumentRound env d activity l).effects))).paths list).contains path =
          decide (goings list d path < comings list d path) ∧
        (∃ n name r, l[n]? = some (.references name r) ∧ ArgumentsReach env d activity l n ∧ r.list = list ∧
          Decides (r.counts.get? path) (comings list d path) (goings list d path)) ∨
      ((c.replay ((Payload.build b).tells
        (Effect.mutations (argumentRound env d activity l).effects))).paths list).contains path =
          (c.paths list).contains path ∧
        ∀ n name r, l[n]? = some (.references name r) → ArgumentsReach env d activity l n → r.list = list →
          ¬Decides (r.counts.get? path) (comings list d path) (goings list d path) := by
  rw [paths_tells]
  exact argumentRound_decides hs path l (c.apply (.setOptions b.arguments))

/-- If nothing is left of trials, they decide on no path that is not decided on anyway, and otherwise than it
would be. -/
theorem contains_toldInTrials (b : Build) {last : Occasion} {list : PathList}
    (hs : ∀ o ∈ trials ++ [last], o.env.Spares list) (hall : ∀ n, ArgumentsReach last.env d (activityOn last) l n)
    (hh : Harmless d activityOn l trials) (path : String) (c : Content) :
    ((c.replay (toldInTrials b d activityOn l (trials ++ [last]))).paths list).contains path =
          decide (goings list d path < comings list d path) ∧ Decided d list path l ∨
      ((c.replay (toldInTrials b d activityOn l (trials ++ [last]))).paths list).contains path =
          (c.paths list).contains path ∧ ¬Decided d list path l := by
  induction trials generalizing l c with
  | nil =>
    rw [List.nil_append, toldInTrials, toldInTrials, List.append_nil]
    refine (told_decides b d (activityOn last) (hs last (by simp)) path l c).imp ?_ ?_
    · rintro ⟨hheld, n, name, r, hl, -, hlist, hdecides⟩
      exact ⟨hheld, n, name, r, hl, hlist, hdecides⟩
    · rintro ⟨hheld, hnone⟩
      refine ⟨hheld, ?_⟩
      rintro ⟨n, name, r, hl, hlist, hdecides⟩
      exact hnone n name r hl (hall n) hlist hdecides
  | cons o rest ih =>
    have hfirst := told_decides b d (activityOn o) (hs o (by simp)) path l c
    have hrest := ih (fun o ho => hs o (by simp [ho]))
      (fun n => ((argumentRound_congr (argumentRound_forget ..)).2 n).2 (hall n)) hh.rest
      (c.replay ((Payload.build b).tells (Effect.mutations (argumentRound o.env d (activityOn o) l).effects)))
    rw [List.cons_append, toldInTrials, Content.replay_append]
    -- whoever decides after the trial decided before it
    have hback (h : Decided d list path (argumentRound o.env d (activityOn o) l).state) : Decided d list path l := by
      obtain ⟨n, name, r, hl, hlist, hdecides⟩ := h
      obtain ⟨r₀, hl₀⟩ := argumentRound_before hl
      by_cases hr : ArgumentsReach o.env d (activityOn o) l n
      · rw [argumentRound_reached hl₀ hr] at hl
        cases hl
        rw [References.follow_list] at hlist
        rw [References.get?_follow, hlist] at hdecides
        have hbefore := hh n name r₀ hl₀ path
        rw [trialsReaching_cons, if_pos hr, hlist] at hbefore
        exact ⟨n, name, r₀, hl₀, hlist, References.decides_of_turn (hbefore.resolve_left (by omega)) hdecides⟩
      · rw [argumentRound_not_reached hr] at hl
        exact ⟨n, name, r, hl, hlist, hdecides⟩
    rcases hrest with ⟨hheld, hdecided⟩ | ⟨hheld, hnone⟩
    · exact .inl ⟨hheld, hback hdecided⟩
    · rcases hfirst with ⟨hheld', n, name, r, hl, -, hlist, hdecides⟩ | ⟨hheld', hnone'⟩
      · exact .inl ⟨hheld.trans hheld', n, name, r, hl, hlist, hdecides⟩
      · refine .inr ⟨hheld.trans hheld', ?_⟩
        rintro ⟨n, name, r, hl, hlist, hdecides⟩
        by_cases hr : ArgumentsReach o.env d (activityOn o) l n
        · exact hnone' n name r hl hr hlist hdecides
        · exact hnone ⟨n, name, r, (argumentRound_not_reached hr).trans hl, hlist, hdecides⟩

/-! ## A change without arguments -/

/-- No argument that names a path comes or goes. -/
def ArgumentDifference.Idle (d : ArgumentDifference) : Prop :=
  ∀ list path, comings list d path = 0 ∧ goings list d path = 0

theorem ArgumentDifference.idle_of_isEmpty (h : d.isEmpty = true) : d.Idle := by
  simp only [isEmpty, Bool.and_eq_true, List.isEmpty_iff] at h
  intro list path
  have hcome : d.addedInputs = .ofArguments [] := congrArg Inputs.ofArguments h.1
  have hgone : d.removedInputs = .ofArguments [] := congrArg Inputs.ofArguments h.2
  unfold comings goings
  rw [hcome, hgone]
  cases list <;> exact ⟨rfl, rfl⟩

theorem ArgumentDifference.Idle.afterTrials (h : d.Idle) (activityOn : Occasion → Activity) (l : List ArgumentHandler)
    (trials : List Occasion) : afterTrials d activityOn l trials = l := by
  refine afterTrials_ext [] fun n name r hl path => ?_
  obtain ⟨hcome, hgone⟩ := h r.list path
  simp only [hcome, hgone, Nat.mul_zero]

theorem ArgumentDifference.Idle.contains_toldInTrials (h : d.Idle)
    (activityOn : Occasion → Activity) {list : PathList} (hs : ∀ o ∈ trials, o.env.Spares list)
    (l : List ArgumentHandler) (path : String) (c : Content) :
    ((c.replay (toldInTrials b d activityOn l trials)).paths list).contains path = (c.paths list).contains path := by
  induction trials generalizing l c with
  | nil => rfl
  | cons o rest ih =>
    rw [toldInTrials, Content.replay_append, ih fun o ho => hs o (by simp [ho])]
    rcases told_decides b d (activityOn o) (hs o (by simp)) path l c with ⟨-, n, name, r, -, -, -, hd⟩ | ⟨hsame, -⟩
    · obtain ⟨hcome, hgone⟩ := h list path
      rw [hcome, hgone] at hd
      exact absurd rfl hd.1
    · exact hsame

end Arguments

end SliceSync
