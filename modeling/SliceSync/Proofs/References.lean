import SliceSync.Proofs.Plain
/-!
# The references of a context

In a run of evaluations and builds the references of a context are those that the argument list of the
last build names, however the list spells and repeats them. The handlers count against the distinct
arguments of the list given last, and while a batch is open against those of the list that its closing
makes the last one: `Place.Referenced`. What is taken out of a context between two builds, the second of
them does not name: `Place.Since`.

Main statement: `World.references_mirror`.
-/

namespace SliceSync

open References (named pathsOf Counted)

/-- The lists of references. -/
def PathList.references : List PathList := [.metadataReferences, .analyzerReferences]

/-- The references of a context are those that an argument list names, and the outcome of the last build
is that of the list. -/
structure Content.Mirrors (c : Content) (arguments : List String) : Prop where
  metadata : ∀ path, c.metadataReferences.contains path = true ↔
    path ∈ (Inputs.ofArguments arguments).metadataReferences
  analyzers : ∀ path, c.analyzerReferences.contains path = true ↔
    path ∈ (Inputs.ofArguments arguments).analyzerReferences
  outcome : c.lastBuildSucceeded = some !arguments.isEmpty

namespace Kept

/-- What is counted for the references. -/
def references (k : Kept) : List References := [k.metadata, k.analyzers]

variable {k : Kept}

theorem forall_references {P : References → Prop} :
    (∀ r ∈ k.references, P r) ↔ P k.metadata ∧ P k.analyzers := by
  simp [references]

theorem Listed.list_mem (h : k.Listed) : ∀ r ∈ k.references, r.list ∈ PathList.references := by
  rw [forall_references, h.metadata, h.analyzers]
  simp [PathList.references]

/-- What an evaluation tells a context is not about references, nor about the outcome of a build. -/
theorem Listed.evaluation_aside (h : k.Listed) {rules : NameMap Change} {items : Listing String Change}
    {m : Mutation} (hm : m ∈ k.evaluationMutations rules items) :
    m.part ≠ .outcome ∧ ∀ list ∈ PathList.references, m.part ≠ .paths list := by
  have hp := evaluationMutations_part hm
  rw [h.sources.1, h.additional.1] at hp
  rcases hp with hp | hp | hp | hp <;> simp [hp, PathList.references]

theorem Listed.paths_evaluation (h : k.Listed) (rules : NameMap Change) (items : Listing String Change)
    (c : Content) {list : PathList} (hl : list ∈ PathList.references) :
    (c.replay (k.evaluationMutations rules items)).paths list = c.paths list :=
  Content.paths_replay (fun _ hm => (h.evaluation_aside hm).2 list hl) c

theorem Listed.outcome_evaluation (h : k.Listed) (rules : NameMap Change) (items : Listing String Change)
    (c : Content) :
    (c.replay (k.evaluationMutations rules items)).lastBuildSucceeded = c.lastBuildSucceeded :=
  Content.lastBuildSucceeded_replay (fun _ hm => (h.evaluation_aside hm).1) c

/-- Following a change of the argument list, both handlers count the arguments of the new list, and
neither takes out a path that the new list names. -/
theorem Listed.counted_withArguments (h : k.Listed) {c : Content} {previous current : List String}
    (hc : ∀ r ∈ k.references, r.Counted c (named r.list previous)) :
    (∀ r ∈ (k.withArguments (.between previous current)).references,
        r.Counted (c.replay (k.referenceMutations (.between previous current))) (named r.list current)) ∧
      ∀ list path, .remove list path ∈ k.referenceMutations (.between previous current) →
        path ∉ pathsOf list (.ofArguments current) := by
  have apart : k.metadata.list ≠ k.analyzers.list := by
    rw [h.metadata, h.analyzers]
    decide
  obtain ⟨hm, ha⟩ := forall_references.1 hc
  -- the analyzers are counted in the content that the change of the other list leaves
  have ha := ha.congr
    (References.paths_follow_of_ne k.metadata (.between previous current) c apart)
  obtain ⟨hm, hmgone⟩ := hm.follow
  obtain ⟨ha, hagone⟩ := ha.follow
  refine ⟨?_, fun list path hp => ?_⟩
  · rw [referenceMutations, Content.replay_append, forall_references]
    constructor
    · have hlist : (k.withArguments (.between previous current)).metadata.list = k.metadata.list :=
        References.follow_list _ _
      refine Counted.congr (hlist ▸ hm) ?_
      rw [hlist]
      exact References.paths_follow_of_ne _ _ _ apart.symm
    · have hlist : (k.withArguments (.between previous current)).analyzers.list = k.analyzers.list :=
        References.follow_list _ _
      exact hlist ▸ ha
  · rcases List.mem_append.1 hp with hp | hp
    · obtain rfl := Part.paths.inj (References.follow_part hp)
      exact hmgone path hp
    · obtain rfl := Part.paths.inj (References.follow_part hp)
      exact hagone path hp

end Kept

namespace Place

/-- The handlers count the references that the arguments given last name, and the context holds them. -/
structure Referenced (p : Place) : Prop where
  counted : ∀ handle k, p.workspace.context = some handle → handle.handlers = .standard k →
    ∀ r ∈ k.references, r.Counted p.content (named r.list p.settled.arguments)
  outcome : p.workspace.context.isSome → p.content.lastBuildSucceeded = p.settled.lastBuildSucceeded

theorem referenced_fresh (slice : Slice) : (fresh slice).Referenced :=
  ⟨fun _ _ h => (by cases h), fun h => (by cases h)⟩

variable {setup : Setup} {p p' : Place} {updates : List Update}

/-- Where the context, what it holds and what is settled stay, the references do. -/
theorem Referenced.congr (h : p.Referenced) (hc : p'.workspace.context = p.workspace.context)
    (hcontent : p'.content = p.content) (hs : p'.settled = p.settled) : p'.Referenced := by
  constructor
  · rw [hc, hcontent, hs]
    exact h.counted
  · rw [hc, hcontent, hs]
    exact h.outcome

/-- Every deed keeps the references in line with the arguments given last. -/
theorem Referenced.next (h : p.Referenced) (hu : p.Upshot setup p' updates) : p'.Referenced := by
  cases hu with
  | same hc hcontent hs => exact h.congr hc hcontent hs
  | skips ho hk hb hc hcontent hs => exact h.congr hc hcontent hs
  | @creates u e activity handle hu ha ho hi hi' hc hcontent hs =>
    -- the context is new, so the handlers have seen no argument and no list of references has a path
    have hlisted := Kept.listed_ofProject e.project
    constructor
    · intro handle' k ho' hk
      cases hc.symm.trans ho'
      obtain rfl := HandlerSet.standard_injective hk
      rw [hcontent, hs, Kept.forall_references]
      constructor
      · exact References.counted_nil (hlisted.paths_evaluation _ _ _ (by simp [PathList.references]))
      · exact References.counted_nil (hlisted.paths_evaluation _ _ _ (by simp [PathList.references]))
    · intro _
      rw [hcontent, hs, hlisted.outcome_evaluation]
      rfl
  | @evaluates u e activity handle k hu ho hk hl hi hi' hc hcontent hs =>
    constructor
    · intro handle' k' ho' hk' r hr
      cases hc.symm.trans ho'
      obtain rfl := HandlerSet.standard_injective hk'
      rw [hcontent, hs]
      exact (h.counted handle k ho hk r hr).congr (hl.paths_evaluation _ _ _ (hl.list_mem r hr))
    · intro _
      rw [hcontent, hs, hl.outcome_evaluation]
      exact h.outcome (by rw [ho]; rfl)
  | @builds u b activity handle k hu ho hk hl hi hi' hc hcontent hs =>
    rw [Content.replay_cons, Content.replay_append] at hcontent
    constructor
    · intro handle' k' ho' hk' r hr
      cases hc.symm.trans ho'
      obtain rfl := HandlerSet.standard_injective hk'
      -- the options and the outcome, told before and after the references, leave their counts alone
      have hopened : ∀ r ∈ k.references, r.Counted (p.content.apply (.setOptions b.arguments))
          (named r.list p.settled.arguments) :=
        fun r hr => (h.counted handle k ho hk r hr).congr (by cases r.list <;> rfl)
      rw [hcontent, hs]
      exact ((hl.counted_withArguments hopened).1 r hr).congr (by cases r.list <;> rfl)
    · intro _
      rw [hcontent, hs]
      rfl
  | parts hc hd =>
    constructor
    · intro handle k ho
      rw [hc] at ho
      cases ho
    · intro ho
      rw [hc] at ho
      cases ho

/-- A context that holds the references of a list mirrors every list of the same arguments. -/
theorem Referenced.mirrors (h : p.Referenced) (hp : p.Plain) {handle : ContextHandle}
    (ho : p.workspace.context = some handle) {arguments : List String}
    (ha : ∀ a, a ∈ p.settled.arguments ↔ a ∈ arguments)
    (hs : p.settled.lastBuildSucceeded = some !arguments.isEmpty) : p.content.Mirrors arguments := by
  obtain ⟨k, hk, hlisted⟩ := hp.standard handle ho
  have holds {r : References} (hr : r ∈ k.references) (path : String) :
      (p.content.paths r.list).contains path = true ↔ path ∈ pathsOf r.list (.ofArguments arguments) := by
    rw [← References.mem_named_iff]
    exact ((h.counted handle k ho hk r hr).perm (References.named_perm ha)).paths path
  constructor
  · intro path
    have := holds (List.mem_cons_self : k.metadata ∈ k.references) path
    rw [hlisted.metadata] at this
    exact this
  · intro path
    have := holds (List.mem_cons_of_mem _ List.mem_cons_self : k.analyzers ∈ k.references) path
    rw [hlisted.analyzers] at this
    exact this
  · rw [h.outcome (by rw [ho]; rfl), hs]

end Place

/-- When a build ends well, what was given last is what it says, as far as a list of arguments goes by its
members: a skipped build leaves the list that was there. -/
theorem PlainDeed.built {setup : Setup} {p p' : Place} {u : Update} {b : Build}
    (hd : PlainDeed setup p p' [u]) (hb : u.payload = .build b) :
    (∀ a, a ∈ p'.settled.arguments ↔ a ∈ b.arguments) ∧
      p'.settled.lastBuildSucceeded = some !b.arguments.isEmpty := by
  cases hd with
  | skips ho hk hc hb' hr hi hi' =>
    rw [hb] at hk
    obtain ⟨harguments, houtcome, -⟩ := hk
    refine ⟨fun a => ?_, ?_⟩
    · rw [Place.settled_of_idle (Place.idle_of_none hi'), hb']
      exact ArgumentDifference.isEmpty_between_iff.1 harguments a
    · rw [Place.settled_of_idle (Place.idle_of_none hi'), hb']
      exact houtcome
  | @commits _ batch hi hof hc hb' hr hi' =>
    unfold Commit.Of at hof
    rw [hb] at hof
    obtain ⟨activity, hcommit⟩ := hof
    rw [Place.settled_of_idle (Place.idle_of_none hi'), hb', hcommit]
    exact ⟨fun a => .rfl, rfl⟩

/-! ## Between two builds -/

/-- The context is gone for good, or it is still that of the number, with more calls since the start.
Whatever reference was taken out since then, the build whose batch is open does not name. -/
def Place.Since (n : Nat) (start : List ContextCall) (p : Place) : Prop :=
  p.workspace.context = none ∧ p.workspace.status = .disposed ∨
    ∃ handle later, p.workspace.context = some handle ∧ handle.serial = n ∧ p.received = start ++ later ∧
      ∀ list ∈ PathList.references, ∀ path, .remove list path ∈ ContextCall.mutations later →
        ∃ u b batch, p.inside = some ⟨.update u, .closing batch⟩ ∧ u.payload = .build b ∧
          path ∉ pathsOf list (.ofArguments b.arguments)

namespace Place

variable {setup : Setup} {p p' : Place} {updates : List Update} {n : Nat} {start : List ContextCall}

theorem Since.next (h : p.Since n start) (hreferenced : p.Referenced) (hp : p.Plain)
    (hd : PlainDeed setup p p' updates) (he : ∀ u ∈ updates, ∃ e, u.payload = .evaluation e) :
    p'.Since n start := by
  rcases h with ⟨hnone, hdisposed⟩ | ⟨handle, later, hhandle, hserial, hreceived, hgone⟩
  · exact .inl (hd.stays_gone hp hnone hdisposed)
  · -- without an open batch nothing has been taken out
    have kept (hi : p.Idle) : ∀ list ∈ PathList.references, ∀ path,
        .remove list path ∉ ContextCall.mutations later := by
      intro list hl path hm
      obtain ⟨u, b, batch, hin, -⟩ := hgone list hl path hm
      exact hi _ _ hin
    cases hd with
    | nothing hc hb hr hi hd =>
      refine .inr ⟨handle, later, hc.trans hhandle, hserial, hr.trans hreceived, ?_⟩
      rcases hi with hi | ⟨hi, -⟩
      · rw [hi]
        exact hgone
      · exact fun list hl path hm => absurd hm (kept hi list hl path)
    | skips ho hk hc hb hr hi hi' =>
      exact .inr ⟨handle, later, hc.trans hhandle, hserial, hr.trans hreceived,
        fun list hl path hm => absurd hm (kept (idle_of_none hi) list hl path)⟩
    | creates hu ha ho =>
      rw [hhandle] at ho
      cases ho
    | @evaluates u e activity _ k hu ho hk hi hc hb hr hi' =>
      cases hhandle.symm.trans ho
      obtain ⟨k', hk', hlisted⟩ := hp.standard handle hhandle
      obtain rfl := HandlerSet.standard_injective (hk.symm.trans hk')
      refine .inr ⟨_, _, hc, hserial, by rw [hr, hreceived, List.append_assoc], ?_⟩
      intro list hl path hm
      rw [ContextCall.mutations_append, ContextCall.mutations_start_cons, ContextCall.mutations_map_mutate]
        at hm
      rcases List.mem_append.1 hm with hm | hm
      · exact absurd hm (kept (idle_of_none hi) list hl path)
      · exact absurd rfl ((hlisted.evaluation_aside hm).2 list hl)
    | @builds u b activity _ k hu ho hk hi hc hb hr hi' =>
      cases hhandle.symm.trans ho
      obtain ⟨k', hk', hlisted⟩ := hp.standard handle hhandle
      obtain rfl := HandlerSet.standard_injective (hk.symm.trans hk')
      refine .inr ⟨_, _, hc, hserial, by rw [hr, hreceived, List.append_assoc], ?_⟩
      intro list hl path hm
      rw [ContextCall.mutations_append, ContextCall.mutations_start_cons, ContextCall.mutations_map_mutate]
        at hm
      have hcounted := hreferenced.counted handle k hhandle hk
      rw [settled_of_idle (idle_of_none hi)] at hcounted
      refine ⟨u, b, _, hi', hu, ?_⟩
      rcases List.mem_append.1 hm with hm | hm
      · exact absurd hm (kept (idle_of_none hi) list hl path)
      · rcases List.mem_cons.1 hm with hm | hm
        · cases hm
        · rcases List.mem_append.1 hm with hm | hm
          · exact (hlisted.counted_withArguments hcounted).2 list path hm
          · cases List.mem_singleton.1 hm
    | @commits u batch hi hof hc hb hr hi' =>
      refine .inr ⟨handle, _, hc.trans hhandle, hserial, by rw [hr, hreceived, List.append_assoc], ?_⟩
      intro list hl path hm
      rw [ContextCall.mutations_append, List.mem_append] at hm
      rcases hm with hm | hm
      · -- the batch is that of an evaluation, so it has taken nothing out
        obtain ⟨u', b, batch', hin, hb, -⟩ := hgone list hl path hm
        cases hi.symm.trans hin
        obtain ⟨e, hu⟩ := he u (by simp)
        rw [hb] at hu
        cases hu
      · cases hm
    | parts hi hc hs => exact .inl ⟨hc, hs⟩

/-- When a build ends well, nothing that it names has been taken out. -/
theorem Since.built {u : Update} {b : Build} (h : p.Since n start) (hd : PlainDeed setup p p' [u])
    (hb : u.payload = .build b) {handle : ContextHandle} (ho : p'.workspace.context = some handle) :
    handle.serial = n ∧ ∃ later, p'.received = start ++ later ∧
      ∀ list ∈ PathList.references, ∀ path ∈ pathsOf list (.ofArguments b.arguments),
        .remove list path ∉ ContextCall.mutations later := by
  cases hd with
  | skips ho' hk hc hb' hr hi hi' =>
    rcases h with ⟨hnone, -⟩ | ⟨handle', later, hhandle, hserial, hreceived, hgone⟩
    · rw [hnone] at ho'
      cases ho'
    · cases (hc.symm.trans ho).symm.trans hhandle
      refine ⟨hserial, later, hr.trans hreceived, fun list hl path hpath hm => ?_⟩
      obtain ⟨u', b', batch, hin, -⟩ := hgone list hl path hm
      rw [hi] at hin
      cases hin
  | @commits _ batch hi hof hc hb' hr hi' =>
    rcases h with ⟨hnone, -⟩ | ⟨handle', later, hhandle, hserial, hreceived, hgone⟩
    · rw [← hc, ho] at hnone
      cases hnone
    · cases (hc.symm.trans ho).symm.trans hhandle
      refine ⟨hserial, later ++ [.endBatch], by rw [hr, hreceived, List.append_assoc], ?_⟩
      intro list hl path hpath hm
      rw [ContextCall.mutations_append, List.mem_append] at hm
      rcases hm with hm | hm
      · obtain ⟨u', b', batch', hin, hb'', hout⟩ := hgone list hl path hm
        cases hi.symm.trans hin
        rw [hb] at hb''
        cases hb''
        exact hout hpath
      · cases hm

end Place

/-! ## Every run -/

namespace World

variable {setup : Setup} {i : Nat} {acts before between : List Act} {first last : Act}

theorem referenced_run (hr : setup.registry = .standard) (ha : ∀ a ∈ acts, a.Within (.plain setup)) :
    (run setup acts).Keeps (.plain setup) ∧ (run setup acts).view.Sound (.plain setup) ∧
      (run setup acts).view.Stands i (fun p _ => p.Plain ∧ p.Referenced)
        ((history setup acts).filter (·.place = i)) :=
  stands_plain (P := fun p _ => p.Referenced) hr Place.referenced_fresh
    (fun hq hp h hd => h.next (hd.upshot hq hp)) ha

/-- What a build that ends well leaves in its place, and what it found there. -/
theorem referenced_last (hr : setup.registry = .standard) (ha : ∀ a ∈ acts ++ [last], a.Within (.plain setup))
    {u : Update} (hu : u ∈ (run setup acts).integrates i [last]) :
    ∃ p p', (run setup acts).view.Shows i p ∧ p.Plain ∧ PlainDeed setup p p' [u] ∧
      (run setup (acts ++ [last])).view.Shows i p' ∧ p'.Plain ∧ p'.Referenced := by
  have hacts : ∀ a ∈ acts, a.Within (.plain setup) := fun a h => ha a (by simp [h])
  obtain ⟨hk, hs, hstands⟩ := referenced_run hr hacts
  obtain ⟨p, p', hshows, hp, hreferenced, hd, hshows', -⟩ :=
    plain_last (P := fun p _ => p.Referenced) hr ⟨hk, hs⟩ hstands (ha last (by simp)) hu
  refine ⟨p, p', hshows, hp, hd, ?_, hp.next hd, hreferenced.next (hd.upshot hshows.quiet hp)⟩
  rwa [run_concat]

/-- From an update that ends well on, until a build does. -/
theorem since_run (hr : setup.registry = .standard)
    (ha : ∀ a ∈ before ++ first :: between, a.Within (.plain setup)) {u : Update}
    (hu : u ∈ (run setup before).integrates i [first])
    (he : ∀ v ∈ (run setup (before ++ [first])).integrates i between, ∃ e, v.payload = .evaluation e) :
    ∃ n p, (run setup (before ++ first :: between)).view.Shows i p ∧
      p.Since n ((run setup (before ++ [first])).callsOf n) := by
  have hsplit : before ++ first :: between = (before ++ [first]) ++ between := by simp
  rw [hsplit] at ha ⊢
  have hfirst : ∀ a ∈ before ++ [first], a.Within (.plain setup) := fun a h => ha a (List.mem_append_left _ h)
  obtain ⟨hk, hs, -⟩ := referenced_run (i := i) hr hfirst
  obtain ⟨p, p', -, hp, hd, hshows, hp', hreferenced⟩ := referenced_last hr hfirst hu
  obtain ⟨⟨handle, hhandle⟩, -⟩ := hd.leaves hp
  have hstart : p'.Since handle.serial p'.received :=
    .inr ⟨handle, [], hhandle, rfl, (List.append_nil _).symm, fun _ _ _ hm => absurd hm List.not_mem_nil⟩
  -- the invariant is given up as soon as another build ends well
  have deed {q q' : Place} {past updates : List Update} (hquiet : q.Quiet) (hp : q.Plain)
      (h : q.Referenced ∧
        ((∀ v ∈ past, ∃ e, v.payload = .evaluation e) → q.Since handle.serial p'.received))
      (hd : PlainDeed setup q q' updates) :
      q'.Referenced ∧
        ((∀ v ∈ past ++ updates, ∃ e, v.payload = .evaluation e) → q'.Since handle.serial p'.received) := by
    refine ⟨h.1.next (hd.upshot hquiet hp), fun he => ?_⟩
    exact (h.2 fun v hv => he v (List.mem_append_left _ hv)).next h.1 hp hd
      fun v hv => he v (List.mem_append_right _ hv)
  obtain ⟨q, hq, -, -, hsince⟩ := shows_plain
    (P := fun q past => q.Referenced ∧
      ((∀ v ∈ past, ∃ e, v.payload = .evaluation e) → q.Since handle.serial p'.received))
    hr deed ⟨hk, hs⟩ hshows hp' ⟨hreferenced, fun _ => hstart⟩ fun a h => ha a (List.mem_append_right _ h)
  refine ⟨handle.serial, q, ?_, ?_⟩
  · rw [run, runFrom_append]
    exact hq
  · rw [callsOf_of_shows hshows hhandle]
    exact hsince he

/-- When a build ends well, the references of the context are exactly those that its list names, and the
outcome told last is that of the list. What the last build before it named and it names too has not been
taken out in between. -/
theorem references_mirror (hr : setup.registry = .standard)
    (ha : ∀ a ∈ acts ++ [last], a.Within (.plain setup)) {u : Update} {b : Build} (hb : u.payload = .build b)
    (hu : u ∈ (run setup acts).integrates i [last]) :
    ∃ handle, (run setup (acts ++ [last])).contextAt i = some handle ∧
      ((run setup (acts ++ [last])).contentOf handle.serial).Mirrors b.arguments ∧
      ∀ before first between v c, acts = before ++ first :: between → v.payload = .build c →
        v ∈ (run setup before).integrates i [first] →
        (∀ x ∈ (run setup (before ++ [first])).integrates i between, ∃ e, x.payload = .evaluation e) →
        ∃ later, (run setup (acts ++ [last])).callsOf handle.serial =
            (run setup (before ++ [first])).callsOf handle.serial ++ later ∧
          ∀ list ∈ PathList.references, ∀ path ∈ pathsOf list (.ofArguments c.arguments),
            path ∈ pathsOf list (.ofArguments b.arguments) →
            .remove list path ∉ ContextCall.mutations later := by
  obtain ⟨p, p', hshows, hp, hd, hshows', hp', hreferenced⟩ := referenced_last hr ha hu
  obtain ⟨⟨handle, hhandle⟩, -⟩ := hd.leaves hp
  obtain ⟨harguments, houtcome⟩ := hd.built hb
  refine ⟨handle, (contextAt_of_shows hshows').trans hhandle, ?_, ?_⟩
  · rw [contentOf_of_shows hshows' hhandle]
    exact hreferenced.mirrors hp' hhandle harguments houtcome
  · intro before first between v c hacts hc hv he
    subst hacts
    obtain ⟨n, q, hq, hsince⟩ := since_run hr (fun a h => ha a (List.mem_append_left _ h)) hv he
    obtain rfl := hq.unique hshows
    obtain ⟨rfl, later, hlater, hkept⟩ := hsince.built hd hb hhandle
    refine ⟨later, ?_, fun list hl path _ => hkept list hl path⟩
    rw [callsOf_of_shows hshows' hhandle, hlater]

set_option maxRecDepth 100000 in
/-- The second build names one path twice, in spellings that the first one did not have. -/
theorem references_mirror_respelled :
    let first := ["/r:a.dll;b.dll", "/a:x.dll"]
    let second := ["-reference:A=a.dll", "/r:c.dll,a.dll", "/a:x.dll"]
    let opened := Sample.twoCalls (Sample.evaluation ["a.cs"]) (Sample.build first)
    let w := run {} (opened ++ Sample.closing 1 :: Sample.opening 2 (Sample.build second) ++ [Sample.closing 2])
    ∃ handle, w.contextAt 0 = some handle ∧ (w.contentOf handle.serial).Mirrors second ∧
      ∃ later, w.callsOf handle.serial =
          (run {} (opened ++ [Sample.closing 1])).callsOf handle.serial ++ later ∧
        .remove .metadataReferences "a.dll" ∉ ContextCall.mutations later := by
  intro first second opened w
  have hwithin : ∀ a ∈ opened ++ Sample.closing 1 :: Sample.opening 2 (Sample.build second) ++ [Sample.closing 2],
      a.Within (.plain {}) := by
    intro a ha
    simp only [List.mem_append, List.mem_cons, List.not_mem_nil, or_false] at ha
    obtain (ha | rfl | ha) | rfl := ha
    · exact Sample.twoCalls_within rfl _ _ a ha
    · exact Sample.closing_within rfl 1
    · exact Sample.opening_within rfl 2 _ a ha
    · exact Sample.closing_within rfl 2
  have hsecond : Sample.build second ∈
      (run {} (opened ++ Sample.closing 1 :: Sample.opening 2 (Sample.build second))).integrates 0
        [Sample.closing 2] := by decide +kernel
  have hfirst : Sample.build first ∈ (run {} opened).integrates 0 [Sample.closing 1] := by decide +kernel
  have hbetween : (run {} (opened ++ [Sample.closing 1])).integrates 0
      (Sample.opening 2 (Sample.build second)) = [] := by decide +kernel
  obtain ⟨handle, hcontext, hmirrors, hkept⟩ := references_mirror rfl hwithin rfl hsecond
  obtain ⟨later, hlater, hstays⟩ := hkept opened _ _ _ _ rfl rfl hfirst (by simp [hbetween])
  exact ⟨handle, hcontext, hmirrors, later, hlater,
    hstays _ (by decide) "a.dll" (by decide +kernel) (by decide +kernel)⟩

end World

end SliceSync
