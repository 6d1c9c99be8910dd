import SliceSync.Proofs.Accounts
import SliceSync.Proofs.DriverSteps
import SliceSync.Proofs.Seats
/-!
# Why workspaces are torn down

While only the host tears workspaces down, nothing asks for the unload of a workspace that is live; and from
the time when a call takes it out, whatever asks for its unload does so with the cause of that call
(`World.retired_run`): its entry among the retiring, the call itself, and a later call that needs the slot.
-/

namespace SliceSync

/-- What may happen while the wanted slices change: nobody shuts the host down or tears a workspace down behind its
back, and subscriptions succeed. -/
def Act.Steady : Act → Prop
  | .call _ request => ∀ cause, request ≠ .dispose cause
  | .host request => request ≠ .shutdown
  | .retire .. | .requestUnload .. => False
  | .advance env _ => env.scheduling = true ∧ ∀ slice, env.unsubscribed slice = none
  | _ => True

theorem not_mem_of_steady {acts : List Act} (h : ∀ a ∈ acts, a.Steady) : .host .shutdown ∉ acts :=
  fun hmem => h _ hmem rfl

/-! ## One step -/

/-- A step of a call leaves the cause of the unload, or gives its own if there is none. -/
theorem Call.Paths.raises {setup : Setup} {env : Environment} {me : JobId} {c : Call} {session : Session}
    {w : Workspace} {a : Advance} (h : c.Paths setup env me session w a) {cause : DisposeCause}
    (hu : a.workspace.unload.cause = some cause) : w.unload.cause = some cause ∨ c.request = .dispose cause := by
  have raised (hu : (c.request.raise w.unload).cause = some cause) :
      w.unload.cause = some cause ∨ c.request = .dispose cause := by
    unfold Request.raise at hu
    split at hu
    · rename_i own hr
      cases hw : w.unload.cause with
      | some first => exact .inl (by rwa [UnloadToken.cancel_cause hw] at hu)
      | none =>
        simp only [UnloadToken.cancel, hw, Option.none_or] at hu
        exact .inr (hr.trans (by rw [Option.some.inj hu]))
    · exact .inl hu
  cases h with
  | stays | yields | despairs | learns | passes => exact .inl hu
  | queues => exact raised hu
  | enters =>
    rw [conclude_unload, Request.passage_unload] at hu
    exact raised hu
  | succeeds =>
    rw [conclude_unload, Request.passage_unload] at hu
    exact .inl hu
  | closes =>
    rw [conclude_unload, Workspace.close_unload] at hu
    exact .inl hu
  | parts =>
    rw [conclude_unload] at hu
    exact .inl hu

namespace World

variable {setup : Setup} {acts : List Act} {env : Environment} {me : JobId} {i : Nat} {cause : DisposeCause}

/-- A job that is no call on the host goes on with the call it was making, or hands over an update. -/
theorem request_of_advanceJob {job job' : Job} {c' : Call} (hj : (run setup acts).job? me = some job)
    (hhost : job.host? = none) (hg : ((run setup acts).advanceJob env me job).2 = .going job')
    (hc' : job'.call? = some (i, c')) :
    (∃ c, (run setup acts).callAt me = some (i, c) ∧ c'.request = c.request) ∨ ∃ u, c'.request = .update u := by
  have hcall : (run setup acts).callAt me = job.call? := by simp [callAt, hj]
  cases job with
  | call place c =>
    rw [advanceJob_call] at hg
    obtain ⟨c'', hgo, heq⟩ := Onward.bimap_eq_going_iff.1 hg
    cases heq
    cases hc'
    exact .inl ⟨c, hcall, request_of_going hcall hgo⟩
  | retire place r =>
    rw [advanceJob_retire] at hg
    obtain ⟨r', hretires, heq⟩ := Onward.bimap_eq_going_iff.1 hg
    cases heq
    rcases Retirement.of_going hretires with ⟨call, call', rfl, rfl, hgo⟩ | ⟨call, result, rfl, rfl, -⟩ | ⟨-, hr'⟩
    · cases hc'
      exact .inl ⟨call, hcall, request_of_going hcall hgo⟩
    · cases hc'
    · simp [Job.call?, hr'] at hc'
  | drive d =>
    rw [advanceJob_drive] at hg
    obtain ⟨d', hgo, heq⟩ := Onward.bimap_eq_going_iff.1 hg
    cases heq
    obtain ⟨event, -, hpaths⟩ := (run setup acts).advanceDriver_paths env me d
    generalize (run setup acts).advanceDriver env me d = r at hgo hpaths
    cases hpaths with
    | @works c _ _ hh hworks =>
      cases hgo
      cases hc'
      have hcall : (run setup acts).callAt me = some (d.workspace, c) := by simp [hcall, Job.call?, hh]
      exact .inl ⟨c, hcall, request_of_going hcall (by rw [hworks])⟩
    | hands =>
      cases hgo
      cases hc'
      exact .inr ⟨_, rfl⟩
    | succeeds =>
      cases hgo
      cases hc'
    | waits hh | receives hh =>
      cases hgo
      simp [Job.call?, Driver.push, hh] at hc'
    | @closes kind hh =>
      cases hgo
      cases kind <;> simp [Job.call?, Driver.closeStream, hh] at hc'
    | fails | completes | unloads => cases hgo
  | send s =>
    rw [advanceJob_send] at hg
    obtain ⟨s', -, heq⟩ := Onward.bimap_eq_going_iff.1 hg
    cases heq
    cases hc'
  | host c => cases hhost

/-- Only calls on the host tear workspaces down. -/
def HostsOnly (w : World) : Prop :=
  ∀ me job, w.job? me = some job → job.host? = none → ∀ i c, job.call? = some (i, c) →
    ∀ cause, c.request ≠ .dispose cause

theorem HostsOnly.step {a : Act} (h : (run setup acts).HostsOnly) (ha : a.Steady) :
    (run setup (acts ++ [a])).HostsOnly := by
  have hk := (plays_orderly setup acts 0).1
  intro me job hj hhost i c hc cause hr
  rw [run_concat] at hj
  rcases a.step_or_not me with hne | ⟨env, rfl⟩
  · rcases job?_perform hk (within_freely setup a) hne with hsame | ⟨-, new, hnew, hjob⟩
    · exact h me job (hsame.symm.trans hj) hhost i c hc cause hr
    · cases hnew.symm.trans hj
      rcases hjob with hbegins | ⟨d, hd, rfl⟩
      · cases a with
        | call place request =>
          cases hbegins
          cases hc
          exact ha cause hr
        | retire place cause => cases ha
        | host request =>
          cases hbegins
          cases hhost
        | send pair updates =>
          cases hbegins
          cases hc
        | _ => cases hbegins
      · simp [Job.call?, hd.handing] at hc
  · have he : (freely setup).fits env := trivial
    change ((run setup acts).advance env me).job? me = _ at hj
    cases hbefore : (run setup acts).job? me with
    | none =>
      rw [advance_of_none hbefore] at hj
      cases hbefore.symm.trans hj
    | some before =>
      rw [job?_advance_self hk he hbefore] at hj
      have hg := Onward.state?_eq_some_iff.1 hj
      cases hbh : before.host? with
      | some c =>
        -- a call on the host goes on as one
        cases before with
        | host c =>
          have hkind := kind_of_going hg
          cases job with
          | host c' => cases hhost
          | _ => cases hkind
        | _ => cases hbh
      | none =>
        rcases request_of_advanceJob hbefore hbh hg hc with ⟨c', hc', hsame⟩ | ⟨u, hu⟩
        · have hcall : before.call? = some (i, c') := by simpa [callAt, hbefore] using hc'
          exact h me before hbefore hbh i c' hcall cause (hsame.symm.trans hr)
        · cases hr.symm.trans hu

/-- A teardown that is being made is one of a call on the host. -/
theorem HostsOnly.dooms {past : List Ending} {places : List Nat} (h : (run setup acts).HostsOnly)
    (hk : (run setup acts).Kept past places) {c : Call} (hc : (run setup acts).callAt me = some (i, c))
    (hr : c.request = .dispose cause) : ∃ call, (run setup acts).hostAt me = some call ∧ call.Dooms i cause := by
  obtain ⟨job, hj, hcall⟩ := Option.bind_eq_some_iff.1 hc
  cases hhost : job.host? with
  | none => exact absurd hr (h me job hj hhost i c hcall cause)
  | some call =>
    cases job with
    | host call' =>
      have hat := hostAt_eq_some_iff.2 hj
      exact ⟨call', hat, (hk.fit hat).dooms hcall hr⟩
    | _ => cases hhost

/-- What ends with an act is a call that was being made. -/
theorem exists_call_of_endings {w : World} {a : Act} {e : Ending} (he : e ∈ w.endings a) :
    ∃ me c, w.callAt me = some (e.place, c) ∧ e.request = c.request := by
  cases a with
  | advance env me =>
    unfold endings at he
    dsimp only at he
    split at he
    · cases he
    · rename_i j c hc
      split at he
      · cases he
      · cases List.mem_singleton.1 he
        exact ⟨me, c, hc, rfl⟩
  | _ => cases he

/-- A workspace that has just come has nothing yet. -/
theorem workspace_new {a : Act} {ws : Workspace} (hw : (run setup acts).workspace? i = none)
    (hw' : (run setup (acts ++ [a])).workspace? i = some ws) : ∃ slice, ws = { slice } := by
  rw [← view_workspaces] at hw hw'
  obtain ⟨hkeeps, ⟨hv, -⟩ | ⟨s, hs, -⟩⟩ := plays_orderly setup acts i
  · have hm := perform_moves hkeeps (within_freely setup a)
    rw [← run_concat] at hm
    rcases hv.move hm with hv' | ⟨s', hs', hfresh⟩
    · exact absurd (hv'.workspace.symm.trans hw') nofun
    · cases hs'.workspace.symm.trans hw'
      exact hfresh.workspace
  · exact absurd (hs.workspace.symm.trans hw) nofun

/-- All that asks for the unload of a workspace, in the past, now or later on what is known now, does so with a cause
that is in order. -/
structure Agreed (w : World) (past : List Ending) (i : Nat) (ok : DisposeCause → Prop) : Prop where
  retiring : ∀ {slice cause}, w.slots.retiring.get? slice = some ⟨i, cause⟩ → ok cause
  dooms : ∀ {me c cause}, w.hostAt me = some c → c.Dooms i cause → ok cause
  unload : ∀ {ws cause}, w.workspace? i = some ws → ws.unload.cause = some cause → ok cause
  past : ∀ {e cause}, e ∈ past → e.place = i → e.request = .dispose cause → ok cause

/-- What takes the workspace out of the live ones decides the cause; nothing else brings a new one. -/
theorem Agreed.step {past : List Ending} {places : List Nat} {ok ok' : DisposeCause → Prop} {a : Act}
    (h : (run setup acts).Agreed past i ok) (hk : (run setup acts).Kept past places)
    (hh : (run setup acts).HostsOnly) (ha : a.Steady) (hok : ∀ cause, ok cause → ok' cause)
    (hret : ∀ {env me c step slice cause}, a = .advance env me → (run setup acts).hostAt me = some c →
      (run setup (acts ++ [a])).slots = step.slots → c.Retires (run setup acts) step slice i cause → ok' cause) :
    (run setup (acts ++ [a])).Agreed (past ++ (run setup acts).endings a) i ok' := by
  have hkeeps := (plays_orderly setup acts i).1
  have hm := perform_host hkeeps (within_freely setup a)
  rw [← run_concat] at hm
  constructor
  case retiring =>
    intro slice cause hr
    cases hm with
    | rests slots calls makes => exact hok _ (h.retiring (slots ▸ hr))
    | begins hn slots calls => exact hok _ (h.retiring (slots ▸ hr))
    | goes hc hp slots onward calls makes here =>
      rcases hp.retiring_new (slots ▸ hr) with hr | hretires
      · exact hok _ (h.retiring hr)
      · exact hret rfl hc slots hretires
  case dooms =>
    intro me c' cause hc' hdooms
    rcases hostAt_new hm hc' with hc' | ⟨request, -, -, rfl⟩ | ⟨env, c, step, rfl, hc, hp, hn, slots⟩
    · exact hok _ (h.dooms hc' hdooms)
    · cases hdooms
    · rcases hp.dooms_new hc hn hdooms with hdooms | ⟨slice, hretires⟩ | ⟨slice, hr⟩
      · exact hok _ (h.dooms hc hdooms)
      · exact hret rfl hc slots hretires
      · exact hok _ (h.retiring hr)
  case unload =>
    intro ws' cause hw' hu
    cases hbefore : (run setup acts).workspace? i with
    | none =>
      obtain ⟨slice, rfl⟩ := workspace_new hbefore hw'
      cases hu
    | some ws =>
      have hw : (run setup acts).view.workspaces[i]? = some ws := by rwa [view_workspaces]
      rw [run_concat, ← view_workspaces] at hw'
      rcases workspaces_perform hkeeps (within_freely setup a) hw with hsame | ⟨other, rfl, -⟩ | ⟨env, me, c, rfl, hc, hstep⟩
      · cases hsame.symm.trans hw'
        exact hok _ (h.unload hbefore hu)
      · cases ha
      · cases hstep.symm.trans hw'
        obtain ⟨s, hs, hl⟩ := exists_scene (lt_of_workspace? hbefore)
        have hfit := hl.fit ((hs.calls me c).2 hc)
        rcases (Call.paths _ env me (run setup acts).session ws hfit).raises hu with hu | hr
        · exact hok _ (h.unload hbefore hu)
        · obtain ⟨call, hcall, hdooms⟩ := hh.dooms hk hc hr
          exact hok _ (h.dooms hcall hdooms)
  case past =>
    intro e cause he hi hr
    rcases List.mem_append.1 he with he | he
    · exact hok _ (h.past he hi hr)
    · obtain ⟨me, c, hc, hsame⟩ := exists_call_of_endings he
      rw [hi] at hc
      obtain ⟨call, hcall, hdooms⟩ := hh.dooms hk hc (hsame.symm.trans hr)
      exact hok _ (h.dooms hcall hdooms)

/-! ## Every run -/

/-- Only the host tears workspaces down, and of what is live nobody asks for the unload. -/
structure Attributed (w : World) (past : List Ending) : Prop where
  hosts : w.HostsOnly
  filled : ∀ {e cause}, e ∈ past → e.request = .dispose cause → e.place < w.hosted.length
  live : ∀ {slice i}, w.slots.live.get? slice = some i → w.Agreed past i fun _ => False

/-- Of a workspace that is not there yet nobody asks for the unload. -/
theorem Attributed.absent {w : World} {past : List Ending} {places : List Nat} (h : w.Attributed past)
    (hk : w.Kept past places) (hi : w.hosted.length ≤ i) : w.Agreed past i fun _ => False := by
  constructor
  case retiring => exact fun hr => absurd (hk.retiring hr) (Nat.not_lt_of_le hi)
  case dooms => exact fun hc hdooms => absurd (hk.owed hc hdooms.owes) (Nat.not_lt_of_le hi)
  case unload => exact fun hw _ => absurd (lt_of_workspace? hw) (Nat.not_lt_of_le hi)
  case past =>
    rintro e cause he rfl hr
    exact absurd (h.filled he hr) (Nat.not_lt_of_le hi)

theorem attributed_initial (setup : Setup) : (initial setup).Attributed [] := by
  refine ⟨?_, ?_, ?_⟩
  · intro me job hj
    cases hj
  · intro e cause he
    cases he
  · intro slice i hl
    cases hl

theorem Attributed.step {past : List Ending} {places : List Nat} {a : Act} (h : (run setup acts).Attributed past)
    (hk : (run setup acts).Kept past places) (hs : (run setup acts).Seated past places) (ha : a.Steady) :
    (run setup (acts ++ [a])).Attributed (past ++ (run setup acts).endings a) := by
  have hm := perform_host (plays_orderly setup acts 0).1 (within_freely setup a)
  rw [← run_concat] at hm
  constructor
  case hosts => exact h.hosts.step ha
  case filled =>
    intro e cause he hr
    refine Nat.lt_of_lt_of_le ?_ (hosted_le setup acts [a])
    rcases List.mem_append.1 he with he | he
    · exact h.filled he hr
    · obtain ⟨me, c, hc, hsame⟩ := exists_call_of_endings he
      obtain ⟨call, hcall, hdooms⟩ := h.hosts.dooms hk hc (hsame.symm.trans hr)
      exact hk.owed hcall hdooms.owes
  case live =>
    intro slice i hl
    rcases live_new hm hl with hbefore | ⟨rfl, -, -⟩
    · -- it has not been taken out, since it is still live
      refine (h.live hbefore).step hk h.hosts ha (fun _ => id) ?_
      intro env me c step other cause _ _ slots hretires
      obtain rfl : other = slice := (hs.live hretires.live).2.unique (hs.live hbefore).2
      rw [slots] at hl
      exact absurd (hretires.out.symm.trans hl) nofun
    · refine (h.absent hk (Nat.le_refl _)).step hk h.hosts ha (fun _ => id) ?_
      intro env me c step other cause _ _ _ hretires
      exact Nat.lt_irrefl _ (hk.live hretires.live)

theorem attributed_run (setup : Setup) (acts : List Act) (ha : ∀ a ∈ acts, a.Steady) :
    (run setup acts).Attributed (history setup acts) := by
  induction acts using List.reverseRecOn with
  | nil => exact attributed_initial setup
  | append_singleton acts a ih =>
    have hacts : ∀ b ∈ acts, b.Steady := fun b hb => ha b (List.mem_append_left _ hb)
    rw [history_concat]
    exact (ih hacts).step (kept_run setup acts) (seated_run setup acts (not_mem_of_steady hacts)) (ha a (by simp))

/-- What has been taken out of the live ones does not come back, and the cause stays in order. -/
theorem agreed_later {ok : DisposeCause → Prop} (ha : ∀ a ∈ acts, a.Steady) (hi : i < (run setup acts).hosted.length)
    (hn : ∀ slice, (run setup acts).slots.live.get? slice ≠ some i)
    (h : (run setup acts).Agreed (history setup acts) i ok) (more : List Act) (hmore : ∀ a ∈ more, a.Steady) :
    (∀ slice, (run setup (acts ++ more)).slots.live.get? slice ≠ some i) ∧
      (run setup (acts ++ more)).Agreed (history setup (acts ++ more)) i ok := by
  induction more using List.reverseRecOn with
  | nil => simpa using And.intro hn h
  | append_singleton more a ih =>
    have hsteady : ∀ b ∈ more, b.Steady := fun b hb => hmore b (List.mem_append_left _ hb)
    obtain ⟨hout, hagreed⟩ := ih hsteady
    rw [← List.append_assoc, history_concat]
    have hall : ∀ b ∈ acts ++ more, b.Steady := fun b hb => (List.mem_append.1 hb).elim (ha b) (hsteady b)
    constructor
    · intro slice hl
      have hm := perform_host (plays_orderly setup (acts ++ more) 0).1 (within_freely setup a)
      rw [← run_concat] at hm
      rcases live_new hm hl with hl | ⟨rfl, -, -⟩
      · exact hout slice hl
      · exact Nat.not_lt_of_le (hosted_le setup acts more) hi
    · refine hagreed.step (kept_run setup _) (attributed_run setup _ hall).hosts (hmore a (by simp)) (fun _ => id) ?_
      intro env me c step slice cause _ _ _ hretires
      exact absurd hretires.live (hout slice)

/-- A workspace that leaves the live ones is retired by a call that does not want its slice, and from then on all
that asks for its unload does so with the cause of that call. -/
theorem retired_run {a : Act} {slice : Slice} (ha : ∀ b ∈ acts ++ [a], b.Steady)
    (hl : (run setup acts).slots.live.get? slice = some i)
    (hout : (run setup (acts ++ [a])).slots.live.get? slice ≠ some i) :
    ∃ env me c slices cause, a = .advance env me ∧ (run setup acts).hostAt me = some c ∧
      c.demands = some (slices, cause) ∧ slice ∉ slices ∧
      ∀ more, (∀ b ∈ more, b.Steady) →
        (run setup (acts ++ [a] ++ more)).Agreed (history setup (acts ++ [a] ++ more)) i (· = cause) := by
  have hacts : ∀ b ∈ acts, b.Steady := fun b hb => ha b (List.mem_append_left _ hb)
  have hk := kept_run setup acts
  have hs := seated_run setup acts (not_mem_of_steady hacts)
  have hat := attributed_run setup acts hacts
  have hm := perform_host (plays_orderly setup acts 0).1 (within_freely setup a)
  rw [← run_concat] at hm
  cases hm with
  | rests slots calls makes => exact absurd (slots ▸ hl) hout
  | begins hn slots calls => exact absurd (slots ▸ hl) hout
  | @goes env me c step _ hc hp slots onward calls makes here =>
    rcases hp.live_out hk.toLatched hc hl with hl | ⟨cause, hretires⟩
    · exact absurd (slots ▸ hl) hout
    obtain ⟨slices, hdemands, hunwanted, -⟩ := hretires.wants (hs.calm hc)
    refine ⟨env, me, c, slices, cause, rfl, hc, hdemands, hunwanted, fun more hmore => ?_⟩
    have hi : i < (run setup (acts ++ [.advance env me])).hosted.length :=
      Nat.lt_of_lt_of_le (hk.live hl) (hosted_le setup acts _)
    refine (agreed_later ha hi ?_ ?_ more hmore).2
    · -- it was live under its slice only
      intro other hl'
      have hm := perform_host (plays_orderly setup acts 0).1 (within_freely setup (.advance env me))
      rw [← run_concat] at hm
      rcases live_new hm hl' with hbefore | ⟨rfl, -, -⟩
      · obtain rfl : other = slice := (hs.live hbefore).2.unique (hs.live hl).2
        exact hout hl'
      · exact Nat.lt_irrefl _ (hk.live hl)
    · rw [history_concat]
      refine (hat.live hl).step hk hat.hosts (ha _ (by simp)) (fun _ => False.elim) ?_
      intro env' me' c' step' other why hact hc' _ hretires'
      cases hact
      cases hc.symm.trans hc'
      obtain ⟨slices', hdemands', -⟩ := hretires'.wants (hs.calm hc)
      cases hdemands.symm.trans hdemands'
      rfl

end World

end SliceSync
