import Mathlib.Data.List.Find
import Mathlib.Logic.Relation
import SliceSync.Unload
/-!
# Tokens that share a request

Tokens are made, copied and cancelled in any order, copies of copies and copies of cancelled tokens included. Two tokens
are kin if copying leads from the one to the other. A token is cancelled if one of its kin was, with the cause of the
earliest cancellation among them, and what is done with one family is not seen in any other.

A token is held in two cells, a flag and a cause, and each copy has both in common with what it is a copy of.
`TokenHistory.cells` follows the cells, `TokenHistory.pool` the families; in every history they say the same.

Main statement: `TokenHistory.shared`.
-/

namespace SliceSync

/-! ## Cells -/

/-- Tokens as they are held. -/
structure TokenCells where
  flags : List Bool := []
  /-- Each is written once. -/
  causes : List (Option DisposeCause) := []
  /-- The places of each token's flag and cause. -/
  tokens : List (Nat × Nat) := []

namespace TokenCells

/-- Makes a token with cells of its own. -/
def fresh (c : TokenCells) : TokenCells :=
  { flags := c.flags ++ [false], causes := c.causes ++ [none],
    tokens := c.tokens ++ [(c.flags.length, c.causes.length)] }

/-- Makes a token with the cells of another. -/
def copy (c : TokenCells) (token : Nat) : TokenCells :=
  match c.tokens[token]? with
  | some places => { c with tokens := c.tokens ++ [places] }
  | none => c

/-- Writes the cause, if there is none, and raises the flag. -/
def cancel (c : TokenCells) (token : Nat) (cause : DisposeCause) : TokenCells :=
  match c.tokens[token]? with
  | some places =>
    { c with causes := c.causes.modify places.2 (·.or (some cause)), flags := c.flags.modify places.1 fun _ => true }
  | none => c

def flag? (c : TokenCells) (token : Nat) : Option Bool :=
  (c.tokens[token]?).bind fun places => c.flags[places.1]?

def cause? (c : TokenCells) (token : Nat) : Option (Option DisposeCause) :=
  (c.tokens[token]?).bind fun places => c.causes[places.2]?

/-- Refuses if the flag is up and a cause is written. -/
def check? (c : TokenCells) (token : Nat) : Option (Except SyncError Unit) := do
  let flag ← c.flag? token
  let cause ← c.cause? token
  match cause with
  | some cause => return if flag then .error cause.error else .ok ()
  | none => return .ok ()

end TokenCells

namespace TokenPool

/-- The cells of families, of which each has one flag and one cause. -/
def cells (p : TokenPool) : TokenCells where
  flags := p.families.map (·.isCancelled)
  causes := p.families.map (·.cause)
  tokens := p.tokens.map fun family => (family, family)

theorem cells_fresh (p : TokenPool) : p.fresh.cells = p.cells.fresh := by
  simp [cells, fresh, TokenCells.fresh, UnloadToken.isCancelled]

theorem cells_copy (p : TokenPool) (token : Nat) : (p.copy token).cells = p.cells.copy token := by
  cases h : p.tokens[token]? <;> simp [cells, copy, TokenCells.copy, h]

theorem map_modify {α β : Type} {f : α → α} {g : β → β} {see : α → β} (h : ∀ a, see (f a) = g (see a)) (l : List α)
    (i : Nat) : (l.modify i f).map see = (l.map see).modify i g := by
  refine List.ext_getElem? fun j => ?_
  rw [List.getElem?_map, List.getElem?_modify, List.getElem?_modify, List.getElem?_map]
  cases l[j]? with
  | none => rfl
  | some a => by_cases hi : i = j <;> simp [hi, h]

theorem cells_cancel (p : TokenPool) (token : Nat) (cause : DisposeCause) :
    (p.cancel token cause).cells = p.cells.cancel token cause := by
  have hflag (t : UnloadToken) : (t.cancel cause).isCancelled = true := by
    simp [UnloadToken.cancel, UnloadToken.isCancelled]
  have hcause (t : UnloadToken) : (t.cancel cause).cause = t.cause.or (some cause) := rfl
  cases h : p.tokens[token]? with
  | none => simp [cells, cancel, TokenCells.cancel, h]
  | some family =>
    simp only [cells, cancel, TokenCells.cancel, h, List.getElem?_map, Option.map_some, TokenCells.mk.injEq, and_true]
    exact ⟨map_modify hflag p.families family, map_modify hcause p.families family⟩

/-- A token reads from its cells what its family says. -/
theorem read_cells {p : TokenPool} {token : Nat} {t : UnloadToken} (h : p.get? token = some t) :
    p.cells.flag? token = some t.isCancelled ∧ p.cells.cause? token = some t.cause ∧
      p.cells.check? token = some t.check := by
  obtain ⟨family, hfamily, ht⟩ := Option.bind_eq_some_iff.1 h
  have hflag : p.cells.flag? token = some t.isCancelled := by simp [cells, TokenCells.flag?, hfamily, ht]
  have hcause : p.cells.cause? token = some t.cause := by simp [cells, TokenCells.cause?, hfamily, ht]
  refine ⟨hflag, hcause, ?_⟩
  rw [TokenCells.check?, hflag, hcause, UnloadToken.check]
  cases hc : t.cause <;> simp [UnloadToken.isCancelled, hc]

end TokenPool

/-! ## Histories -/

/-- What was done with tokens, by the number of tokens there are. Tokens are numbered as they are made, and each call is
about one that is there. -/
inductive TokenHistory : Nat → Type
  | start : TokenHistory 0
  | fresh {n : Nat} (h : TokenHistory n) : TokenHistory (n + 1)
  | copy {n : Nat} (h : TokenHistory n) (token : Fin n) : TokenHistory (n + 1)
  | cancel {n : Nat} (h : TokenHistory n) (token : Fin n) (cause : DisposeCause) : TokenHistory n

namespace TokenHistory

/-- The families that a history leaves. -/
def pool {n : Nat} : TokenHistory n → TokenPool
  | start => {}
  | fresh h => h.pool.fresh
  | copy h token => h.pool.copy token
  | cancel h token cause => h.pool.cancel token cause

/-- The cells that a history leaves. -/
def cells {n : Nat} : TokenHistory n → TokenCells
  | start => {}
  | fresh h => h.cells.fresh
  | copy h token => h.cells.copy token
  | cancel h token cause => h.cells.cancel token cause

/-- The cancellations in order, each with the token that was cancelled. -/
def cancellations {n : Nat} : TokenHistory n → List (Nat × DisposeCause)
  | start => []
  | fresh h => h.cancellations
  | copy h _ => h.cancellations
  | cancel h token cause => h.cancellations ++ [(token.val, cause)]

/-- The second token was made as a copy of the first. -/
def IsCopy {n : Nat} (h : TokenHistory n) (i j : Nat) : Prop :=
  match h with
  | start => False
  | fresh h => h.IsCopy i j
  | copy (n := made) h token => h.IsCopy i j ∨ (i = token ∧ j = made)
  | cancel h _ _ => h.IsCopy i j

/-- Copying leads from the one token to the other. -/
def Kin {n : Nat} (h : TokenHistory n) : Nat → Nat → Prop := Relation.EqvGen h.IsCopy

variable {n : Nat}

theorem cells_eq (h : TokenHistory n) : h.cells = h.pool.cells := by
  induction h with
  | start => rfl
  | fresh h ih => rw [cells, ih, pool, TokenPool.cells_fresh]
  | copy h token ih => rw [cells, ih, pool, TokenPool.cells_copy]
  | cancel h token cause ih => rw [cells, ih, pool, TokenPool.cells_cancel]

/-! ## Families -/

/-- The family of a token. -/
def family? (h : TokenHistory n) (token : Nat) : Option Nat := h.pool.tokens[token]?

/-- The number of tokens is right, and each is in a family that there is. -/
structure Placed (n : Nat) (p : TokenPool) : Prop where
  length : p.tokens.length = n
  family_lt : ∀ family ∈ p.tokens, family < p.families.length

theorem Placed.family {p : TokenPool} (hp : Placed n p) (token : Fin n) :
    ∃ family, p.tokens[token.val]? = some family ∧ family < p.families.length := by
  have hlt : token.val < p.tokens.length := hp.length ▸ token.isLt
  exact ⟨p.tokens[token.val], List.getElem?_eq_getElem hlt, hp.family_lt _ (List.getElem_mem hlt)⟩

theorem pool_copy {h : TokenHistory n} {token : Fin n} {family : Nat} (hf : h.family? token = some family) :
    (h.copy token).pool = { h.pool with tokens := h.pool.tokens ++ [family] } := by
  rw [pool, TokenPool.copy, show h.pool.tokens[token.val]? = some family from hf]

theorem pool_cancel {h : TokenHistory n} {token : Fin n} {family : Nat} (hf : h.family? token = some family)
    (cause : DisposeCause) :
    (h.cancel token cause).pool = { h.pool with families := h.pool.families.modify family (·.cancel cause) } := by
  rw [pool, TokenPool.cancel, show h.pool.tokens[token.val]? = some family from hf]

theorem placed (h : TokenHistory n) : Placed n h.pool := by
  induction h with
  | start => exact ⟨rfl, nofun⟩
  | fresh h ih =>
    refine ⟨by simp [pool, TokenPool.fresh, ih.length], fun family hfamily => ?_⟩
    rcases List.mem_append.1 hfamily with hold | hnew
    · simpa [pool, TokenPool.fresh] using Nat.lt_succ_of_lt (ih.family_lt family hold)
    · simp [pool, TokenPool.fresh, List.mem_singleton.1 hnew]
  | copy h token ih =>
    obtain ⟨family, hfamily, hlt⟩ := ih.family token
    rw [pool_copy hfamily]
    refine ⟨by simp [ih.length], fun other hother => ?_⟩
    rcases List.mem_append.1 hother with hold | hnew
    · exact ih.family_lt other hold
    · exact List.mem_singleton.1 hnew ▸ hlt
  | cancel h token cause ih =>
    obtain ⟨family, hfamily, -⟩ := ih.family token
    rw [pool_cancel hfamily]
    exact ⟨ih.length, by simpa using ih.family_lt⟩

variable (h : TokenHistory n) (token : Fin n) (cause : DisposeCause)

theorem exists_family : ∃ family, h.family? token = some family ∧ family < h.pool.families.length :=
  h.placed.family token

theorem family?_fresh {i : Nat} (hi : i < n) : h.fresh.family? i = h.family? i :=
  List.getElem?_append_left (h.placed.length.symm ▸ hi)

/-- A new token has a family of its own. -/
theorem family?_fresh_self : h.fresh.family? n = some h.pool.families.length := by
  have hlength := h.placed.length
  simp [family?, pool, TokenPool.fresh, hlength]

theorem family?_fresh_ne {i : Nat} (hi : i < n) : h.fresh.family? i ≠ h.fresh.family? n := by
  obtain ⟨family, hfamily, hlt⟩ := h.exists_family ⟨i, hi⟩
  rw [family?_fresh h hi, hfamily, family?_fresh_self]
  exact fun hsame => Nat.ne_of_lt hlt (Option.some.inj hsame)

theorem family?_copy {i : Nat} (hi : i < n) : (h.copy token).family? i = h.family? i := by
  obtain ⟨family, hfamily, -⟩ := h.exists_family token
  rw [family?, pool_copy hfamily]
  exact List.getElem?_append_left (h.placed.length.symm ▸ hi)

/-- A copy is in the family of what it is a copy of. -/
theorem family?_copy_self : (h.copy token).family? n = h.family? token := by
  obtain ⟨family, hfamily, -⟩ := h.exists_family token
  have hlength := h.placed.length
  rw [family?, pool_copy hfamily, hfamily]
  simp [hlength]

theorem family?_cancel (i : Nat) : (h.cancel token cause).family? i = h.family? i := by
  obtain ⟨family, hfamily, -⟩ := h.exists_family token
  rw [family?, pool_cancel hfamily]
  rfl

/-! ## Kin -/

variable {h} {i j : Nat}

theorem family?_eq_of_isCopy (hc : h.IsCopy i j) : i < n ∧ j < n ∧ h.family? i = h.family? j := by
  induction h with
  | start => exact hc.elim
  | fresh h ih =>
    obtain ⟨hi, hj, heq⟩ := ih hc
    exact ⟨by omega, by omega, by rw [family?_fresh h hi, family?_fresh h hj, heq]⟩
  | copy h token ih =>
    rcases hc with hc | ⟨rfl, rfl⟩
    · obtain ⟨hi, hj, heq⟩ := ih hc
      exact ⟨by omega, by omega, by rw [family?_copy h token hi, family?_copy h token hj, heq]⟩
    · exact ⟨by omega, by omega, by rw [family?_copy h token token.isLt, family?_copy_self]⟩
  | cancel h token cause ih =>
    rw [family?_cancel, family?_cancel]
    exact ih hc

theorem family?_eq_of_kin (hk : h.Kin i j) : h.family? i = h.family? j := by
  induction hk with
  | rel i j hc => exact (family?_eq_of_isCopy hc).2.2
  | refl i => rfl
  | symm i j _ ih => exact ih.symm
  | trans i j k _ _ ih ih' => exact ih.trans ih'

theorem Kin.copy (hk : h.Kin i j) (token : Fin n) : (h.copy token).Kin i j :=
  Relation.EqvGen.mono (fun _ _ hc => Or.inl hc) i j hk

theorem kin_of_family?_eq (hi : i < n) (hj : j < n) (heq : h.family? i = h.family? j) : h.Kin i j := by
  induction h generalizing i j with
  | start => omega
  | fresh h ih =>
    -- with the new token on one side only, the families differ
    rcases Nat.lt_succ_iff_lt_or_eq.1 hi with hi' | rfl <;> rcases Nat.lt_succ_iff_lt_or_eq.1 hj with hj' | rfl
    · rw [family?_fresh h hi', family?_fresh h hj'] at heq
      exact ih hi' hj' heq
    · exact absurd heq (h.family?_fresh_ne hi')
    · exact absurd heq.symm (h.family?_fresh_ne hj')
    · exact .refl _
  | @copy made h token ih =>
    have hold {i j : Nat} (hi : i < made) (hj : j < made) (heq : h.family? i = h.family? j) :
        (h.copy token).Kin i j := (ih hi hj heq).copy token
    have hnew : (h.copy token).Kin token made := .rel _ _ (.inr ⟨rfl, rfl⟩)
    rcases Nat.lt_succ_iff_lt_or_eq.1 hi with hi' | rfl <;> rcases Nat.lt_succ_iff_lt_or_eq.1 hj with hj' | rfl
    · rw [family?_copy h token hi', family?_copy h token hj'] at heq
      exact hold hi' hj' heq
    · rw [family?_copy h token hi', family?_copy_self] at heq
      exact .trans _ _ _ (hold hi' token.isLt heq) hnew
    · rw [family?_copy h token hj', family?_copy_self] at heq
      exact .trans _ _ _ hnew.symm (hold token.isLt hj' heq)
    · exact .refl _
  | cancel h token cause ih =>
    rw [family?_cancel, family?_cancel] at heq
    exact ih hi hj heq

/-- Tokens are kin if they are in one family. -/
theorem kin_iff (hi : i < n) (hj : j < n) : h.Kin i j ↔ h.family? i = h.family? j :=
  ⟨family?_eq_of_kin, kin_of_family?_eq hi hj⟩

/-! ## What was cancelled -/

theorem lt_of_mem_cancellations (h : TokenHistory n) : ∀ e ∈ h.cancellations, e.1 < n := by
  induction h with
  | start => nofun
  | fresh h ih => exact fun e he => Nat.lt_succ_of_lt (ih e he)
  | copy h token ih => exact fun e he => Nat.lt_succ_of_lt (ih e he)
  | cancel h token cause ih =>
    intro e he
    rcases List.mem_append.1 he with he | he
    · exact ih e he
    · exact List.mem_singleton.1 he ▸ token.isLt

/-- The earliest cancellation in a family. -/
def earliest? (h : TokenHistory n) (family : Nat) : Option DisposeCause :=
  (h.cancellations.find? fun e => h.family? e.1 = some family).map (·.2)

/-- Tokens made later have no part in it. -/
theorem earliest?_congr {m : Nat} (h : TokenHistory n) (h' : TokenHistory m) (hc : h'.cancellations = h.cancellations)
    (hf : ∀ i < n, h'.family? i = h.family? i) (family : Nat) : h'.earliest? family = h.earliest? family := by
  rw [earliest?, hc, earliest?]
  exact congrArg (Option.map _) (List.find?_congr fun e he => by rw [hf e.1 (lt_of_mem_cancellations h e he)])

theorem earliest?_cancel (h : TokenHistory n) (token : Fin n) (cause : DisposeCause) (family : Nat) :
    (h.cancel token cause).earliest? family =
      (h.earliest? family).or (if h.family? token = some family then some cause else none) := by
  simp only [earliest?, family?_cancel, cancellations, List.find?_append, List.find?_singleton, decide_eq_true_eq,
    Option.map_or]
  split <;> rfl

/-- In a family that is not there yet nothing was cancelled. -/
theorem earliest?_of_le (h : TokenHistory n) {family : Nat} (hf : h.pool.families.length ≤ family) :
    h.earliest? family = none := by
  refine Option.map_eq_none_iff.2 (List.find?_eq_none.2 fun e he hfamily => ?_)
  obtain ⟨other, hother, hlt⟩ := h.exists_family ⟨e.1, lt_of_mem_cancellations h e he⟩
  have hsame : other = family := Option.some.inj (hother.symm.trans (of_decide_eq_true hfamily))
  omega

/-- The request of a family is the earliest cancellation in it. -/
theorem families_eq (h : TokenHistory n) {family : Nat} (hf : family < h.pool.families.length) :
    h.pool.families[family]? = some ⟨h.earliest? family⟩ := by
  induction h generalizing family with
  | start => exact absurd hf (Nat.not_lt_zero _)
  | fresh h ih =>
    rw [h.earliest?_congr h.fresh rfl fun _ => h.family?_fresh]
    have hlength : h.fresh.pool.families.length = h.pool.families.length + 1 := by simp [pool, TokenPool.fresh]
    rcases Nat.lt_succ_iff_lt_or_eq.1 (hlength ▸ hf) with hold | rfl
    · rw [pool, TokenPool.fresh, List.getElem?_append_left hold, ih hold]
    · rw [pool, TokenPool.fresh, List.getElem?_concat_length, h.earliest?_of_le (Nat.le_refl _)]
  | copy h token ih =>
    obtain ⟨other, hother, -⟩ := h.exists_family token
    rw [h.earliest?_congr (h.copy token) rfl fun _ => h.family?_copy token]
    rw [pool_copy hother] at hf ⊢
    exact ih hf
  | cancel h token cause ih =>
    obtain ⟨other, hother, -⟩ := h.exists_family token
    rw [earliest?_cancel, hother]
    rw [pool_cancel hother] at hf ⊢
    rw [List.getElem?_modify, ih (by simpa using hf)]
    by_cases heq : other = family <;> simp [heq, UnloadToken.cancel]

/-! ## What a token says -/

theorem get?_eq {family : Nat} (hf : h.family? j = some family) : h.pool.get? j = h.pool.families[family]? :=
  congrArg (Option.bind · _) hf

/-- A token says what was cancelled first among its kin. -/
structure Stands (h : TokenHistory n) (j : Nat) (t : UnloadToken) : Prop where
  isCancelled_iff : t.isCancelled = true ↔ ∃ e ∈ h.cancellations, h.Kin e.1 j
  cause_iff : ∀ cause, t.cause = some cause ↔ ∃ earlier i later,
    h.cancellations = earlier ++ (i, cause) :: later ∧ h.Kin i j ∧ ∀ e ∈ earlier, ¬h.Kin e.1 j
  check_error_iff : ∀ error, t.check = .error error ↔ ∃ cause, t.cause = some cause ∧ error = cause.error
  /-- Its cells say the same. -/
  cells : h.cells.flag? j = some t.isCancelled ∧ h.cells.cause? j = some t.cause ∧ h.cells.check? j = some t.check

theorem check_error_iff (t : UnloadToken) (error : SyncError) :
    t.check = .error error ↔ ∃ cause, t.cause = some cause ∧ error = cause.error := by
  rw [UnloadToken.check]
  cases t.cause <;> simp [eq_comm]

theorem get?_stands (h : TokenHistory n) (j : Fin n) : ∃ t, h.pool.get? j = some t ∧ h.Stands j t := by
  obtain ⟨family, hfamily, hlt⟩ := h.exists_family j
  have hget := (get?_eq hfamily).trans (h.families_eq hlt)
  have hkin {e : Nat × DisposeCause} (he : e ∈ h.cancellations) : h.Kin e.1 j ↔ h.family? e.1 = some family := by
    rw [kin_iff (lt_of_mem_cancellations h e he) j.isLt, hfamily]
  refine ⟨_, hget, ⟨?_, fun cause => ?_, check_error_iff _, ?_⟩⟩
  · simp only [UnloadToken.isCancelled, earliest?, Option.isSome_map, List.find?_isSome, decide_eq_true_eq]
    exact exists_congr fun e => and_congr_right fun he => (hkin he).symm
  · simp only [earliest?, Option.map_eq_some_iff, List.find?_eq_some_iff_append]
    constructor
    · rintro ⟨⟨i, first⟩, ⟨hi, earlier, later, hsplit, hearlier⟩, rfl⟩
      refine ⟨earlier, i, later, hsplit, (hkin (by simp [hsplit])).2 (of_decide_eq_true hi), fun e he => ?_⟩
      rw [hkin (by simp [hsplit, he])]
      simpa using hearlier e he
    · rintro ⟨earlier, i, later, hsplit, hi, hearlier⟩
      have hhere : (i, cause) ∈ h.cancellations := by simp [hsplit]
      refine ⟨(i, cause), ⟨decide_eq_true ((hkin hhere).1 hi), earlier, later, hsplit, fun e he => ?_⟩, rfl⟩
      have hnot := hearlier e he
      rw [hkin (by simp [hsplit, he])] at hnot
      simpa using hnot
  · rw [cells_eq]
    exact TokenPool.read_cells hget

/-! ## What a call leaves alone -/

theorem get?_fresh (h : TokenHistory n) (j : Fin n) : h.fresh.pool.get? j = h.pool.get? j := by
  obtain ⟨family, hfamily, hlt⟩ := h.exists_family j
  rw [get?_eq hfamily, get?_eq ((family?_fresh h j.isLt).trans hfamily)]
  exact List.getElem?_append_left hlt

theorem get?_copy (h : TokenHistory n) (token : Fin n) {i j : Nat} (hi : (h.copy token).family? i = h.family? j) :
    (h.copy token).pool.get? i = h.pool.get? j := by
  obtain ⟨family, hfamily, -⟩ := h.exists_family token
  have hfamilies : (h.copy token).pool.families = h.pool.families := by rw [pool_copy hfamily]
  exact congrArg₂ (fun family families => Option.bind family (families[·]?)) hi hfamilies

theorem get?_cancel (h : TokenHistory n) (token : Fin n) (cause : DisposeCause) (j : Fin n) (hk : ¬h.Kin token j) :
    (h.cancel token cause).pool.get? j = h.pool.get? j := by
  obtain ⟨family, hfamily, -⟩ := h.exists_family token
  obtain ⟨other, hother, -⟩ := h.exists_family j
  have hne : family ≠ other := fun heq => hk ((kin_iff token.isLt j.isLt).2 (by rw [hfamily, hother, heq]))
  rw [get?_eq hother, get?_eq ((family?_cancel h token cause j).trans hother), pool_cancel hfamily,
    List.getElem?_modify]
  simp [hne]

/-- What tokens say of their kin, and what is not seen outside a family. -/
structure Shared (h : TokenHistory n) : Prop where
  stands : ∀ j : Fin n, ∃ t, h.pool.get? j = some t ∧ h.Stands j t
  /-- A new token is kin to no other, and is not cancelled. -/
  fresh : h.fresh.pool.get? n = some {} ∧ ∀ j : Fin n, h.fresh.pool.get? j = h.pool.get? j ∧ ¬h.fresh.Kin j n
  /-- A copy says what it is a copy of says. -/
  copy : ∀ token : Fin n, (h.copy token).pool.get? n = h.pool.get? token ∧
    ∀ j : Fin n, (h.copy token).pool.get? j = h.pool.get? j
  /-- A cancellation is not seen by tokens that are not kin. -/
  cancel : ∀ (token : Fin n) (cause : DisposeCause) (j : Fin n), ¬h.Kin token j →
    (h.cancel token cause).pool.get? j = h.pool.get? j
  /-- No call makes kin of tokens that were not, or parts any. -/
  kin_iff : ∀ i j : Fin n, (h.fresh.Kin i j ↔ h.Kin i j) ∧
    ∀ token : Fin n, ((h.copy token).Kin i j ↔ h.Kin i j) ∧ ∀ cause, (h.cancel token cause).Kin i j ↔ h.Kin i j

/-- Tokens share their request with their kin and with no others. -/
theorem shared (h : TokenHistory n) : h.Shared where
  stands := h.get?_stands
  fresh := by
    refine ⟨?_, fun j => ⟨h.get?_fresh j, fun hkin => h.family?_fresh_ne j.isLt (family?_eq_of_kin hkin)⟩⟩
    rw [get?_eq h.family?_fresh_self, pool, TokenPool.fresh, List.getElem?_concat_length]
  copy token := ⟨h.get?_copy token (h.family?_copy_self token), fun j => h.get?_copy token (h.family?_copy token j.isLt)⟩
  cancel := h.get?_cancel
  kin_iff i j := by
    have hi := Nat.lt_succ_of_lt i.isLt
    have hj := Nat.lt_succ_of_lt j.isLt
    refine ⟨?_, fun token => ⟨?_, fun cause => Iff.rfl⟩⟩
    · rw [TokenHistory.kin_iff hi hj, family?_fresh h i.isLt, family?_fresh h j.isLt, TokenHistory.kin_iff i.isLt j.isLt]
    · rw [TokenHistory.kin_iff hi hj, family?_copy h token i.isLt, family?_copy h token j.isLt,
        TokenHistory.kin_iff i.isLt j.isLt]

/-- Through copies made before and after, the first cause stays. -/
example : ((start.fresh.copy 0).cancel 1 .activeConfigurationChanged |>.copy 0 |>.cancel 2 .unload).pool.get? 0 =
    some ⟨some .activeConfigurationChanged⟩ := by decide

end TokenHistory

end SliceSync
