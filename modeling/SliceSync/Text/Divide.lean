/-!
# Dividing text

`divide` cuts a text at every character of a class and `cutAt` cuts it in two at the first `c`. Nothing
is lost but the dividing characters: `cutAt_eq_some_iff` says exactly what is found.
-/

namespace SliceSync.Text

/-- The pieces between the dividing characters, in order; empty pieces count. -/
def divide (divides : Char → Bool) : List Char → List (List Char)
  | [] => [[]]
  | c :: rest =>
    if divides c then [] :: divide divides rest
    else
      match divide divides rest with
      | [] => [[c]]
      | piece :: pieces => (c :: piece) :: pieces

/-- What stands before and after the first `c`. -/
def cutAt (c : Char) : List Char → Option (List Char × List Char)
  | [] => none
  | d :: rest => if d = c then some ([], rest) else (cutAt c rest).map fun h => (d :: h.1, h.2)

/-- Dividing is splitting where the predicate holds. -/
theorem divide_eq_splitOnP (divides : Char → Bool) (cs : List Char) : divide divides cs = cs.splitOnP divides := by
  induction cs with
  | nil => rfl
  | cons c rest ih =>
    rw [List.splitOnP_cons_eq_if_modifyHead, divide, ih]
    split
    · rfl
    · cases h : List.splitOnP divides rest with
      | nil => exact absurd h (List.splitOnP_ne_nil _ _)
      | cons => rfl

theorem divide_of_forall_not {divides : Char → Bool} {cs : List Char} (h : ∀ c ∈ cs, divides c = false) :
    divide divides cs = [cs] := by
  rw [divide_eq_splitOnP, List.splitOnP_eq_singleton h]

/-- A dividing character divides; both sides are divided on their own. -/
theorem divide_append_cons {divides : Char → Bool} {c : Char} (h : divides c = true) (before after : List Char) :
    divide divides (before ++ c :: after) = divide divides before ++ divide divides after := by
  simp only [divide_eq_splitOnP, List.splitOnP_append_cons _ _ h]

theorem cutAt_eq_some_iff {c : Char} {cs before after : List Char} :
    cutAt c cs = some (before, after) ↔ cs = before ++ c :: after ∧ c ∉ before := by
  induction cs generalizing before with
  | nil => simp [cutAt]
  | cons d rest ih =>
    unfold cutAt
    by_cases h : d = c
    · subst h
      cases before with
      | nil => simp
      | cons b before => simp; grind
    · cases before with
      | nil => simp [h]
      | cons b before =>
        simp only [if_neg h, Option.map_eq_some_iff, Prod.mk.injEq, Prod.exists]
        constructor
        · rintro ⟨x, y, hxy, hb, rfl⟩
          obtain ⟨rfl, rfl⟩ := List.cons.inj hb
          obtain ⟨rfl, hn⟩ := ih.1 hxy
          exact ⟨rfl, by simp [hn]; exact fun hc => h hc.symm⟩
        · rintro ⟨he, hn⟩
          obtain ⟨rfl, rfl⟩ := List.cons.inj he
          exact ⟨before, after, ih.2 ⟨rfl, fun hm => hn (List.mem_cons_of_mem _ hm)⟩, rfl, rfl⟩

theorem cutAt_eq_none_iff {c : Char} {cs : List Char} : cutAt c cs = none ↔ c ∉ cs := by
  induction cs with
  | nil => simp [cutAt]
  | cons d rest ih =>
    by_cases h : d = c
    · simp [cutAt, h]
    · have hc : ¬c = d := fun hc => h hc.symm
      simp [cutAt, h, ih, hc]

end SliceSync.Text
