/-!
# Maps keyed by name

Dimensions, properties, rules and version sources are all looked up by name. A `NameMap β` keeps
its entries in the order of their names (by code point), each name once, so that two maps with the
same answers are the same map: `ext_get?`. The view is `get?`; every operation has one equation
through it (`get?_insert`, `get?_erase`, `get?_mapValues`).
-/

namespace SliceSync

/-- A finite map from names to values, sorted by name. -/
structure NameMap (β : Type) where
  entries : List (String × β)
  sorted : entries.Pairwise (fun a b => a.1 < b.1)
  deriving DecidableEq

namespace NameMap

variable {β γ : Type}

/-! ## Entries in order -/

/-- The entries with `name` bound to `value`: in place of the old binding, or where it sorts. -/
def put (name : String) (value : β) : List (String × β) → List (String × β)
  | [] => [(name, value)]
  | e :: rest =>
    if name < e.1 then (name, value) :: e :: rest
    else if name = e.1 then (name, value) :: rest
    else e :: put name value rest

theorem mem_put {name : String} {value : β} {l : List (String × β)} {e : String × β}
    (h : e ∈ put name value l) : e = (name, value) ∨ e ∈ l := by
  induction l with
  | nil => simpa [put] using h
  | cons d rest ih =>
    unfold put at h
    split at h
    · simpa using h
    · split at h
      · rcases List.mem_cons.1 h with h | h
        · exact .inl h
        · exact .inr (List.mem_cons_of_mem _ h)
      · rcases List.mem_cons.1 h with h | h
        · exact .inr (by simp [h])
        · exact (ih h).imp id (List.mem_cons_of_mem _)

theorem sorted_put (name : String) (value : β) {l : List (String × β)}
    (h : l.Pairwise (fun a b => a.1 < b.1)) : (put name value l).Pairwise (fun a b => a.1 < b.1) := by
  induction l with
  | nil => simp [put]
  | cons d rest ih =>
    obtain ⟨hd, hr⟩ := List.pairwise_cons.1 h
    unfold put
    split
    · rename_i hlt
      refine List.pairwise_cons.2 ⟨fun e he => ?_, h⟩
      rcases List.mem_cons.1 he with rfl | he
      · exact hlt
      · exact String.lt_trans hlt (hd e he)
    · split
      · rename_i heq
        exact List.pairwise_cons.2 ⟨fun e he => by simpa [heq] using hd e he, hr⟩
      · rename_i hlt hne
        refine List.pairwise_cons.2 ⟨fun e he => ?_, ih hr⟩
        rcases mem_put he with rfl | he
        · show d.1 < name
          exact String.not_le.1 fun hle => hne (String.le_antisymm hle (String.not_lt.1 hlt))
        · exact hd e he

/-- The value the first entry of that name carries. -/
def find (name : String) (l : List (String × β)) : Option β :=
  (l.find? (·.1 = name)).map (·.2)

@[simp] theorem find_nil (name : String) : find name ([] : List (String × β)) = none := rfl

theorem find_cons (name : String) (e : String × β) (l : List (String × β)) :
    find name (e :: l) = if e.1 = name then some e.2 else find name l := by
  by_cases h : e.1 = name <;> simp [find, h]

theorem find_put (name other : String) (value : β) (l : List (String × β)) :
    find other (put name value l) = if name = other then some value else find other l := by
  induction l with
  | nil => simp [put, find_cons]
  | cons d rest ih =>
    unfold put
    split
    · simp [find_cons]
    · split
      · rename_i heq
        by_cases h : name = other
        · simp [find_cons, h]
        · simp [find_cons, h, ← heq]
      · rename_i hne
        by_cases h : d.1 = other
        · have : name ≠ other := fun hn => hne (hn.trans h.symm)
          simp [find_cons, h, this]
        · simp [find_cons, h, ih]

theorem find_eq_some_of_mem {l : List (String × β)} (h : l.Pairwise (fun a b => a.1 < b.1))
    {e : String × β} (he : e ∈ l) : find e.1 l = some e.2 := by
  induction l with
  | nil => cases he
  | cons d rest ih =>
    obtain ⟨hd, hr⟩ := List.pairwise_cons.1 h
    rw [find_cons]
    rcases List.mem_cons.1 he with rfl | he
    · simp
    · have : d.1 ≠ e.1 := fun hn => String.lt_irrefl _ (hn ▸ hd e he)
      simp [this, ih hr he]

theorem mem_of_find_eq_some {l : List (String × β)} {name : String} {value : β}
    (h : find name l = some value) : (name, value) ∈ l := by
  obtain ⟨e, he, rfl⟩ := Option.map_eq_some_iff.1 h
  have hn : e.1 = name := by simpa using List.find?_some he
  exact hn ▸ List.mem_of_find?_eq_some he

theorem eq_of_find_eq {l m : List (String × β)} (hl : l.Pairwise (fun a b => a.1 < b.1))
    (hm : m.Pairwise (fun a b => a.1 < b.1)) (h : ∀ name, find name l = find name m) : l = m := by
  have mem_iff : ∀ e, e ∈ l ↔ e ∈ m := fun e =>
    ⟨fun he => mem_of_find_eq_some ((h e.1).symm.trans (find_eq_some_of_mem hl he)),
      fun he => mem_of_find_eq_some ((h e.1).trans (find_eq_some_of_mem hm he))⟩
  induction l generalizing m with
  | nil =>
    cases m with
    | nil => rfl
    | cons e m => exact absurd ((mem_iff e).2 (by simp)) (by simp)
  | cons d l ih =>
    cases m with
    | nil => exact absurd ((mem_iff d).1 (by simp)) (by simp)
    | cons e m =>
      obtain ⟨hd, hl'⟩ := List.pairwise_cons.1 hl
      obtain ⟨he, hm'⟩ := List.pairwise_cons.1 hm
      have hde : d = e := by
        rcases List.mem_cons.1 ((mem_iff d).1 (by simp)) with h1 | h1
        · exact h1
        · rcases List.mem_cons.1 ((mem_iff e).2 (by simp)) with h2 | h2
          · exact h2.symm
          · exact absurd (String.lt_trans (he d h1) (hd e h2)) (String.lt_irrefl _)
      subst hde
      have tails : ∀ name, find name l = find name m := fun name => by
        have hname := h name
        rw [find_cons, find_cons] at hname
        by_cases hn : d.1 = name
        · subst hn
          have none_of : ∀ {k : List (String × β)}, (∀ x ∈ k, d.1 < x.1) → find d.1 k = none := by
            intro k hk
            cases hf : find d.1 k with
            | none => rfl
            | some v => exact absurd (hk _ (mem_of_find_eq_some hf)) (String.lt_irrefl _)
          rw [none_of hd, none_of he]
        · simpa [hn] using hname
      rw [ih hl' hm' tails fun x =>
        ⟨fun hx => mem_of_find_eq_some ((tails x.1).symm.trans (find_eq_some_of_mem hl' hx)),
          fun hx => mem_of_find_eq_some ((tails x.1).trans (find_eq_some_of_mem hm' hx))⟩]

/-! ## The map -/

def empty : NameMap β := ⟨[], List.Pairwise.nil⟩

instance : EmptyCollection (NameMap β) := ⟨empty⟩
instance : Inhabited (NameMap β) := ⟨empty⟩

def get? (m : NameMap β) (name : String) : Option β := find name m.entries

/-- Binds `name` to `value`; an old binding is replaced. -/
def insert (m : NameMap β) (name : String) (value : β) : NameMap β :=
  ⟨put name value m.entries, sorted_put name value m.sorted⟩

def erase (m : NameMap β) (name : String) : NameMap β :=
  ⟨m.entries.filter (·.1 ≠ name), m.sorted.filter _⟩

/-- Changes every value, seeing its name. -/
def mapValues (m : NameMap β) (f : String → β → γ) : NameMap γ :=
  ⟨m.entries.map fun e => (e.1, f e.1 e.2), List.pairwise_map.2 m.sorted⟩

/-- Binds every pair in turn: the last pair of a name counts. -/
def insertAll (m : NameMap β) (pairs : List (String × β)) : NameMap β :=
  pairs.foldl (fun m e => m.insert e.1 e.2) m

/-- The map of the pairs; the last pair of a name counts. -/
def ofList (pairs : List (String × β)) : NameMap β := insertAll ∅ pairs

/-- The entries in the order of their names. -/
def toList (m : NameMap β) : List (String × β) := m.entries

/-- The names in order. -/
def names (m : NameMap β) : List String := m.entries.map (·.1)

def values (m : NameMap β) : List β := m.entries.map (·.2)

def contains (m : NameMap β) (name : String) : Bool := (m.get? name).isSome

def size (m : NameMap β) : Nat := m.entries.length

def isEmpty (m : NameMap β) : Bool := m.entries.isEmpty

/-! ## Equations through the view -/

@[simp] theorem get?_empty (name : String) : (∅ : NameMap β).get? name = none := rfl

@[simp] theorem get?_insert (m : NameMap β) (name other : String) (value : β) :
    (m.insert name value).get? other = if name = other then some value else m.get? other :=
  find_put name other value m.entries

@[simp] theorem get?_erase (m : NameMap β) (name other : String) :
    (m.erase name).get? other = if name = other then none else m.get? other := by
  simp only [get?, erase]
  induction m.entries with
  | nil => simp
  | cons e rest ih =>
    by_cases he : e.1 = name
    · by_cases h : name = other
      · simpa [he, h] using ih
      · simpa [he, h, find_cons] using ih
    · by_cases h : e.1 = other
      · have : name ≠ other := fun hn => he (h.trans hn.symm)
        subst h
        simp [he, this, find_cons]
      · simpa [he, h, find_cons] using ih

@[simp] theorem get?_mapValues (m : NameMap β) (f : String → β → γ) (name : String) :
    (m.mapValues f).get? name = (m.get? name).map (f name) := by
  simp only [get?, mapValues]
  induction m.entries with
  | nil => simp
  | cons e rest ih =>
    by_cases h : e.1 = name
    · simp [find_cons, h]
    · simp [find_cons, h, ih]

/-- Maps that answer alike are equal. -/
theorem ext_get? {m n : NameMap β} (h : ∀ name, m.get? name = n.get? name) : m = n := by
  cases m with
  | mk l hl =>
    cases n with
    | mk k hk =>
      have : l = k := eq_of_find_eq hl hk h
      subst this
      rfl

theorem mem_toList_iff {m : NameMap β} {name : String} {value : β} :
    (name, value) ∈ m.toList ↔ m.get? name = some value :=
  ⟨fun h => find_eq_some_of_mem m.sorted h, mem_of_find_eq_some⟩

theorem mem_names_iff {m : NameMap β} {name : String} : name ∈ m.names ↔ m.contains name = true := by
  simp only [names, List.mem_map, contains, Option.isSome_iff_exists]
  constructor
  · rintro ⟨e, he, rfl⟩
    exact ⟨e.2, mem_toList_iff.1 he⟩
  · rintro ⟨v, hv⟩
    exact ⟨(name, v), mem_toList_iff.2 hv, rfl⟩

theorem nodup_names (m : NameMap β) : m.names.Nodup :=
  List.pairwise_map.2 (m.sorted.imp fun {a b} h (hn : a.1 = b.1) => String.lt_irrefl a.1 (by
    rw [← hn] at h; exact h))

end NameMap

/-! ## Sets of names -/

/-- A finite set of names, listed in their order. -/
abbrev NameSet : Type := NameMap Unit

namespace NameSet

def add (s : NameSet) (name : String) : NameSet := NameMap.insert s name ()

def ofNames (names : List String) : NameSet := names.foldl add ∅

@[simp] theorem contains_add (s : NameSet) (name other : String) :
    (s.add name).contains other = (decide (name = other) || s.contains other) := by
  by_cases h : name = other <;> simp [add, NameMap.contains, h]

theorem contains_foldl_add (names : List String) (s : NameSet) (other : String) :
    (names.foldl add s).contains other = (decide (other ∈ names) || s.contains other) := by
  induction names generalizing s with
  | nil => simp
  | cons n rest ih =>
    rw [List.foldl_cons, ih, contains_add]
    by_cases h : other = n
    · simp [h]
    · have hn : ¬n = other := fun hn => h hn.symm
      simp [h, hn]

theorem contains_ofNames (names : List String) (other : String) :
    (ofNames names).contains other = decide (other ∈ names) := by
  rw [ofNames, contains_foldl_add]
  simp [NameMap.contains]

end NameSet

end SliceSync
