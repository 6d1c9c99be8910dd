/-!
# Maps that remember arrival

Items of an evaluation keep the order in which their names first came, and a name that comes again
keeps its place and takes the new value. A `Listing κ β` is such a map: its entries in order of
arrival, each key once. The view is `get?` together with `keys`; `get?_insert` and `keys_insert`
say what a binding does to both.
-/

namespace SliceSync

/-- A finite map listed in order of first arrival. -/
structure Listing (κ β : Type) where
  entries : List (κ × β)
  nodup : (entries.map (·.1)).Nodup
  deriving DecidableEq

namespace Listing

variable {κ β γ : Type} [DecidableEq κ]

/-- The entries with `key` bound to `value`: in place of the old binding, or at the end. -/
def put (key : κ) (value : β) : List (κ × β) → List (κ × β)
  | [] => [(key, value)]
  | e :: rest => if e.1 = key then (key, value) :: rest else e :: put key value rest

theorem map_fst_put (key : κ) (value : β) (l : List (κ × β)) :
    (put key value l).map (·.1) = if key ∈ l.map (·.1) then l.map (·.1) else l.map (·.1) ++ [key] := by
  induction l with
  | nil => simp [put]
  | cons e rest ih =>
    by_cases h : e.1 = key
    · simp [put, h]
    · have h' : ¬key = e.1 := fun hk => h hk.symm
      simp only [put, if_neg h, List.map_cons, ih, List.mem_cons, h', false_or]
      split <;> simp

/-- The value the first entry of that key carries. -/
def find (key : κ) (l : List (κ × β)) : Option β := (l.find? (·.1 = key)).map (·.2)

theorem find_cons (key : κ) (e : κ × β) (l : List (κ × β)) :
    find key (e :: l) = if e.1 = key then some e.2 else find key l := by
  by_cases h : e.1 = key <;> simp [find, h]

theorem find_put (key other : κ) (value : β) (l : List (κ × β)) :
    find other (put key value l) = if key = other then some value else find other l := by
  induction l with
  | nil => simp [put, find_cons]
  | cons e rest ih =>
    unfold put
    split
    · rename_i he
      by_cases h : key = other <;> simp [find_cons, he, h]
    · rename_i he
      by_cases h : e.1 = other
      · have : ¬key = other := fun hk => he (h.trans hk.symm)
        simp [find_cons, h, this]
      · simp [find_cons, h, ih]

def empty : Listing κ β := ⟨[], List.nodup_nil⟩

instance : EmptyCollection (Listing κ β) := ⟨empty⟩
instance : Inhabited (Listing κ β) := ⟨empty⟩

def get? (m : Listing κ β) (key : κ) : Option β := find key m.entries

/-- Binds `key` to `value`; a bound key keeps its place, a new one goes last. -/
def insert (m : Listing κ β) (key : κ) (value : β) : Listing κ β :=
  ⟨put key value m.entries, by
    rw [map_fst_put]
    split
    · exact m.nodup
    · rename_i h
      exact List.nodup_append.2 ⟨m.nodup, by simp, by
        rintro a ha b hb rfl
        exact h ((List.mem_singleton.1 hb) ▸ ha)⟩⟩

/-- Takes the binding of `key` away; the others keep their order. -/
def erase (m : Listing κ β) (key : κ) : Listing κ β :=
  ⟨m.entries.filter (·.1 ≠ key), m.nodup.sublist ((List.filter_sublist).map _)⟩

/-- Changes every value, seeing its key. -/
def mapValues (m : Listing κ β) (f : κ → β → γ) : Listing κ γ :=
  ⟨m.entries.map fun e => (e.1, f e.1 e.2), by simpa [Function.comp_def] using m.nodup⟩

def insertAll (m : Listing κ β) (pairs : List (κ × β)) : Listing κ β :=
  pairs.foldl (fun m e => m.insert e.1 e.2) m

/-- The listing of the pairs: first place, last value. -/
def ofList (pairs : List (κ × β)) : Listing κ β := insertAll ∅ pairs

/-- The entries in order of arrival. -/
def toList (m : Listing κ β) : List (κ × β) := m.entries

/-- The keys in order of arrival. -/
def keys (m : Listing κ β) : List κ := m.entries.map (·.1)

def values (m : Listing κ β) : List β := m.entries.map (·.2)

def contains (m : Listing κ β) (key : κ) : Bool := (m.get? key).isSome

def size (m : Listing κ β) : Nat := m.entries.length

@[simp] theorem get?_empty (key : κ) : (∅ : Listing κ β).get? key = none := rfl

@[simp] theorem get?_insert (m : Listing κ β) (key other : κ) (value : β) :
    (m.insert key value).get? other = if key = other then some value else m.get? other :=
  find_put key other value m.entries

@[simp] theorem get?_erase (m : Listing κ β) (key other : κ) :
    (m.erase key).get? other = if key = other then none else m.get? other := by
  simp only [get?, erase]
  induction m.entries with
  | nil => simp [find]
  | cons e rest ih =>
    by_cases he : e.1 = key
    · by_cases h : key = other
      · simpa [he, h] using ih
      · simpa [he, h, find_cons] using ih
    · by_cases h : e.1 = other
      · have : ¬key = other := fun hk => he (h.trans hk.symm)
        subst h
        simp [he, this, find_cons]
      · simpa [he, h, find_cons] using ih

/-- An entry is what its key is bound to. -/
theorem mem_toList_iff {m : Listing κ β} {key : κ} {value : β} :
    (key, value) ∈ m.toList ↔ m.get? key = some value := by
  obtain ⟨l, hl⟩ := m
  show (key, value) ∈ l ↔ find key l = some value
  induction l with
  | nil => simp [find]
  | cons e rest ih =>
    obtain ⟨he, hr⟩ := List.nodup_cons.1 hl
    by_cases h : e.1 = key
    · subst h
      have hnone : (e.1, value) ∉ rest := fun hm => he (List.mem_map.2 ⟨_, hm, rfl⟩)
      simp [find_cons, hnone, Prod.ext_iff, eq_comm]
    · have hne : (key, value) ≠ e := fun heq => h (by rw [← heq])
      simp [find_cons, h, hne, ih hr]

theorem mem_values_iff {m : Listing κ β} {value : β} : value ∈ m.values ↔ ∃ key, m.get? key = some value := by
  show value ∈ m.toList.map (·.2) ↔ _
  simp only [List.mem_map, Prod.exists, exists_eq_right, mem_toList_iff]

theorem keys_insert (m : Listing κ β) (key : κ) (value : β) :
    (m.insert key value).keys = if key ∈ m.keys then m.keys else m.keys ++ [key] :=
  map_fst_put key value m.entries

omit [DecidableEq κ] in
@[simp] theorem keys_mapValues (m : Listing κ β) (f : κ → β → γ) : (m.mapValues f).keys = m.keys := by
  simp [keys, mapValues, Function.comp_def]

@[simp] theorem get?_mapValues (m : Listing κ β) (f : κ → β → γ) (key : κ) :
    (m.mapValues f).get? key = (m.get? key).map (f key) := by
  simp only [get?, mapValues]
  induction m.entries with
  | nil => rfl
  | cons e rest ih =>
    by_cases h : e.1 = key
    · simp [find_cons, h]
    · simp [find_cons, h, ih]

theorem mem_keys_iff {m : Listing κ β} {key : κ} : key ∈ m.keys ↔ m.contains key = true := by
  simp only [keys, contains, get?, find, Option.isSome_map, List.find?_isSome, List.mem_map,
    decide_eq_true_eq]

end Listing

end SliceSync
