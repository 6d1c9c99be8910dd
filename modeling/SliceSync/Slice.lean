import SliceSync.NameMap
/-!
# Configuration slices

A project evaluated under several configurations has one slice for each combination of dimension
values, such as `TargetFramework=net8.0`. A slice is its map of dimensions, so equality and order do
not depend on the order in which dimensions were given.
-/

namespace SliceSync

/-- One combination of configuration dimensions. -/
structure Slice where
  dimensions : NameMap String
  deriving DecidableEq, Inhabited

namespace Slice

/-- The slice of a project that is not configured in several ways. -/
def empty : Slice := ⟨∅⟩

/-- The slice of the pairs; the last value of a dimension counts. -/
def ofList (pairs : List (String × String)) : Slice := ⟨NameMap.ofList pairs⟩

def set (s : Slice) (name value : String) : Slice := ⟨s.dimensions.insert name value⟩

def get? (s : Slice) (name : String) : Option String := s.dimensions.get? name

def isDefault (s : Slice) : Bool := s.dimensions.isEmpty

/-- The values in the order of their dimensions' names. -/
def values (s : Slice) : List String := s.dimensions.values

/-- `name=value` for each dimension, divided by bars. -/
def display (s : Slice) : String :=
  if s.isDefault then "<default>"
  else String.intercalate "|" (s.dimensions.toList.map fun d => d.1 ++ "=" ++ d.2)

/-- The order of two dimensions: by name, then by value. -/
def compareDimension (a b : String × String) : Ordering :=
  (compareOfLessAndEq a.1 b.1).then (compareOfLessAndEq a.2 b.2)

/-- The first dimension that differs decides; of a list and its beginning the shorter comes first. -/
def compareDimensions : List (String × String) → List (String × String) → Ordering
  | [], [] => .eq
  | [], _ :: _ => .lt
  | _ :: _, [] => .gt
  | a :: as, b :: bs => (compareDimension a b).then (compareDimensions as bs)

def compare (a b : Slice) : Ordering := compareDimensions a.dimensions.toList b.dimensions.toList

/-- Adds a slice to a list in ascending order, unless it is there. -/
def insertSorted (s : Slice) : List Slice → List Slice
  | [] => [s]
  | t :: rest =>
    match compare s t with
    | .lt => s :: t :: rest
    | .eq => t :: rest
    | .gt => t :: insertSorted s rest

/-- The listed slices in ascending order, each once. -/
def sortedSet (slices : List Slice) : List Slice :=
  slices.foldl (fun sorted s => s.insertSorted sorted) []

/-! ## The listed slices -/

theorem eq_of_compareDimension {a b : String × String} (h : compareDimension a b = .eq) : a = b := by
  have same {x y : String} (h : compareOfLessAndEq x y = .eq) : x = y := by
    unfold compareOfLessAndEq at h
    split at h
    · cases h
    · split at h
      · assumption
      · cases h
  obtain ⟨hname, hvalue⟩ := Ordering.then_eq_eq.1 h
  exact Prod.ext (same hname) (same hvalue)

theorem eq_of_compareDimensions {l m : List (String × String)} (h : compareDimensions l m = .eq) : l = m := by
  induction l generalizing m with
  | nil =>
    cases m with
    | nil => rfl
    | cons b m => cases h
  | cons a l ih =>
    cases m with
    | nil => cases h
    | cons b m =>
      obtain ⟨hhead, htail⟩ := Ordering.then_eq_eq.1 h
      rw [eq_of_compareDimension hhead, ih htail]

/-- Slices that compare as equal are equal. -/
theorem eq_of_compare {s t : Slice} (h : compare s t = .eq) : s = t := by
  obtain ⟨⟨l, hl⟩⟩ := s
  obtain ⟨⟨m, hm⟩⟩ := t
  obtain rfl : l = m := eq_of_compareDimensions h
  rfl

theorem mem_insertSorted {s t : Slice} {l : List Slice} : t ∈ s.insertSorted l ↔ t = s ∨ t ∈ l := by
  induction l with
  | nil => simp [insertSorted]
  | cons u rest ih =>
    unfold insertSorted
    cases h : compare s u with
    | lt => simp
    | eq =>
      rw [eq_of_compare h]
      simp
    | gt =>
      simp only [List.mem_cons, ih]
      exact or_left_comm

/-- The sorted set of some slices has the slices. -/
theorem mem_sortedSet {t : Slice} {slices : List Slice} : t ∈ sortedSet slices ↔ t ∈ slices := by
  have fold (sorted : List Slice) : t ∈ slices.foldl (fun sorted s => s.insertSorted sorted) sorted ↔
      t ∈ slices ∨ t ∈ sorted := by
    induction slices generalizing sorted with
    | nil => simp
    | cons s rest ih =>
      rw [List.foldl_cons, ih, mem_insertSorted, List.mem_cons, or_assoc, or_left_comm]
  simp [sortedSet, fold]

end Slice

end SliceSync
