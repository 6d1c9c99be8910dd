import Mathlib.Data.List.Nodup
import SliceSync.Storage
import SliceSync.Proofs.Files
import SliceSync.Proofs.Rereading
/-!
# What is kept as JSON

A type is kept as JSON if what is written for each of its values is read as that value (`Json.Keeps`). Texts and versions
are, a map is if its values are, and a record is if its fields are; so slices, versions, projects and snapshots are. A
text that was accepted, in whatever spelling, is therefore saved as one that says the same and stays as it is from then
on.

Main statement: `Json.kept_round_trip`.
-/

namespace SliceSync

/-! ## Maps from their entries -/

theorem NameMap.ofList_toList {β : Type} (m : NameMap β) : ofList m.toList = m :=
  ext_get? fun name => get?_ofList m.nodup_names name

theorem NameSet.ofNames_names (s : NameSet) : ofNames s.names = s := by
  refine ext_contains fun name => ?_
  rw [contains_ofNames, decide_eq_true_eq, NameMap.mem_names_iff]

namespace Listing

variable {κ β : Type} [DecidableEq κ]

theorem put_of_not_mem {key : κ} (value : β) {l : List (κ × β)} (h : key ∉ l.map (·.1)) :
    put key value l = l ++ [(key, value)] := by
  induction l with
  | nil => rfl
  | cons e rest ih =>
    rw [List.map_cons, List.mem_cons, not_or] at h
    rw [put, if_neg (Ne.symm h.1), ih h.2, List.cons_append]

/-- Entries of new keys are listed behind the others as they come. -/
theorem toList_insertAll {m : Listing κ β} {pairs : List (κ × β)} (h : ((m.toList ++ pairs).map (·.1)).Nodup) :
    (m.insertAll pairs).toList = m.toList ++ pairs := by
  induction pairs generalizing m with
  | nil => exact (List.append_nil _).symm
  | cons e rest ih =>
    have hnew : e.1 ∉ m.toList.map (·.1) := fun he => by
      rw [List.map_append, List.nodup_append] at h
      exact h.2.2 _ he _ (List.mem_map_of_mem List.mem_cons_self) rfl
    have hfirst : (m.insert e.1 e.2).toList = m.toList ++ [e] := put_of_not_mem e.2 hnew
    show ((m.insert e.1 e.2).insertAll rest).toList = _
    rw [ih (by simpa [hfirst] using h), hfirst, List.append_assoc, List.singleton_append]

omit [DecidableEq κ] in
theorem ext_toList {m m' : Listing κ β} (h : m.toList = m'.toList) : m = m' := by
  cases m
  cases m'
  cases h
  rfl

theorem ofList_toList (m : Listing κ β) : ofList m.toList = m :=
  ext_toList (toList_insertAll (m := (∅ : Listing κ β)) m.nodup)

end Listing

namespace Json

/-! ## Values in parts -/

/-- What each part is read as was there before. -/
theorem mapM_map {α β : Type} {f : α → β} {g : β → Option α} (h : ∀ a, g (f a) = some a) (l : List α) :
    (l.map f).mapM g = some l := by
  induction l with
  | nil => rfl
  | cons a l ih => simp [h, ih]

/-- What is written for the values of a type is read as these values. -/
structure Keeps {α : Type} (write : α → Json) (read : Json → Option α) : Prop where
  isWritten : ∀ x, (write x).IsWritten
  read_write : ∀ x, read (write x) = some x

theorem keeps_string : Keeps string asString := ⟨.string, fun _ => rfl⟩

theorem keeps_version : Keeps (fun version : UInt64 => nat version.toNat) asUInt64 := by
  refine ⟨fun version => .nat _, fun version => ?_⟩
  have hdigits : isDigits (Nat.toDigits 10 version.toNat) = true := isDigits_nat _
  have hvalue : (Nat.toDigits 10 version.toNat).foldl (fun n c => n * 10 + (c.toNat - '0'.toNat)) 0 = version.toNat := by
    have hfold := Nat.ofDigitChars_ten_toDigits (n := version.toNat)
    rw [Nat.ofDigitChars_eq_foldl] at hfold
    simpa only [Nat.mul_comm] using hfold
  simp only [nat, asUInt64, hdigits, hvalue, if_true, version.toNat_lt_size, UInt64.ofNat_toNat]

variable {α : Type} {write : α → Json} {read : Json → Option α}

theorem Keeps.asPairs (h : Keeps write read) (pairs : List (String × α)) :
    asPairs read (.record (pairs.map fun e => (e.1, write e.2))) = some pairs := by
  rw [record, List.map_map, Json.asPairs]
  exact mapM_map (fun e => by simp [h.read_write]) pairs

theorem Keeps.isWritten_record (h : Keeps write read) (pairs : List (String × α)) :
    (record (pairs.map fun e => (e.1, write e.2))).IsWritten := by
  refine .record fun m hm => ?_
  obtain ⟨e, -, rfl⟩ := List.mem_map.1 hm
  exact h.isWritten e.2

theorem Keeps.nameMap (h : Keeps write read) : Keeps (NameMap.toJson write) (asNameMap read) where
  isWritten m := h.isWritten_record m.toList
  read_write m := by rw [asNameMap, NameMap.toJson, h.asPairs, Option.map_some, NameMap.ofList_toList]

/-- A map in order of arrival is kept with its order. -/
theorem Keeps.listing (h : Keeps write read) :
    Keeps (fun m : Listing String α => record (m.toList.map fun e => (e.1, write e.2))) (asListing read) where
  isWritten m := h.isWritten_record m.toList
  read_write m := by rw [asListing, h.asPairs, Option.map_some, Listing.ofList_toList]

theorem keeps_strings : Keeps strings (asList asString) where
  isWritten texts := .array fun v hv => by
    obtain ⟨text, -, rfl⟩ := List.mem_map.1 hv
    exact .string text
  read_write texts := mapM_map keeps_string.read_write texts

/-! ## Records -/

/-- The fields of a record are found by their names. -/
theorem fields_record (members : List (String × Json)) (h : (members.map (·.1)).Nodup) (passesUnknown : Bool) :
    (record members).fields (members.map (·.1)) passesUnknown = some (members.map fun m => some m.2) := by
  have hpairs : (members.map fun m => (some m.1, m.2)).mapM (fun m : Option String × Json => do return (← m.1, m.2)) =
      some members := mapM_map (fun _ => by simp) members
  have hrepeated : ((members.map (·.1)).any fun name => 1 < members.countP (·.1 = name)) = false := by
    refine List.any_eq_false.2 fun name _ => ?_
    have hcount : members.countP (·.1 = name) = (members.map (·.1)).count name := by
      rw [List.count, List.countP_map]
      rfl
    have honce := List.nodup_iff_count_le_one.1 h name
    simpa [hcount] using honce
  have hunknown : (members.any fun m => !(members.map (·.1)).contains m.1) = false :=
    List.any_eq_false.2 fun m hm => by simpa using ⟨m.2, hm⟩
  have hfind : ∀ m ∈ members, (members.find? (·.1 = m.1)).map (·.2) = some m.2 := fun m hm =>
    Listing.mem_toList_iff (m := ⟨members, h⟩).1 hm
  rw [record, fields, hpairs]
  simp only [Option.bind_eq_bind, Option.bind_some, hrepeated, hunknown, Bool.and_false, List.map_map]
  exact congrArg some (List.map_congr_left hfind)

theorem keeps_slice : Keeps Slice.toJson Slice.ofJson? where
  isWritten s := keeps_string.nameMap.isWritten s.dimensions
  read_write s := by rw [Slice.ofJson?, Slice.toJson, keeps_string.nameMap.read_write, Option.map_some]

theorem keeps_versions : Keeps Versions.toJson Versions.ofJson? where
  isWritten v := keeps_version.nameMap.isWritten v.stamps
  read_write v := by rw [Versions.ofJson?, Versions.toJson, keeps_version.nameMap.read_write, Option.map_some]

theorem keeps_project : Keeps Project.toJson Project.ofJson? where
  isWritten p := .record (by simp [keeps_string.isWritten, keeps_slice.isWritten, keeps_strings.isWritten])
  read_write p := by
    have hfields : p.toJson.fields ["path", "slice", "capabilities"] true =
        some [some (string p.path), some p.slice.toJson, some (strings p.capabilities.names)] :=
      fields_record _ (by simp) true
    simp [Project.ofJson?, hfields, required, defaulted, keeps_string.read_write, keeps_slice.read_write,
      keeps_strings.read_write, NameSet.ofNames_names]

theorem keeps_snapshot : Keeps Snapshot.toJson Snapshot.ofJson? where
  isWritten s := .record (by
    simp [keeps_string.nameMap.isWritten, keeps_string.nameMap.listing.isWritten])
  read_write s := by
    have hfields : s.toJson.fields ["properties", "items"] true =
        some [some (s.properties.toJson string), some (record (s.items.toList.map fun i => (i.1, i.2.toJson string)))] :=
      fields_record _ (by simp) true
    simp [Snapshot.ofJson?, hfields, defaulted, keeps_string.nameMap.read_write,
      keeps_string.nameMap.listing.read_write]

/-! ## Texts -/

/-- Reads a value of a type off a text. -/
def load? {α : Type} (read : Json → Option α) (text : String) : Option α := (parse? text).bind read

/-- The text that is written for what a text says. -/
def resave? {α : Type} (write : α → Json) (read : Json → Option α) (text : String) : Option String :=
  (load? read text).map fun x => (write x).compact

/-- What is written for the values of a type is read as these values, and what was read before is written so that it
says the same. -/
structure RoundTrips {α : Type} (write : α → Json) (read : Json → Option α) : Prop where
  load_compact : ∀ x, load? read (write x).compact = some x
  /-- A text that was accepted is saved as one that says the same and is not changed any more. -/
  resaved : ∀ text again, resave? write read text = some again →
    load? read again = load? read text ∧ resave? write read again = some again

theorem Keeps.roundTrips (h : Keeps write read) : RoundTrips write read := by
  have hload (x : α) : load? read (write x).compact = some x := by
    rw [load?, parse?_compact (h.isWritten x), Option.bind_some, h.read_write]
  refine ⟨hload, fun text again hagain => ?_⟩
  obtain ⟨x, hx, rfl⟩ := Option.map_eq_some_iff.1 hagain
  exact ⟨(hload x).trans hx.symm, by rw [resave?, hload, Option.map_some]⟩

/-- Slices, versions, projects and snapshots come back from JSON as they were. -/
theorem kept_round_trip :
    RoundTrips Slice.toJson Slice.ofJson? ∧ RoundTrips Versions.toJson Versions.ofJson? ∧
      RoundTrips Project.toJson Project.ofJson? ∧ RoundTrips Snapshot.toJson Snapshot.ofJson? :=
  ⟨keeps_slice.roundTrips, keeps_versions.roundTrips, keeps_project.roundTrips, keeps_snapshot.roundTrips⟩

/-- A project that was given as an array is saved as a record, with what it left out. -/
example : resave? Project.toJson Project.ofJson? "[ \"\\/a.proj\" ]" =
    some "\x7b\"path\":\"/a.proj\",\"slice\":\x7b\x7d,\"capabilities\":[]\x7d" := by
  cbv

end Json

end SliceSync
