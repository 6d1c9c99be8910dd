import Mathlib.Data.List.Forall2
import SliceSync.Arguments
/-!
# How arguments are written

An `Entry` is what one argument is to say: the values in the list of a switch, a source path, or a switch that names
no files. There are many ways to write it (`Entry.Written`): either mark, each name of the switch in any letter case,
either separator, blanks around the argument. Entries that are plain (`Entry.Plain`: no quotes, nothing that divides
or that would be read as something else) are read back from all of them, each to its own list and in order.

Main statement: `Inputs.written_read_back`.
-/

namespace SliceSync

/-! ## Switches -/

/-- The names that a switch goes by. -/
def FileSwitch.names : FileSwitch → List String
  | .reference => ["r", "reference"]
  | .analyzer => ["a", "analyzer"]
  | .additionalFile => ["additionalfile"]

/-- A text is one of the names of a switch, in some letter case. -/
def FileSwitch.Spells (switch : FileSwitch) (text : List Char) : Prop :=
  ∃ name ∈ switch.names, text.map Char.toLower = name.toList

/-- The path that a listed value stands for. -/
def FileSwitch.pathOf : FileSwitch → List Char → List Char
  | .reference => Argument.dropAlias
  | .analyzer | .additionalFile => id

/-- No name of a switch has a colon in it. -/
theorem FileSwitch.Spells.colon {switch : FileSwitch} {text : List Char} (h : switch.Spells text) : ':' ∉ text := by
  obtain ⟨known, hknown, htext⟩ := h
  intro hmem
  have hlower : ':' ∈ text.map Char.toLower := List.mem_map.2 ⟨':', hmem, rfl⟩
  have hall : ∀ switch : FileSwitch, ∀ known ∈ switch.names, ':' ∉ known.toList := by
    rintro (_ | _ | _) <;> decide
  exact hall switch known hknown (htext ▸ hlower)

/-- The inputs with these paths in the list of a switch and no others. -/
def Inputs.ofSwitch : FileSwitch → List (List Char) → Inputs
  | .reference, paths => { metadataReferences := paths.map String.ofList }
  | .analyzer, paths => { analyzerReferences := paths.map String.ofList }
  | .additionalFile, paths => { additionalFiles := paths.map String.ofList }

theorem Inputs.ofSwitch_inj {switch : FileSwitch} {paths paths' : List (List Char)} :
    ofSwitch switch paths = ofSwitch switch paths' ↔ paths = paths' := by
  have hinj : Function.Injective (List.map String.ofList) := List.map_injective_iff.2 fun _ _ => String.ofList_inj.1
  cases switch <;> simp [ofSwitch, hinj.eq_iff]

namespace Argument

/-- The marks of a switch. -/
def IsMark (c : Char) : Prop := c = '/' ∨ c = '-'

/-- What divides the values of a list. -/
def IsSeparator (c : Char) : Prop := c = ',' ∨ c = ';'

instance : DecidablePred IsMark := fun _ => inferInstanceAs (Decidable (_ ∨ _))

instance : DecidablePred IsSeparator := fun _ => inferInstanceAs (Decidable (_ ∨ _))

theorem IsMark.isBlank {c : Char} (h : IsMark c) : Text.isBlank c = false := by
  rcases h with rfl | rfl <;> decide

theorem IsSeparator.isBlank {c : Char} (h : IsSeparator c) : Text.isBlank c = false := by
  rcases h with rfl | rfl <;> decide

theorem switchNamed_eq_some_iff {name : List Char} {switch : FileSwitch} :
    switchNamed name = some switch ↔ ∃ known ∈ switch.names, name = known.toList := by
  constructor
  · intro h
    unfold switchNamed at h
    simp only [Bool.or_eq_true, decide_eq_true_eq] at h
    split at h
    case isTrue hname =>
      cases h
      rcases hname with rfl | rfl
      · exact ⟨"r", by decide, rfl⟩
      · exact ⟨"reference", by decide, rfl⟩
    case isFalse =>
      split at h
      case isTrue hname =>
        cases h
        rcases hname with rfl | rfl
        · exact ⟨"a", by decide, rfl⟩
        · exact ⟨"analyzer", by decide, rfl⟩
      case isFalse =>
        split at h
        case isTrue hname =>
          cases h
          exact ⟨"additionalfile", by decide, hname⟩
        case isFalse => cases h
  · rintro ⟨known, hknown, rfl⟩
    have hall : ∀ switch : FileSwitch, ∀ known ∈ switch.names, switchNamed known.toList = some switch := by
      rintro (_ | _ | _) <;> decide
    exact hall switch known hknown

theorem spells_iff {switch : FileSwitch} {text : List Char} :
    switch.Spells text ↔ switchNamed (text.map Char.toLower) = some switch := switchNamed_eq_some_iff.symm

/-! ## Reading one argument -/

section Reading

variable {mark : Char} {name value arg : List Char}

theorem afterMark_mark (h : IsMark mark) (body : List Char) : afterMark (mark :: body) = some body := by
  rcases h with rfl | rfl <;> rfl

/-- A marked argument with a colon is a switch if its name is known. -/
theorem read_named (hm : IsMark mark) (hname : ':' ∉ name) :
    read (mark :: (name ++ ':' :: value)) =
      (switchNamed (name.map Char.toLower)).elim .other fun switch => .files switch value := by
  have hcut : Text.cutAt ':' (name ++ ':' :: value) = some (name, value) := Text.cutAt_eq_some_iff.2 ⟨rfl, hname⟩
  cases hnamed : switchNamed (name.map Char.toLower) <;>
    simp only [read, afterMark_mark hm, hcut, hnamed, Option.elim]

theorem read_files {switch : FileSwitch} (hm : IsMark mark) (hs : switch.Spells name) :
    read (mark :: (name ++ ':' :: value)) = .files switch value := by
  rw [read_named hm hs.colon, spells_iff.1 hs, Option.elim]

theorem read_unknown (hm : IsMark mark) (hname : ':' ∉ name) (hs : ∀ switch : FileSwitch, ¬switch.Spells name) :
    read (mark :: (name ++ ':' :: value)) = .other := by
  rw [read_named hm hname]
  cases hnamed : switchNamed (name.map Char.toLower) with
  | none => rfl
  | some switch => exact absurd (spells_iff.2 hnamed) (hs switch)

/-- A marked argument without colon, slash and dot is a switch without a value. -/
theorem read_flag (hm : IsMark mark) (hname : ∀ c ∈ name, c ≠ ':' ∧ c ≠ '/' ∧ c ≠ '.') :
    read (mark :: name) = .other := by
  have hcut : Text.cutAt ':' name = none := Text.cutAt_eq_none_iff.2 fun hc => (hname _ hc).1 rfl
  have hslash : '/' ∉ name := fun hc => (hname _ hc).2.1 rfl
  have hdot : '.' ∉ name := fun hc => (hname _ hc).2.2 rfl
  simp [read, afterMark_mark hm, hcut, hslash, hdot]

theorem read_unmarked (h : ∀ c ∈ arg.head?, ¬IsMark c) : read arg = .source arg := by
  have hmark : afterMark arg = none := by
    unfold afterMark
    split
    · exact absurd (.inl rfl) (h '/' rfl)
    · exact absurd (.inr rfl) (h '-' rfl)
    · rfl
  rw [read, hmark]

/-- A path that begins with a slash is told from a switch by its second slash or its dot. -/
theorem read_absolute (hcolon : ':' ∉ arg) (h : '/' ∈ arg ∨ '.' ∈ arg) : read ('/' :: arg) = .source ('/' :: arg) := by
  have hcut : Text.cutAt ':' arg = none := Text.cutAt_eq_none_iff.2 hcolon
  simp [read, afterMark_mark (.inl rfl), hcut, h]

/-- The inputs that an argument contributes. -/
def inputs : Argument → Inputs
  | .files switch value => .ofSwitch switch ((listed value).map switch.pathOf)
  | .source path => { sources := [String.ofList (unquote path)] }
  | .other => {}

end Reading

end Argument

/-- Blanks around an argument do not count. -/
theorem Inputs.ofArgument_of_trim {arg : String} {text : List Char} (h : Text.trimChars arg.toList = text)
    (hne : text ≠ []) : ofArgument arg = (Argument.read text).inputs := by
  have hempty : text.isEmpty = false := by simpa using hne
  simp only [ofArgument, h, hempty]
  cases Argument.read text with
  | files switch value => cases switch <;> simp [Argument.inputs, ofSwitch, FileSwitch.pathOf, Function.comp_def]
  | source path => rfl
  | other => rfl

namespace Argument

/-! ## Values -/

section Values

variable {name value : List Char}

theorem unquote_of_head (h : value.head? ≠ some '"') : unquote value = value := by
  unfold unquote
  split
  · exact absurd rfl h
  · rfl

theorem unquote_of_last (h : value.getLast? ≠ some '"') : unquote value = value := by
  unfold unquote
  split
  case h_1 rest =>
    rw [if_neg]
    intro hlast
    exact h (by rw [List.getLast?_cons, hlast]; rfl)
  case h_2 => rfl

theorem dropAlias_of_bare (h : '=' ∉ value) : dropAlias value = value := by
  rw [dropAlias, Text.cutAt_eq_none_iff.2 h]

/-- What can stand before the equals sign as an alias. -/
structure IsAlias (name : List Char) : Prop where
  equals : '=' ∉ name
  slash : '/' ∉ name
  backslash : '\\' ∉ name

theorem IsAlias.mono (h : IsAlias name) {part : List Char} (hsub : part ⊆ name) : IsAlias part :=
  ⟨fun hc => h.equals (hsub hc), fun hc => h.slash (hsub hc), fun hc => h.backslash (hsub hc)⟩

theorem dropAlias_append (h : IsAlias name) (hne : value ≠ []) : dropAlias (name ++ '=' :: value) = value := by
  rw [dropAlias, Text.cutAt_eq_some_iff.2 ⟨rfl, h.equals⟩]
  simp [h.slash, h.backslash, hne]

theorem listed_append_cons {c : Char} (hc : IsSeparator c) (before after : List Char) :
    listed (before ++ c :: after) = listed before ++ listed after := by
  have hdivides : (decide (c = ',') || decide (c = ';')) = true := by simpa [IsSeparator] using hc
  rw [listed, Text.divide_append_cons hdivides, List.map_append, List.filter_append, listed, listed]

/-- A text without separators is a list of one value, unless there is nothing in it. -/
theorem listed_of_undivided (h : ∀ c ∈ value, ¬IsSeparator c) (hne : unquote (Text.trimChars value) ≠ []) :
    listed value = [unquote (Text.trimChars value)] := by
  have hdivides : ∀ c ∈ value, (decide (c = ',') || decide (c = ';')) = false := fun c hc => by
    simpa [IsSeparator] using h c hc
  rw [listed, Text.divide_of_forall_not hdivides, List.map_singleton, List.filter_cons_of_pos (by simpa using hne)]
  rfl

/-- A value with an alias is listed as what follows it, unless it stands between quotes with its alias. -/
theorem map_listed_labelled (h : IsAlias name) (hne : value ≠ []) (hlast : ∀ c ∈ value.getLast?, Text.isBlank c = false)
    (hwhole : ∀ c ∈ name ++ '=' :: value, ¬IsSeparator c) (hquote : '"' ∉ name ∨ value.getLast? ≠ some '"') :
    (listed (name ++ '=' :: value)).map dropAlias = [value] := by
  -- Blanks before the alias are dropped with it.
  let kept := name.dropWhile Text.isBlank
  have hsub : kept ⊆ name := (List.dropWhile_suffix _).subset
  have htrim : Text.trimChars (name ++ '=' :: value) = kept ++ '=' :: value := by
    simpa using Text.trimChars_around (.cons (c := '=') (by decide) hlast) (List.cons_ne_nil _ _) name []
  have hunquoted : unquote (Text.trimChars (name ++ '=' :: value)) = kept ++ '=' :: value := by
    rw [htrim]
    rcases hquote with hname | hvalue
    · refine unquote_of_head ?_
      cases hkept : kept with
      | nil => simp
      | cons c rest => exact fun hq => hname (Option.some.inj hq ▸ hsub (hkept ▸ List.mem_cons_self))
    · refine unquote_of_last ?_
      rw [List.getLast?_append, List.getLast?_cons, List.getLast?_eq_some_getLast hne]
      rwa [List.getLast?_eq_some_getLast hne] at hvalue
  rw [listed_of_undivided hwhole (by simp [hunquoted]), hunquoted, List.map_singleton,
    dropAlias_append (h.mono hsub) hne]

/-- The values one after the other, with a separator between each two. -/
inductive Joins : List (List Char) → List Char → Prop
  | nil : Joins [] []
  | single (value : List Char) : Joins [value] value
  | cons {value next : List Char} {rest : List (List Char)} {c : Char} {text : List Char} (hc : IsSeparator c)
      (h : Joins (next :: rest) text) : Joins (value :: next :: rest) (value ++ c :: text)

/-- Each value is listed on its own. -/
theorem Joins.listed_eq {values : List (List Char)} {text : List Char} (h : Joins values text) :
    listed text = values.flatMap listed := by
  induction h with
  | nil => rfl
  | single value => simp
  | cons hc _ ih =>
    rw [listed_append_cons hc, ih]
    rfl

/-- A list ends like its values. -/
theorem Joins.last {values : List (List Char)} {text : List Char} (h : Joins values text)
    (hv : ∀ value ∈ values, ∀ c ∈ value.getLast?, Text.isBlank c = false) :
    ∀ c ∈ text.getLast?, Text.isBlank c = false := by
  induction h with
  | nil => exact fun c hc => by cases hc
  | single value => exact hv value List.mem_cons_self
  | cons hc _ ih => exact Text.last_append_cons hc.isBlank (ih fun v hmem => hv v (List.mem_cons_of_mem _ hmem)) _

end Values

/-- A switch with a list is not trimmed if the list ends without a blank. -/
theorem unpadded_switch {mark : Char} (hm : IsMark mark) (name : List Char) {list : List Char}
    (h : ∀ c ∈ list.getLast?, Text.isBlank c = false) : Text.Unpadded (mark :: (name ++ ':' :: list)) :=
  .cons hm.isBlank (Text.last_append_cons (by decide) h name)

/-! ## Entries -/

/-- A listed value: a path, perhaps with an alias. -/
structure Value where
  label : Option (List Char) := none
  path : List Char

def Value.text (v : Value) : List Char :=
  match v.label with
  | none => v.path
  | some name => name ++ '=' :: v.path

/-- What one argument is to say. -/
inductive Entry
  /-- The values in the list of a switch. -/
  | files (switch : FileSwitch) (values : List Value)
  | source (path : List Char)
  /-- A switch with a value, but not one that names files. -/
  | setting (name value : List Char)
  /-- A switch without a value. -/
  | flag (name : List Char)

/-- A path that needs no quotes. -/
structure IsPlain (path : List Char) : Prop where
  nonempty : path ≠ []
  quote : '"' ∉ path
  unpadded : Text.Unpadded path

theorem IsPlain.trim {path : List Char} (h : IsPlain path) : Text.trimChars path = path :=
  Text.trimChars_eq_self h.unpadded

theorem IsPlain.unquote {path : List Char} (h : IsPlain path) : Argument.unquote path = path :=
  unquote_of_head fun hc => h.quote (List.mem_of_mem_head? hc)

/-- A value that needs no quotes: with an alias, the path may begin with a blank. -/
structure Value.Plain (switch : FileSwitch) (v : Value) : Prop where
  nonempty : v.path ≠ []
  quote : '"' ∉ v.path
  last : ∀ c ∈ v.path.getLast?, Text.isBlank c = false
  whole : ∀ c ∈ v.text, ¬IsSeparator c
  /-- Only references have aliases. -/
  label : ∀ name ∈ v.label, switch = .reference ∧ IsAlias name
  bare : v.label = none → (∀ c ∈ v.path.head?, Text.isBlank c = false) ∧ (switch = .reference → '=' ∉ v.path)

/-- An entry that is written as it is. -/
inductive Entry.Plain : Entry → Prop
  | files {switch : FileSwitch} {values : List Value} (h : ∀ v ∈ values, v.Plain switch) : Plain (.files switch values)
  | source {path : List Char} (h : IsPlain path) (hmark : ∀ c ∈ path.head?, ¬IsMark c) : Plain (.source path)
  | absolute {rest : List Char} (h : IsPlain ('/' :: rest)) (hcolon : ':' ∉ rest) (hpath : '/' ∈ rest ∨ '.' ∈ rest) :
    Plain (.source ('/' :: rest))
  | setting {name value : List Char} (hcolon : ':' ∉ name) (hname : ∀ switch : FileSwitch, ¬switch.Spells name) :
    Plain (.setting name value)
  | flag {name : List Char} (h : ∀ c ∈ name, c ≠ ':' ∧ c ≠ '/' ∧ c ≠ '.') : Plain (.flag name)

/-- The texts that say an entry. -/
inductive Entry.Says : Entry → List Char → Prop
  | files {switch : FileSwitch} {values : List Value} {mark : Char} {name list : List Char} (hm : IsMark mark)
      (hname : switch.Spells name) (hlist : Joins (values.map Value.text) list) :
    Says (.files switch values) (mark :: (name ++ ':' :: list))
  | source (path : List Char) : Says (.source path) path
  | setting {mark : Char} (hm : IsMark mark) (name value : List Char) :
    Says (.setting name value) (mark :: (name ++ ':' :: value))
  | flag {mark : Char} (hm : IsMark mark) (name : List Char) : Says (.flag name) (mark :: name)

/-- An argument says an entry, with any blanks around it. -/
def Entry.Written (entry : Entry) (arg : String) : Prop :=
  ∃ before text after, arg.toList = before ++ text ++ after ∧ entry.Says text ∧
    (∀ c ∈ before, Text.isBlank c = true) ∧ ∀ c ∈ after, Text.isBlank c = true

/-- The files that an entry names. -/
def Entry.inputs : Entry → Inputs
  | .files switch values => .ofSwitch switch (values.map Value.path)
  | .source path => { sources := [String.ofList path] }
  | .setting .. | .flag _ => {}

theorem Value.Plain.last_text {switch : FileSwitch} {v : Value} (h : v.Plain switch) :
    v.text.getLast? = v.path.getLast? := by
  unfold Value.text
  cases v.label with
  | none => rfl
  | some name =>
    show (name ++ '=' :: v.path).getLast? = _
    rw [List.getLast?_append, List.getLast?_cons, List.getLast?_eq_some_getLast h.nonempty]
    rfl

/-- A plain value is listed as its path. -/
theorem Value.Plain.map_listed {switch : FileSwitch} {v : Value} (h : v.Plain switch) :
    (listed v.text).map switch.pathOf = [v.path] := by
  cases hlabel : v.label with
  | none =>
    obtain ⟨hhead, hequals⟩ := h.bare hlabel
    have hpath : IsPlain v.path := ⟨h.nonempty, h.quote, hhead, h.last⟩
    have htext : v.text = v.path := by rw [Value.text, hlabel]
    have hunquoted : unquote (Text.trimChars v.text) = v.path := by rw [htext, hpath.trim, hpath.unquote]
    rw [listed_of_undivided h.whole (hunquoted.symm ▸ h.nonempty), hunquoted, List.map_singleton]
    cases switch with
    | reference => rw [FileSwitch.pathOf, dropAlias_of_bare (hequals rfl)]
    | analyzer | additionalFile => rfl
  | some name =>
    obtain ⟨rfl, halias⟩ := h.label name hlabel
    have htext : v.text = name ++ '=' :: v.path := by rw [Value.text, hlabel]
    have hquote : v.path.getLast? ≠ some '"' := fun hq => h.quote (List.mem_of_mem_getLast? hq)
    rw [htext]
    exact map_listed_labelled halias h.nonempty h.last (htext ▸ h.whole) (.inr hquote)

section PlainValues

variable {switch : FileSwitch} {values : List Value} {list : List Char}

/-- A list of plain values ends without a blank. -/
theorem Joins.last_of_plain (hlist : Joins (values.map Value.text) list) (h : ∀ v ∈ values, v.Plain switch) :
    ∀ c ∈ list.getLast?, Text.isBlank c = false := by
  refine hlist.last fun text htext => ?_
  obtain ⟨v, hv, rfl⟩ := List.mem_map.1 htext
  rw [(h v hv).last_text]
  exact (h v hv).last

/-- A list of plain values is read as their paths. -/
theorem Joins.map_listed (hlist : Joins (values.map Value.text) list) (h : ∀ v ∈ values, v.Plain switch) :
    (Argument.listed list).map switch.pathOf = values.map Value.path := by
  rw [hlist.listed_eq, List.flatMap_map, List.map_flatMap, List.flatMap_congr fun v hv => (h v hv).map_listed,
    List.map_eq_flatMap]

end PlainValues

/-- However a plain entry is said, it is read as what it is. -/
theorem Entry.Plain.read {entry : Entry} (h : entry.Plain) {text : List Char} (hs : entry.Says text) :
    Text.trimChars text ≠ [] ∧ (Argument.read (Text.trimChars text)).inputs = entry.inputs := by
  cases h with
  | @files switch values hvalues =>
    cases hs with | @files _ _ mark name list hm hname hlist =>
    rw [Text.trimChars_eq_self (unpadded_switch hm name (hlist.last_of_plain hvalues)), read_files hm hname]
    exact ⟨List.cons_ne_nil _ _, congrArg (Inputs.ofSwitch switch) (hlist.map_listed hvalues)⟩
  | source hpath hmark =>
    cases hs
    rw [hpath.trim, read_unmarked hmark, Argument.inputs, hpath.unquote]
    exact ⟨hpath.nonempty, rfl⟩
  | absolute hpath hcolon hrest =>
    cases hs
    rw [hpath.trim, read_absolute hcolon hrest, Argument.inputs, hpath.unquote]
    exact ⟨hpath.nonempty, rfl⟩
  | @setting name value hcolon hname =>
    cases hs with | @setting mark hm =>
    -- The name and its colon stay, whatever blanks the value ends in.
    have hunpadded : Text.Unpadded (mark :: (name ++ [':'])) := unpadded_switch hm name nofun
    have htrim : Text.trimChars (mark :: (name ++ ':' :: value)) =
        mark :: (name ++ ':' :: (value.reverse.dropWhile Text.isBlank).reverse) := by
      simpa using Text.trimChars_around hunpadded (List.cons_ne_nil _ _) [] value
    rw [htrim, read_unknown hm hcolon hname]
    exact ⟨List.cons_ne_nil _ _, rfl⟩
  | @flag name hname =>
    cases hs with | @flag mark hm =>
    let kept := (name.reverse.dropWhile Text.isBlank).reverse
    have hkept : ∀ c ∈ kept, c ∈ name := fun c hc =>
      List.mem_reverse.1 ((List.dropWhile_suffix _).subset (List.mem_reverse.1 hc))
    have hunpadded : Text.Unpadded [mark] := .cons hm.isBlank (by simp)
    have htrim : Text.trimChars (mark :: name) = mark :: kept := by
      simpa using Text.trimChars_around hunpadded (List.cons_ne_nil _ _) [] name
    rw [htrim, read_flag hm fun c hc => hname c (hkept c hc)]
    exact ⟨List.cons_ne_nil _ _, rfl⟩

/-- However a plain entry is written, the argument contributes the files that it names. -/
theorem Entry.Written.ofArgument {entry : Entry} {arg : String} (hw : entry.Written arg) (h : entry.Plain) :
    Inputs.ofArgument arg = entry.inputs := by
  obtain ⟨before, text, after, harg, hsays, hbefore, hafter⟩ := hw
  obtain ⟨hne, hread⟩ := h.read hsays
  have htrim : Text.trimChars arg.toList = Text.trimChars text := by rw [harg, Text.trimChars_pad hbefore hafter]
  rw [Inputs.ofArgument_of_trim htrim hne, hread]

end Argument

/-! ## Argument lists -/

namespace Inputs

/-- The inputs are the files that these entries name, each in its list and in their order. -/
structure Lists (inputs : Inputs) (entries : List Argument.Entry) : Prop where
  sources : inputs.sources = entries.flatMap (·.inputs.sources)
  metadataReferences : inputs.metadataReferences = entries.flatMap (·.inputs.metadataReferences)
  analyzerReferences : inputs.analyzerReferences = entries.flatMap (·.inputs.analyzerReferences)
  additionalFiles : inputs.additionalFiles = entries.flatMap (·.inputs.additionalFiles)

theorem Lists.cons {inputs : Inputs} {entries : List Argument.Entry} (h : inputs.Lists entries)
    (entry : Argument.Entry) : (entry.inputs.append inputs).Lists (entry :: entries) where
  sources := by simp [append, h.sources]
  metadataReferences := by simp [append, h.metadataReferences]
  analyzerReferences := by simp [append, h.analyzerReferences]
  additionalFiles := by simp [append, h.additionalFiles]

theorem lists_of_written {entries : List Argument.Entry} {args : List String}
    (hw : List.Forall₂ Argument.Entry.Written entries args) (h : ∀ entry ∈ entries, entry.Plain) :
    (ofArguments args).Lists entries := by
  induction hw with
  | nil => exact ⟨rfl, rfl, rfl, rfl⟩
  | @cons entry arg entries args hentry _ ih =>
    have hfirst := hentry.ofArgument (h entry List.mem_cons_self)
    have hrest := ih fun entry hmem => h entry (List.mem_cons_of_mem _ hmem)
    show ((ofArgument arg).append (ofArguments args)).Lists (entry :: entries)
    rw [hfirst]
    exact hrest.cons entry

/-- What plain entries name is read back from every way to write them, and argument lists are read one after the
other. -/
theorem written_read_back {entries : List Argument.Entry} {args : List String}
    (hw : List.Forall₂ Argument.Entry.Written entries args) (h : ∀ entry ∈ entries, entry.Plain) :
    (ofArguments args).Lists entries ∧
      ∀ front back : List String, ofArguments (front ++ back) = (ofArguments front).append (ofArguments back) :=
  ⟨lists_of_written hw h, ofArguments_append⟩

/-- An argument list with each kind of entry. -/
theorem written_read_back_mixed :
    let entries : List Argument.Entry :=
      [.files .reference [{ path := "a.dll".toList }, { label := some "Core".toList, path := "/lib/b=c.dll".toList }],
        .source "/src/a.cs".toList, .setting "debug".toList "full".toList, .flag "noconfig".toList]
    let args := [" -Reference:a.dll;Core=/lib/b=c.dll\t", "/src/a.cs", "/debug:full", "-noconfig "]
    (ofArguments args).Lists entries ∧
      ∀ front back : List String, ofArguments (front ++ back) = (ofArguments front).append (ofArguments back) := by
  intro entries args
  have hw : List.Forall₂ Argument.Entry.Written entries args := by
    have hlist : Argument.Joins ["a.dll".toList, "Core=/lib/b=c.dll".toList] "a.dll;Core=/lib/b=c.dll".toList :=
      .cons (.inr rfl) (.single _)
    refine .cons ?_ (.cons ?_ (.cons ?_ (.cons ?_ .nil)))
    · exact ⟨[' '], '-' :: ("Reference".toList ++ ':' :: "a.dll;Core=/lib/b=c.dll".toList), ['\t'], rfl,
        .files (.inr rfl) ⟨"reference", by decide, by decide⟩ hlist, List.all_eq_true.1 rfl, List.all_eq_true.1 rfl⟩
    · exact ⟨[], "/src/a.cs".toList, [], rfl, .source _, nofun, nofun⟩
    · exact ⟨[], '/' :: ("debug".toList ++ ':' :: "full".toList), [], rfl, .setting (.inl rfl) _ _, nofun, nofun⟩
    · exact ⟨[], '-' :: "noconfig".toList, [' '], rfl, .flag (.inr rfl) _, nofun, List.all_eq_true.1 rfl⟩
  have hfirst : Argument.Value.Plain .reference { path := "a.dll".toList } :=
    { nonempty := by decide
      quote := by decide
      last := by simp; decide
      whole := by simp [Argument.Value.text, Argument.IsSeparator]
      label := by simp
      bare := fun _ => ⟨by simp; decide, fun _ => by decide⟩ }
  have hsecond : Argument.Value.Plain .reference { label := some "Core".toList, path := "/lib/b=c.dll".toList } :=
    { nonempty := by decide
      quote := by decide
      last := by simp; decide
      whole := by simp [Argument.Value.text, Argument.IsSeparator]
      label := by
        rintro name ⟨⟩
        exact ⟨rfl, by decide, by decide, by decide⟩
      bare := nofun }
  have hsource : Argument.IsPlain "/src/a.cs".toList := ⟨by decide, by decide, by simp; decide, by simp; decide⟩
  have hunknown : ∀ switch : FileSwitch, ¬switch.Spells "debug".toList := by
    intro switch
    unfold FileSwitch.Spells
    cases switch <;> decide
  have hplain : ∀ entry ∈ entries, entry.Plain := by
    simp only [entries, List.forall_mem_cons]
    refine ⟨.files ?_, .absolute hsource (by decide) (by decide), .setting (by decide) hunknown, .flag (by simp), nofun⟩
    simp only [List.forall_mem_cons]
    exact ⟨hfirst, hsecond, nofun⟩
  exact written_read_back hw hplain

/-- Nothing, a separator in an alias and a colon in a name are not read back. -/
theorem not_written_read_back :
    let nothing : Argument.Entry := .source []
    let divided : Argument.Entry := .files .reference [{ label := some "x,y".toList, path := "b.dll".toList }]
    let named : Argument.Entry := .setting "r:x".toList "y".toList
    (nothing.Written "" ∧ ofArguments [""] ≠ nothing.inputs) ∧
      (divided.Written "/r:x,y=b.dll" ∧ ofArguments ["/r:x,y=b.dll"] ≠ divided.inputs) ∧
        named.Written "/r:x:y" ∧ ofArguments ["/r:x:y"] ≠ named.inputs := by
  intro nothing divided named
  refine ⟨⟨⟨[], [], [], rfl, .source [], nofun, nofun⟩, by decide⟩,
    ⟨⟨[], '/' :: (['r'] ++ ':' :: "x,y=b.dll".toList), [], rfl, ?_, nofun, nofun⟩, by decide⟩,
    ⟨[], '/' :: ("r:x".toList ++ ':' :: ['y']), [], rfl, .setting (.inl rfl) _ _, nofun, nofun⟩, by decide⟩
  exact .files (.inl rfl) ⟨"r", by decide, rfl⟩ (.single _)

end Inputs

end SliceSync
