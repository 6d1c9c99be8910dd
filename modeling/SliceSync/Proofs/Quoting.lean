import SliceSync.Proofs.Spelling
/-!
# Quoted values

A list is divided before the quotes around its values are taken off, and an alias is dropped after it. So quotes keep
the blanks at the ends of a value and nothing else: a separator between them divides, what stands before an equals sign
is dropped as an alias, and quotes behind an alias stay.

Main statement: `Argument.quoted`.
-/

namespace SliceSync

namespace Argument

variable {switch : FileSwitch} {mark : Char} {name value : List Char}

/-- Between double quotes. -/
def quote (value : List Char) : List Char := '"' :: (value ++ ['"'])

theorem unquote_quote (value : List Char) : unquote (quote value) = value := by
  simp [unquote, quote]

theorem unpadded_quote (value : List Char) : Text.Unpadded (quote value) :=
  .cons (by decide) (Text.last_append_cons (by decide) (by simp) value)

/-- A quoted value without separators is listed as what stands between the quotes. -/
theorem listed_quote (h : ∀ c ∈ value, ¬IsSeparator c) (hne : value ≠ []) : listed (quote value) = [value] := by
  have hunquoted : unquote (Text.trimChars (quote value)) = value := by
    rw [Text.trimChars_eq_self (unpadded_quote value), unquote_quote]
  have hwhole : ∀ c ∈ quote value, ¬IsSeparator c := by
    have hsign : ¬IsSeparator '"' := by decide
    simpa [quote, hsign, or_imp, forall_and] using h
  rw [listed_of_undivided hwhole (hunquoted.symm ▸ hne), hunquoted]

/-! ## Aliases -/

/-- A value stays as it is, or its alias is dropped. -/
theorem dropAlias_cases (value : List Char) :
    (∃ name path, value = name ++ '=' :: path ∧ IsAlias name ∧ path ≠ [] ∧ dropAlias value = path) ∨
      dropAlias value = value ∧ ∀ name path, value = name ++ '=' :: path → IsAlias name → path = [] := by
  cases hcut : Text.cutAt '=' value with
  | none =>
    refine .inr ⟨dropAlias_of_bare (Text.cutAt_eq_none_iff.1 hcut), ?_⟩
    rintro name path rfl
    exact absurd (List.mem_append_right _ List.mem_cons_self) (Text.cutAt_eq_none_iff.1 hcut)
  | some cut =>
    obtain ⟨front, back⟩ := cut
    obtain ⟨rfl, hequals⟩ := Text.cutAt_eq_some_iff.1 hcut
    by_cases hdrop : IsAlias front ∧ back ≠ []
    case pos =>
      obtain ⟨halias, hne⟩ := hdrop
      exact .inl ⟨front, back, rfl, halias, hne, dropAlias_append halias hne⟩
    case neg =>
      refine .inr ⟨?_, fun name path hvalue halias => ?_⟩
      · rw [dropAlias, hcut]
        refine if_pos ?_
        have hkept : '/' ∈ front ∨ '\\' ∈ front ∨ back = [] := by
          by_contra hnot
          simp only [not_or] at hnot
          exact hdrop ⟨⟨hequals, hnot.1, hnot.2.1⟩, hnot.2.2⟩
        simpa [or_assoc] using hkept
      · -- Both name and front end before the first equals sign.
        have hsame := hcut.symm.trans (Text.cutAt_eq_some_iff.2 ⟨hvalue, halias.equals⟩)
        cases hsame
        by_contra hne
        exact hdrop ⟨halias, hne⟩

/-- A value stays as it is unless it has an alias. -/
theorem dropAlias_eq_self_iff :
    dropAlias value = value ↔ ∀ name path, value = name ++ '=' :: path → IsAlias name → path = [] := by
  obtain ⟨name, path, rfl, halias, hne, hdrop⟩ | ⟨hself, hnone⟩ := dropAlias_cases value
  · refine iff_of_false (fun hself => ?_) fun hnone => hne (hnone name path rfl halias)
    have hlength := congrArg List.length (hdrop.symm.trans hself)
    simp at hlength
    omega
  · exact iff_of_true hself hnone

/-- Only the front of a value is dropped. -/
theorem getLast?_dropAlias (value : List Char) : (dropAlias value).getLast? = value.getLast? := by
  obtain ⟨name, path, rfl, -, hne, hdrop⟩ | ⟨hself, -⟩ := dropAlias_cases value
  · rw [hdrop, List.getLast?_append, List.getLast?_cons, List.getLast?_eq_some_getLast hne]
    rfl
  · rw [hself]

theorem pathOf_eq_self_iff :
    switch.pathOf value = value ↔
      (switch = .reference → ∀ name path, value = name ++ '=' :: path → IsAlias name → path = []) := by
  cases switch with
  | reference => simpa [FileSwitch.pathOf] using dropAlias_eq_self_iff
  | analyzer | additionalFile => simp [FileSwitch.pathOf]

theorem getLast?_pathOf (switch : FileSwitch) (value : List Char) :
    (switch.pathOf value).getLast? = value.getLast? := by
  cases switch with
  | reference => exact getLast?_dropAlias value
  | analyzer | additionalFile => rfl

/-! ## Quotes that stay -/

/-- A quote without its counterpart stays at the end of the last value. -/
theorem exists_listed_last {value : List Char} (h : '"' ∉ value) :
    ∃ v ∈ listed (value ++ ['"']), v.getLast? = some '"' := by
  induction hn : value.length using Nat.strongRecOn generalizing value with
  | ind n ih =>
    by_cases hdivided : ∃ c ∈ value, IsSeparator c
    case pos =>
      obtain ⟨c, hmem, hc⟩ := hdivided
      obtain ⟨before, after, rfl⟩ := List.append_of_mem hmem
      have hshorter : after.length < n := by
        rw [← hn, List.length_append, List.length_cons]
        omega
      obtain ⟨v, hv, hlast⟩ := ih _ hshorter (fun hq => h (by simp [hq])) rfl
      refine ⟨v, ?_, hlast⟩
      rw [List.append_assoc, List.cons_append, listed_append_cons hc]
      exact List.mem_append_right _ hv
    case neg =>
      let kept := value.dropWhile Text.isBlank
      have htrim : Text.trimChars (value ++ ['"']) = kept ++ ['"'] := by
        simpa using Text.trimChars_around (.cons (c := '"') (by decide) (by simp)) (List.cons_ne_nil _ []) value []
      have hunquoted : unquote (Text.trimChars (value ++ ['"'])) = kept ++ ['"'] := by
        rw [htrim]
        cases hkept : kept with
        | nil => rfl
        | cons c rest =>
          have hc : c ∈ value := (List.dropWhile_suffix _).subset (hkept ▸ List.mem_cons_self)
          exact unquote_of_head fun hq => h (Option.some.inj hq ▸ hc)
      have hwhole : ∀ c ∈ value ++ ['"'], ¬IsSeparator c := by
        have hsign : ¬IsSeparator '"' := by decide
        simpa [or_imp, forall_and, hsign] using hdivided
      refine ⟨kept ++ ['"'], ?_, by simp⟩
      rw [listed_of_undivided hwhole (by simp [hunquoted]), hunquoted]
      exact List.mem_singleton_self _

/-- A value with a separator between its quotes leaves one of them behind, whatever stands before it. -/
theorem exists_path_last (hdivided : ¬∀ c ∈ value, ¬IsSeparator c) (hquote : '"' ∉ value) (switch : FileSwitch)
    (front : List Char) :
    ∃ v ∈ (listed (front ++ quote value)).map switch.pathOf, v.getLast? = some '"' := by
  push Not at hdivided
  obtain ⟨c, hmem, hc⟩ := hdivided
  obtain ⟨before, after, rfl⟩ := List.append_of_mem hmem
  have hafter : '"' ∉ after := fun hq => hquote (by simp [hq])
  obtain ⟨v, hv, hlast⟩ := exists_listed_last hafter
  have htext : front ++ quote (before ++ c :: after) = (front ++ '"' :: before) ++ c :: (after ++ ['"']) := by
    simp [quote]
  refine ⟨switch.pathOf v, List.mem_map_of_mem ?_, (getLast?_pathOf switch v).trans hlast⟩
  rw [htext, listed_append_cons hc]
  exact List.mem_append_right _ hv

/-! ## Switches with quoted values -/

/-- A switch whose list ends without a blank yields the paths of the values listed. -/
theorem ofArguments_switch (hm : IsMark mark) (hname : switch.Spells name) {list : List Char}
    (h : ∀ c ∈ list.getLast?, Text.isBlank c = false) :
    Inputs.ofArguments [String.ofList (mark :: (name ++ ':' :: list))] =
      .ofSwitch switch ((listed list).map switch.pathOf) := by
  have htrim : Text.trimChars (String.ofList (mark :: (name ++ ':' :: list))).toList =
      mark :: (name ++ ':' :: list) := by
    rw [String.toList_ofList, Text.trimChars_eq_self (unpadded_switch hm name h)]
  rw [Inputs.ofArguments, List.foldr_cons, List.foldr_nil, Inputs.append_empty,
    Inputs.ofArgument_of_trim htrim (List.cons_ne_nil _ _), read_files hm hname, inputs]

/-- Between quotes, the value stands for itself. -/
structure Keeps (switch : FileSwitch) (value : List Char) : Prop where
  whole : ∀ c ∈ value, ¬IsSeparator c
  bare : switch = .reference → ∀ name path, value = name ++ '=' :: path → IsAlias name → path = []

/-- Quoted values yield themselves exactly if each of them does. -/
theorem map_listed_eq_iff {values : List (List Char)} {list : List Char} (hlist : Joins (values.map quote) list)
    (h : ∀ v ∈ values, v ≠ [] ∧ '"' ∉ v) :
    (listed list).map switch.pathOf = values ↔ ∀ v ∈ values, Keeps switch v := by
  rw [hlist.listed_eq, List.flatMap_map, List.map_flatMap]
  by_cases hwhole : ∀ v ∈ values, ∀ c ∈ v, ¬IsSeparator c
  case pos =>
    have hself : ∀ v ∈ values, (listed (quote v)).map switch.pathOf = [switch.pathOf v] := fun v hv => by
      rw [listed_quote (hwhole v hv) (h v hv).1, List.map_singleton]
    have hid : values.map switch.pathOf = values ↔ ∀ v ∈ values, switch.pathOf v = v := by
      simpa using List.map_inj_left (g := id)
    rw [List.flatMap_congr hself, ← List.map_eq_flatMap, hid]
    refine forall₂_congr fun v hv => pathOf_eq_self_iff.trans ⟨fun hbare => ⟨hwhole v hv, hbare⟩, Keeps.bare⟩
  case neg =>
    refine iff_of_false (fun heq => ?_) fun hkeeps => hwhole fun v hv => (hkeeps v hv).whole
    push Not at hwhole
    obtain ⟨v, hv, c, hmem, hc⟩ := hwhole
    obtain ⟨rest, hrest, hlast⟩ := exists_path_last (fun hnone => hnone c hmem hc) (h v hv).2 switch []
    have hmem : rest ∈ values := heq ▸ List.mem_flatMap.2 ⟨v, hv, hrest⟩
    exact (h rest hmem).2 (List.mem_of_mem_getLast? hlast)

/-! ## Quotes behind an alias -/

/-- An alias without separators and quotes. -/
structure IsPlainAlias (label : List Char) : Prop extends IsAlias label where
  whole : ∀ c ∈ label, ¬IsSeparator c
  quote : '"' ∉ label

section Aliased

variable {label path : List Char}

theorem last_aliased (label path : List Char) :
    ∀ c ∈ (label ++ '=' :: quote path).getLast?, Text.isBlank c = false :=
  Text.last_append_cons (by decide) (unpadded_quote path).last label

/-- The quotes around a path do not begin the value, so they stay when the alias is dropped. -/
theorem map_listed_aliased (h : IsPlainAlias label) (hwhole : ∀ c ∈ path, ¬IsSeparator c) :
    (listed (label ++ '=' :: quote path)).map dropAlias = [quote path] := by
  have hundivided : ∀ c ∈ label ++ '=' :: quote path, ¬IsSeparator c := by
    have hequals : ¬IsSeparator '=' := by decide
    have hsign : ¬IsSeparator '"' := by decide
    simpa [quote, or_imp, forall_and, hequals, hsign] using And.intro h.whole hwhole
  exact map_listed_labelled h.toIsAlias (List.cons_ne_nil _ _) (unpadded_quote path).last hundivided (.inl h.quote)

theorem map_listed_aliased_ne (h : IsPlainAlias label) (hquote : '"' ∉ path) :
    (listed (label ++ '=' :: quote path)).map dropAlias ≠ [path] := by
  by_cases hwhole : ∀ c ∈ path, ¬IsSeparator c
  case pos =>
    rw [map_listed_aliased h hwhole]
    intro heq
    have hlength := congrArg List.length (List.singleton_inj.1 heq)
    simp [quote] at hlength
    omega
  case neg =>
    obtain ⟨rest, hrest, hlast⟩ := exists_path_last hwhole hquote .reference (label ++ ['='])
    rw [List.append_assoc, List.singleton_append] at hrest
    intro heq
    obtain rfl : rest = path := List.mem_singleton.1 (heq ▸ hrest)
    exact hquote (List.mem_of_mem_getLast? hlast)

end Aliased

/-! ## What quotes do -/

/-- What quotes do in the list of a switch. -/
structure Quoted (switch : FileSwitch) (mark : Char) (name : List Char) : Prop where
  /-- Quoted values are read back exactly if none has a separator and no reference reads as an alias with its path. -/
  values_iff : ∀ {values : List (List Char)} {list : List Char}, Joins (values.map quote) list →
    (∀ v ∈ values, v ≠ [] ∧ '"' ∉ v) →
    (Inputs.ofArguments [String.ofList (mark :: (name ++ ':' :: list))] = .ofSwitch switch values ↔
      ∀ v ∈ values, Keeps switch v)
  /-- Behind an alias, a quoted path is never read back. -/
  aliased_ne : switch = .reference → ∀ {label path : List Char}, IsPlainAlias label → '"' ∉ path →
    Inputs.ofArguments [String.ofList (mark :: (name ++ ':' :: (label ++ '=' :: quote path)))] ≠ .ofSwitch switch [path]
  /-- If nothing divides it, it keeps its quotes. -/
  aliased : switch = .reference → ∀ {label path : List Char}, IsPlainAlias label → (∀ c ∈ path, ¬IsSeparator c) →
    Inputs.ofArguments [String.ofList (mark :: (name ++ ':' :: (label ++ '=' :: quote path)))] =
      .ofSwitch switch [quote path]

/-- However the switch is written, quotes save a value from being trimmed and from nothing else. -/
theorem quoted (hm : IsMark mark) (hname : switch.Spells name) : Quoted switch mark name where
  values_iff {values list} hlist h := by
    have hlast : ∀ c ∈ list.getLast?, Text.isBlank c = false := hlist.last fun text htext => by
      obtain ⟨v, -, rfl⟩ := List.mem_map.1 htext
      exact (unpadded_quote v).last
    rw [ofArguments_switch hm hname hlast, Inputs.ofSwitch_inj]
    exact map_listed_eq_iff hlist h
  aliased_ne := by
    rintro rfl label path hlabel hquote
    rw [ofArguments_switch hm hname (last_aliased label path), ne_eq, Inputs.ofSwitch_inj]
    exact map_listed_aliased_ne hlabel hquote
  aliased := by
    rintro rfl label path hlabel hwhole
    rw [ofArguments_switch hm hname (last_aliased label path), Inputs.ofSwitch_inj]
    exact map_listed_aliased hlabel hwhole

/-- Blanks between quotes are kept. -/
theorem quoted_blanks :
    Inputs.ofArguments ["-Reference:\" a.dll \";\"b.dll\""] =
      .ofSwitch .reference [" a.dll ".toList, "b.dll".toList] := by
  have hname : FileSwitch.Spells .reference "Reference".toList := ⟨"reference", by decide, by decide⟩
  have hlist : Joins ([" a.dll ".toList, "b.dll".toList].map quote) "\" a.dll \";\"b.dll\"".toList :=
    .cons (.inr rfl) (.single _)
  have hkeeps : ∀ v ∈ [" a.dll ".toList, "b.dll".toList], Keeps .reference v := by
    have hbare {v : List Char} (h : '=' ∉ v) := dropAlias_eq_self_iff.1 (dropAlias_of_bare h)
    have hwhole : ∀ v ∈ [" a.dll ".toList, "b.dll".toList], ∀ c ∈ v, ¬IsSeparator c := by simp [IsSeparator]
    have hequals : ∀ v ∈ [" a.dll ".toList, "b.dll".toList], '=' ∉ v := by decide
    exact fun v hv => ⟨hwhole v hv, fun _ => hbare (hequals v hv)⟩
  exact ((quoted (.inr rfl) hname).values_iff hlist (by decide)).2 hkeeps

/-- A separator between quotes divides, an equals sign makes an alias, and behind an alias the quotes stay. -/
theorem not_quoted :
    (Inputs.ofArguments ["/r:\"a,b.dll\""]).metadataReferences = ["\"a", "b.dll\""] ∧
      (Inputs.ofArguments ["/r:\"x=y.dll\""]).metadataReferences = ["y.dll"] ∧
        (Inputs.ofArguments ["/r:Core=\"/lib/Core.dll\""]).metadataReferences = ["\"/lib/Core.dll\""] := by
  decide

end Argument

end SliceSync
