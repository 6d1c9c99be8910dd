import Mathlib.Data.List.TakeWhile
import SliceSync.Json.Reader
import SliceSync.Json.Printer
/-!
# Reading what was written

The characters written for a value are cut into the tokens of the value, and the value is read off its tokens. Each
step is stated with what follows: characters that follow are cut as they are by themselves, as long as they do not go
on with a number or a word, and tokens that follow are left.

Main statement: `Json.parse?_compact`.
-/

namespace SliceSync.Json

/-! ## Texts -/

theorem hexValue_hexDigit (n : Nat) : hexValue (hexDigit n) = some (n % 16) := by
  have hall : ∀ d < 16, hexValue (Nat.digitChar d) = some d := by decide
  exact hall (n % 16) (Nat.mod_lt n (by decide))

theorem joinUnits_code {n : Nat} (h : n < 0xD800) (us : List TextUnit) :
    joinUnits (.code n :: us) = (joinUnits us).map (Char.ofNat n :: ·) := by
  have hhigh : isHigh n = false := by simp [isHigh]; omega
  have hlow : isLow n = false := by simp [isLow]; omega
  rcases us with _ | ⟨_ | _, _⟩ <;> simp [joinUnits, hhigh, hlow]

/-- A character is written so that one unit is read, which stands for it. -/
theorem units_escapeChar (c : Char) : ∃ u,
    (∀ us, joinUnits (u :: us) = (joinUnits us).map (c :: ·)) ∧
      ∀ rest, units (escapeChar c ++ rest) = (units rest).map fun r => (u :: r.1, r.2) := by
  have hplain : ∀ us, joinUnits (.char c :: us) = (joinUnits us).map (c :: ·) := fun _ => by rw [joinUnits]
  have hofNat {n : Nat} (h : c.toNat = n) : Char.ofNat n = c := h ▸ Char.ofNat_toNat c
  unfold escapeChar
  split
  · next h => exact ⟨.char c, hplain, fun rest => by simp [units, escaped, h]⟩
  split
  · next h => exact ⟨.char c, hplain, fun rest => by simp [units, escaped, h]⟩
  split
  · next h =>
    obtain rfl := hofNat h
    exact ⟨.char _, hplain, fun rest => by simp [units, escaped]⟩
  split
  · next h =>
    obtain rfl := hofNat h
    exact ⟨.char _, hplain, fun rest => by simp [units, escaped]⟩
  split
  · next h => exact ⟨.char c, hplain, fun rest => by simp [units, escaped, h]⟩
  split
  · next h => exact ⟨.char c, hplain, fun rest => by simp [units, escaped, h]⟩
  split
  · next h => exact ⟨.char c, hplain, fun rest => by simp [units, escaped, h]⟩
  split
  · next h =>
    refine ⟨.code c.toNat, fun us => ?_, fun rest => ?_⟩
    · rw [joinUnits_code (by omega), Char.ofNat_toNat]
    · have hzero : hexValue '0' = some 0 := rfl
      have hvalue : c.toNat / 16 % 16 * 16 + c.toNat % 16 = c.toNat := by omega
      simp [units, hzero, hexValue_hexDigit, hvalue]
  · next hquote hslash _ _ _ _ _ hcontrol =>
    refine ⟨.char c, hplain, fun rest => ?_⟩
    simp [units, hslash, hcontrol]

/-- What is written for a text is read up to its closing quote, and stands for the text. -/
theorem units_writeText (cs rest : List Char) :
    ∃ us, units (cs.flatMap escapeChar ++ '"' :: rest) = some (us, rest) ∧ joinUnits us = some cs := by
  induction cs with
  | nil => exact ⟨[], by simp [units], rfl⟩
  | cons c cs ih =>
    obtain ⟨us, hread, hjoin⟩ := ih
    obtain ⟨u, hjoins, hreads⟩ := units_escapeChar c
    refine ⟨u :: us, ?_, by rw [hjoins, hjoin, Option.map_some]⟩
    rw [List.flatMap_cons, List.append_assoc, hreads, hread, Option.map_some]

/-! ## Numbers -/

theorem isDigit_of_mem_nat {n : Nat} {c : Char} (h : c ∈ Nat.toDigits 10 n) : c.isDigit = true :=
  Nat.isDigit_of_mem_toDigits (by decide) (by decide) h

/-- A digit is none of the signs that a number is cut at. -/
theorem ne_of_isDigit {c : Char} (h : c.isDigit = true) {mark : Char} (hmark : mark.isDigit = false) : c ≠ mark := by
  rintro rfl
  rw [h] at hmark
  cases hmark

/-- Digits alone are whole. -/
theorem numberParts_of_digits {ds : List Char} (h : ∀ c ∈ ds, c.isDigit = true) :
    numberParts ds = { negative := false, whole := ds, fraction := none, exponent := none } := by
  have hall (p : Char → Bool) (hp : ∀ c, c.isDigit = true → p c = true) :
      ds.takeWhile p = ds ∧ ds.dropWhile p = [] :=
    ⟨List.takeWhile_eq_self_iff.2 fun c hc => hp c (h c hc), List.dropWhile_eq_nil_iff.2 fun c hc => hp c (h c hc)⟩
  have hmark := hall (fun c => !(c = 'e' || c = 'E')) fun c hc => by
    have he : c ≠ 'e' := ne_of_isDigit hc rfl
    have hE : c ≠ 'E' := ne_of_isDigit hc rfl
    simp [he, hE]
  have hpoint := hall (· ≠ '.') fun c hc => by
    have hpoint : c ≠ '.' := ne_of_isDigit hc rfl
    simp [hpoint]
  unfold numberParts
  split
  next _ negative body hcut =>
    have hbody : (negative, body) = (false, ds) := by
      rw [← hcut]
      split
      · exact absurd (h '-' (by simp)) (by decide)
      · rfl
    obtain ⟨rfl, rfl⟩ := Prod.mk.inj hbody
    simp only [hmark.1, hmark.2, hpoint.1, hpoint.2, List.tail?_nil]

theorem head?_nat {n : Nat} (h : 0 < n) : (Nat.toDigits 10 n).head? ≠ some '0' := by
  induction n using Nat.strongRecOn with
  | _ n ih =>
    rw [Nat.toDigits_eq_if (by decide)]
    split
    · next hlt =>
      have hall : ∀ d < 10, 0 < d → d.digitChar ≠ '0' := by decide
      simpa using hall n hlt h
    · next hle =>
      rw [List.head?_append, Option.or_of_isSome (by simp [Nat.toDigits_ne_nil])]
      exact ih (n / 10) (by omega) (by omega)

theorem isDigits_nat (n : Nat) : isDigits (Nat.toDigits 10 n) = true := by
  simpa [isDigits, Nat.toDigits_ne_nil] using fun c => isDigit_of_mem_nat (n := n) (c := c)

/-- A natural number is a number without leading zeros. -/
theorem isNumber_nat (n : Nat) : isNumber (Nat.toDigits 10 n) = true := by
  have hzeros : (Nat.toDigits 10 n).length = 1 ∨ (Nat.toDigits 10 n).head? ≠ some '0' := by
    rcases Nat.eq_zero_or_pos n with rfl | hn
    · exact .inl rfl
    · exact .inr (head?_nat hn)
  rw [isNumber, numberParts_of_digits fun c => isDigit_of_mem_nat]
  simpa [isDigits_nat] using hzeros

/-! ## What is written -/

/-- The values that are written: texts that are strings, natural numbers, and what is made of them. -/
inductive IsWritten : Json → Prop
  | null : IsWritten .null
  | bool (b : Bool) : IsWritten (.bool b)
  | nat (n : Nat) : IsWritten (Json.nat n)
  | string (s : String) : IsWritten (Json.string s)
  | array {vs : List Json} (h : ∀ v ∈ vs, IsWritten v) : IsWritten (.array vs)
  | record {ms : List (String × Json)} (h : ∀ m ∈ ms, IsWritten m.2) : IsWritten (Json.record ms)

mutual

/-- The tokens of a value. -/
def tokensOf : Json → List Token
  | .null => [.null]
  | .bool b => [.bool b]
  | .number written => [.number written]
  | .text s => [.text s]
  | .array vs => .openBracket :: elementTokens vs ++ [.closeBracket]
  | .object ms => .openBrace :: memberTokens ms ++ [.closeBrace]

def elementTokens : List Json → List Token
  | [] => []
  | [v] => tokensOf v
  | v :: vs => tokensOf v ++ .comma :: elementTokens vs

def memberTokens : List (Option String × Json) → List Token
  | [] => []
  | [(key, v)] => .text key :: .colon :: tokensOf v
  | (key, v) :: ms => .text key :: .colon :: tokensOf v ++ .comma :: memberTokens ms

end

/-! ## From characters to tokens -/

/-- The characters are these tokens, however many more may be read. -/
def Lexes (cs : List Char) (ts : List Token) : Prop := ∀ fuel, cs.length ≤ fuel → tokens fuel cs = some ts

/-- What comes next is part of no number and no word. -/
def Stops (cs : List Char) : Prop := ∀ c ∈ cs.head?, isNumberChar c = false ∧ c.isAlpha = false

/-- A character that is a token by itself is no blank and part of no number or word. -/
theorem markToken_apart {c : Char} {t : Token} (h : markToken c = some t) :
    isGap c = false ∧ c.isDigit = false ∧ isNumberChar c = false ∧ c.isAlpha = false := by
  have hc : c ∈ ['\x7b', '\x7d', '[', ']', ',', ':'] := by
    unfold markToken at h
    split at h <;> simp_all
  simp only [List.mem_cons, List.not_mem_nil, or_false] at hc
  rcases hc with rfl | rfl | rfl | rfl | rfl | rfl <;> decide

theorem Lexes.nil : Lexes [] [] := fun fuel _ => by cases fuel <;> rfl

theorem Lexes.cons {c : Char} {cs rest : List Char} {t : Token} {ts : List Token} (h : Lexes rest ts)
    (hgap : isGap c = false) (hnext : nextToken c cs = some (t, rest)) (hlength : rest.length ≤ cs.length) :
    Lexes (c :: cs) (t :: ts) := by
  intro fuel hfuel
  rw [List.length_cons] at hfuel
  obtain ⟨fuel, rfl⟩ : ∃ more, fuel = more + 1 := ⟨fuel - 1, by omega⟩
  rw [tokens, if_neg (by simp [hgap]), hnext]
  show (tokens fuel rest).map (t :: ·) = _
  rw [h fuel (by omega), Option.map_some]

theorem Lexes.mark {c : Char} {rest : List Char} {t : Token} {ts : List Token} (h : Lexes rest ts)
    (hc : markToken c = some t) : Lexes (c :: rest) (t :: ts) :=
  h.cons (markToken_apart hc).1 (by rw [nextToken, hc]) (Nat.le_refl _)

theorem Lexes.text {rest : List Char} {ts : List Token} (h : Lexes rest ts) (s : String) :
    Lexes (writeText s ++ rest) (.text (some s) :: ts) := by
  obtain ⟨us, hread, hjoin⟩ := units_writeText s.toList rest
  have hnext : nextToken '"' (s.toList.flatMap escapeChar ++ '"' :: rest) = some (.text (some s), rest) := by
    simp [nextToken, markToken, hread, hjoin]
  simpa [writeText] using h.cons rfl hnext (by simp; omega)

theorem takeWhile_stops {p : Char → Bool} {cs rest : List Char} (h : ∀ c ∈ cs, p c = true)
    (hrest : ∀ c ∈ rest.head?, p c = false) :
    (cs ++ rest).takeWhile p = cs ∧ (cs ++ rest).dropWhile p = rest := by
  rw [List.takeWhile_append_of_pos h, List.dropWhile_append_of_pos h]
  cases rest with
  | nil => simp
  | cons c rest => simp [hrest c rfl]

theorem Lexes.nat {rest : List Char} {ts : List Token} (h : Lexes rest ts) (hstop : Stops rest) (n : Nat) :
    Lexes (Nat.toDigits 10 n ++ rest) (.number (Nat.toDigits 10 n) :: ts) := by
  obtain ⟨c, cs, hcs⟩ := List.exists_cons_of_ne_nil (Nat.toDigits_ne_nil (n := n) (b := 10))
  have hdigit : ∀ d ∈ c :: cs, d.isDigit = true := fun d hd => isDigit_of_mem_nat (hcs ▸ hd)
  have hnumber : isNumber (c :: cs) = true := hcs ▸ isNumber_nat n
  obtain ⟨hc, htail⟩ := List.forall_mem_cons.1 hdigit
  have hchars : ∀ d ∈ cs, isNumberChar d = true := fun d hd => by simp [isNumberChar, htail d hd]
  obtain ⟨htake, hdrop⟩ := takeWhile_stops hchars fun d hd => (hstop d hd).1
  have hmark : markToken c = none := Option.eq_none_iff_forall_ne_some.2 fun t ht => by
    rw [(markToken_apart ht).2.1] at hc
    cases hc
  have hgap : isGap c = false := by
    unfold isGap
    simp only [Bool.or_eq_false_iff, decide_eq_false_iff_not]
    exact ⟨⟨⟨ne_of_isDigit hc rfl, ne_of_isDigit hc rfl⟩, ne_of_isDigit hc rfl⟩, ne_of_isDigit hc rfl⟩
  have hquote : c ≠ '"' := ne_of_isDigit hc rfl
  rw [hcs, List.cons_append]
  refine h.cons hgap ?_ (by simp)
  rw [nextToken, hmark]
  simp [hquote, hc, htake, hdrop, hnumber]

theorem Lexes.word {rest : List Char} {ts : List Token} (h : Lexes rest ts) (hstop : Stops rest) {c : Char}
    {cs : List Char} {t : Token} (hword : wordToken (c :: cs) = some t) (hletters : cs.all Char.isAlpha = true)
    (hc : isGap c = false ∧ markToken c = none ∧ c ≠ '"' ∧ c.isDigit = false ∧ c ≠ '-') :
    Lexes (c :: cs ++ rest) (t :: ts) := by
  obtain ⟨hgap, hmark, hquote, hdigit, hminus⟩ := hc
  obtain ⟨htake, hdrop⟩ := takeWhile_stops (List.all_eq_true.1 hletters) fun d hd => (hstop d hd).2
  rw [List.cons_append]
  refine h.cons hgap ?_ (by simp)
  rw [nextToken, hmark]
  simp [hquote, hdigit, hminus, htake, hdrop, hword]

/-- The characters written for a value are its tokens, and what follows is left. -/
def Spells (cs : List Char) (ts : List Token) : Prop :=
  ∀ rest more, Stops rest → Lexes rest more → Lexes (cs ++ rest) (ts ++ more)

theorem stops_mark {c : Char} {t : Token} (hc : markToken c = some t) (rest : List Char) : Stops (c :: rest) := by
  intro d hd
  obtain rfl : c = d := Option.some.inj hd
  exact (markToken_apart hc).2.2

theorem Spells.mark_behind {cs : List Char} {ts : List Token} (h : Spells cs ts) {c : Char} {t : Token}
    (hc : markToken c = some t) {rest : List Char} {more : List Token} (hrest : Lexes rest more) :
    Lexes (cs ++ c :: rest) (ts ++ t :: more) :=
  h _ _ (stops_mark hc rest) (hrest.mark hc)

theorem spells_elements {vs : List Json} (h : ∀ v ∈ vs, Spells (compactChars v) (tokensOf v)) :
    Spells (compactElements vs) (elementTokens vs) := by
  induction vs with
  | nil => exact fun rest more _ hrest => hrest
  | cons v vs ih =>
    obtain ⟨hv, hvs⟩ := List.forall_mem_cons.1 h
    intro rest more hstop hrest
    cases vs with
    | nil => exact hv rest more hstop hrest
    | cons w vs =>
      have htail := hv.mark_behind rfl (ih hvs rest more hstop hrest) (c := ',')
      simpa [compactElements, elementTokens] using htail

theorem spells_members {ms : List (String × Json)} (h : ∀ m ∈ ms, Spells (compactChars m.2) (tokensOf m.2)) :
    Spells (compactMembers (ms.map fun m => (some m.1, m.2))) (memberTokens (ms.map fun m => (some m.1, m.2))) := by
  induction ms with
  | nil => exact fun rest more _ hrest => hrest
  | cons m ms ih =>
    obtain ⟨key, v⟩ := m
    obtain ⟨hv, hms⟩ := List.forall_mem_cons.1 h
    intro rest more hstop hrest
    -- a member's value comes behind its key, whatever comes behind the value
    have hkey {rest : List Char} {more : List Token} (hvalue : Lexes rest more) :
        Lexes (writeText key ++ ':' :: rest) (.text (some key) :: .colon :: more) := (hvalue.mark rfl).text key
    cases ms with
    | nil => simpa [compactMembers, memberTokens] using hkey (hv rest more hstop hrest)
    | cons m' ms =>
      have htail := hkey (hv.mark_behind rfl (ih hms rest more hstop hrest) (c := ','))
      simpa [compactMembers, memberTokens] using htail

theorem spells_compactChars {v : Json} (h : v.IsWritten) : Spells (compactChars v) (tokensOf v) := by
  induction h with
  | null => exact fun rest more hstop hrest => hrest.word hstop rfl rfl (by decide)
  | bool b =>
    cases b
    · exact fun rest more hstop hrest => hrest.word hstop rfl rfl (by decide)
    · exact fun rest more hstop hrest => hrest.word hstop rfl rfl (by decide)
  | nat n => exact fun rest more hstop hrest => hrest.nat hstop n
  | string s => exact fun rest more _ hrest => hrest.text s
  | array _ ih =>
    intro rest more _ hrest
    have hinner := (spells_elements ih).mark_behind rfl hrest (c := ']')
    simpa [compactChars, tokensOf] using hinner.mark (c := '[') rfl
  | record _ ih =>
    intro rest more _ hrest
    have hinner := (spells_members ih).mark_behind rfl hrest (c := '\x7d')
    simpa [Json.record, compactChars, tokensOf] using hinner.mark (c := '\x7b') rfl

/-- The tokens of what is written for a value are those of the value. -/
theorem tokens_compactChars {v : Json} (h : v.IsWritten) :
    tokens (compactChars v).length (compactChars v) = some (tokensOf v) := by
  have hlexes := spells_compactChars h [] [] (fun c hc => absurd hc (by simp)) .nil
  rw [List.append_nil, List.append_nil] at hlexes
  exact hlexes _ (Nat.le_refl _)

/-! ## From tokens to values -/

/-- The value is read off its tokens, and what follows is left. -/
def IsReadBack (v : Json) : Prop :=
  ∀ fuel rest, 2 * (tokensOf v).length ≤ fuel → value fuel (tokensOf v ++ rest) = some (v, rest)

/-- No element begins as an array ends. -/
theorem elementTokens_ne (v : Json) (vs : List Json) (ts rest : List Token) :
    elementTokens (v :: vs) ++ ts ≠ .closeBracket :: rest := by
  cases vs <;> cases v <;> simp [elementTokens, tokensOf]

/-- No member begins as an object ends. -/
theorem memberTokens_ne (m : String × Json) (ms : List (String × Json)) (ts rest : List Token) :
    memberTokens ((m :: ms).map fun m => (some m.1, m.2)) ++ ts ≠ .closeBrace :: rest := by
  cases ms <;> simp [memberTokens]

theorem elements_elementTokens (v : Json) {vs : List Json} (h : ∀ w ∈ v :: vs, w.IsReadBack) (fuel : Nat)
    (rest : List Token) (hfuel : 2 * ((elementTokens (v :: vs)).length + 1) ≤ fuel) :
    elements fuel (elementTokens (v :: vs) ++ .closeBracket :: rest) = some (v :: vs, rest) := by
  induction vs generalizing v fuel with
  | nil =>
    obtain ⟨fuel, rfl⟩ : ∃ more, fuel = more + 1 := ⟨fuel - 1, by omega⟩
    simp only [elementTokens] at hfuel ⊢
    rw [elements, h v (by simp) fuel _ (by omega)]
  | cons w vs ih =>
    obtain ⟨hv, hvs⟩ := List.forall_mem_cons.1 h
    obtain ⟨fuel, rfl⟩ : ∃ more, fuel = more + 1 := ⟨fuel - 1, by omega⟩
    simp only [elementTokens, List.length_append, List.length_cons] at hfuel ⊢
    rw [List.append_assoc, elements, hv fuel _ (by omega)]
    simp only [List.cons_append]
    rw [ih w hvs fuel (by omega), Option.map_some]

theorem members_memberTokens (m : String × Json) {ms : List (String × Json)} (h : ∀ m' ∈ m :: ms, m'.2.IsReadBack)
    (fuel : Nat) (rest : List Token)
    (hfuel : 2 * ((memberTokens ((m :: ms).map fun m => (some m.1, m.2))).length + 1) ≤ fuel) :
    members fuel (memberTokens ((m :: ms).map fun m => (some m.1, m.2)) ++ .closeBrace :: rest) =
      some ((m :: ms).map fun m => (some m.1, m.2), rest) := by
  induction ms generalizing m fuel with
  | nil =>
    obtain ⟨fuel, rfl⟩ : ∃ more, fuel = more + 1 := ⟨fuel - 1, by omega⟩
    simp only [List.map_cons, List.map_nil, memberTokens, List.length_cons, List.cons_append] at hfuel ⊢
    rw [members, h m (by simp) fuel _ (by omega)]
  | cons m' ms ih =>
    obtain ⟨hm, hms⟩ := List.forall_mem_cons.1 h
    obtain ⟨fuel, rfl⟩ : ∃ more, fuel = more + 1 := ⟨fuel - 1, by omega⟩
    simp only [List.map_cons, memberTokens, List.length_cons, List.length_append] at hfuel ⊢ ih
    simp only [List.cons_append, List.append_assoc]
    rw [members, hm fuel _ (by omega)]
    simp only
    rw [ih m' hms fuel (by omega), Option.map_some]

/-- A written value is read back off its tokens. -/
theorem isReadBack {v : Json} (h : v.IsWritten) : v.IsReadBack := by
  induction h with
  | null | bool | nat | string =>
    intro fuel rest hfuel
    obtain ⟨fuel, rfl⟩ : ∃ more, fuel = more + 1 := ⟨fuel - 1, by have : 2 ≤ fuel := hfuel; omega⟩
    rfl
  | @array vs _ ih =>
    intro fuel rest hfuel
    simp only [tokensOf, List.length_append, List.length_cons, List.cons_append, List.append_assoc] at hfuel ⊢
    obtain ⟨fuel, rfl⟩ : ∃ more, fuel = more + 1 := ⟨fuel - 1, by omega⟩
    cases vs with
    | nil => rfl
    | cons v vs =>
      rw [value]
      · simp only [List.nil_append]
        rw [elements_elementTokens v ih fuel rest (by omega), Option.map_some]
      · exact elementTokens_ne v vs _
  | @record ms _ ih =>
    intro fuel rest hfuel
    simp only [Json.record, tokensOf, List.length_append, List.length_cons, List.cons_append, List.append_assoc] at hfuel ⊢
    obtain ⟨fuel, rfl⟩ : ∃ more, fuel = more + 1 := ⟨fuel - 1, by omega⟩
    cases ms with
    | nil => rfl
    | cons m ms =>
      rw [value]
      · simp only [List.nil_append]
        rw [members_memberTokens m ih fuel rest (by omega), Option.map_some]
      · exact memberTokens_ne m ms _

/-- What is written for a value is read as the value. -/
theorem parse?_compact {v : Json} (h : v.IsWritten) : parse? v.compact = some v := by
  have hvalue := isReadBack h (2 * (tokensOf v).length + 1) [] (by omega)
  rw [List.append_nil] at hvalue
  simp only [parse?, compact, String.toList_ofList, tokens_compactChars h, hvalue]

end SliceSync.Json
