/-!
# Blank characters

Surrounding blanks never count: in properties, in compiler arguments and in their listed values.
Blank are the characters of the Unicode property `White_Space`; `trim` drops them at both ends.
Main statements: a part that neither begins nor ends with one stays, whatever stands around it (`trimChars_around`), and
blanks around a text make no difference (`trimChars_pad`).
-/

namespace SliceSync.Text

/-- The ranges of the property `White_Space`, first and last code point. -/
def blankRanges : List (Nat × Nat) :=
  [(0x09, 0x0D), (0x20, 0x20), (0x85, 0x85), (0xA0, 0xA0), (0x1680, 0x1680), (0x2000, 0x200A),
    (0x2028, 0x2029), (0x202F, 0x202F), (0x205F, 0x205F), (0x3000, 0x3000)]

def isBlank (c : Char) : Bool := blankRanges.any fun r => r.1 ≤ c.toNat && c.toNat ≤ r.2

/-- Every blank of ASCII text is blank here too. -/
theorem isBlank_of_isWhitespace {c : Char} (h : c.isWhitespace = true) : isBlank c = true := by
  simp only [Char.isWhitespace, Bool.or_eq_true, decide_eq_true_eq] at h
  rcases h with ((rfl | rfl) | rfl) | rfl <;> decide

/-- The characters without the blanks at both ends. -/
def trimChars (cs : List Char) : List Char :=
  ((cs.dropWhile isBlank).reverse.dropWhile isBlank).reverse

/-- The text without the blanks at both ends. -/
def trim (s : String) : String := String.ofList (trimChars s.toList)

/-- Neither begins nor ends with a blank. -/
structure Unpadded (cs : List Char) : Prop where
  head : ∀ c ∈ cs.head?, isBlank c = false
  last : ∀ c ∈ cs.getLast?, isBlank c = false

/-- A text ends without a blank if it does so behind a character that is none. -/
theorem last_append_cons {c : Char} (hc : isBlank c = false) {rest : List Char}
    (h : ∀ d ∈ rest.getLast?, isBlank d = false) (before : List Char) :
    ∀ d ∈ (before ++ c :: rest).getLast?, isBlank d = false := by
  intro d hd
  rw [List.getLast?_append, List.getLast?_cons] at hd
  cases hlast : rest.getLast? with
  | none =>
    rw [hlast] at hd
    cases hd
    exact hc
  | some e =>
    rw [hlast] at hd
    cases hd
    exact h e hlast

theorem Unpadded.cons {c : Char} (hc : isBlank c = false) {rest : List Char}
    (h : ∀ d ∈ rest.getLast?, isBlank d = false) : Unpadded (c :: rest) where
  head d hd := by
    cases hd
    exact hc
  last := last_append_cons hc h []

/-- Dropping blanks stops at what begins without one. -/
theorem dropWhile_isBlank_append {cs : List Char} (h : ∀ c ∈ cs.head?, isBlank c = false) (before : List Char) :
    (before ++ cs).dropWhile isBlank = before.dropWhile isBlank ++ cs := by
  have hstop : cs.dropWhile isBlank = cs := by
    cases cs with
    | nil => rfl
    | cons c rest => exact List.dropWhile_cons_of_neg (by simp [h c rfl])
  rw [List.dropWhile_append, hstop]
  split
  case isTrue hnil => rw [List.isEmpty_iff.1 hnil, List.nil_append]
  case isFalse => rfl

/-- A part that neither begins nor ends with a blank stays; blanks are dropped before and after it. -/
theorem trimChars_around {cs : List Char} (h : Unpadded cs) (hne : cs ≠ []) (before after : List Char) :
    trimChars (before ++ cs ++ after) =
      before.dropWhile isBlank ++ cs ++ (after.reverse.dropWhile isBlank).reverse := by
  have hhead : ∀ c ∈ (cs ++ after).head?, isBlank c = false := by
    rw [List.head?_append, List.head?_eq_some_head hne, Option.some_or, ← List.head?_eq_some_head hne]
    exact h.head
  have hlast : ∀ c ∈ (before.dropWhile isBlank ++ cs).reverse.head?, isBlank c = false := by
    rw [List.head?_reverse, List.getLast?_append, List.getLast?_eq_some_getLast hne, Option.some_or,
      ← List.getLast?_eq_some_getLast hne]
    exact h.last
  rw [trimChars, List.append_assoc, dropWhile_isBlank_append hhead, ← List.append_assoc,
    List.reverse_append, dropWhile_isBlank_append hlast, List.reverse_append, List.reverse_reverse]

theorem trimChars_eq_self {cs : List Char} (h : Unpadded cs) : trimChars cs = cs := by
  cases cs with
  | nil => rfl
  | cons c rest => simpa using trimChars_around h (by simp) [] []

/-- Blanks around a text do not count. -/
theorem trimChars_pad {before after : List Char} (hbefore : ∀ c ∈ before, isBlank c = true)
    (hafter : ∀ c ∈ after, isBlank c = true) (cs : List Char) :
    trimChars (before ++ cs ++ after) = trimChars cs := by
  have hreverse : ∀ c ∈ after.reverse, isBlank c = true := fun c hc => hafter c (List.mem_reverse.1 hc)
  rw [trimChars, List.append_assoc, List.dropWhile_append_of_pos hbefore, List.dropWhile_append]
  split
  case isTrue h =>
    have hnone : (after ++ []).dropWhile isBlank = [] := List.dropWhile_append_of_pos hafter
    rw [List.append_nil] at hnone
    rw [trimChars, List.isEmpty_iff.1 h, hnone]
  case isFalse h => rw [List.reverse_append, List.dropWhile_append_of_pos hreverse, trimChars]

end SliceSync.Text
