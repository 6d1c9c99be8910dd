import SliceSync.Text.Divide
/-!
# Paths

Paths are text. `/` divides their pieces; a path that begins with `/` is absolute; empty pieces and
pieces `.` stand for nothing, save for a `.` that opens a relative path. Nothing is looked up and
nothing is replaced: `parent` cuts text off the end (`parent_cuts`), `join` adds text to it.
-/

namespace SliceSync.Text.Path

def isAbsolute (path : List Char) : Bool := path.head? = some '/'

/-- How much of the path stands before its first ordinary piece: the root, or an opening `.`. -/
def opening (path : List Char) : List Char :=
  match path with
  | '/' :: _ => ['/']
  | ['.'] => ['.']
  | '.' :: '/' :: _ => ['.']
  | _ => []

/-- The pieces between the slashes, in order. -/
def pieces (path : List Char) : List (List Char) := divide (· = '/') path

/-- Whether a piece stands for nothing. -/
def isVoid (piece : List Char) : Bool := piece = [] || piece = ['.']

/-- A reversed text without the void pieces at its end, down to its first `keep` characters. -/
def dropVoid (keep : Nat) : (fuel : Nat) → List Char → List Char
  | 0, reversed => reversed
  | fuel + 1, reversed =>
    if reversed.length ≤ keep then reversed
    else
      let body := reversed.take (reversed.length - keep)
      let piece := body.takeWhile (· ≠ '/')
      let cut := if piece.length < body.length then piece.length + 1 else piece.length
      if isVoid piece then dropVoid keep fuel (reversed.drop cut) else reversed

/-- The path without its last piece: `none` for the root and for the empty path. -/
def parent (path : List Char) : Option (List Char) :=
  let keep := (opening path).length
  let reversed := dropVoid keep path.length path.reverse
  if keep < reversed.length then
    let body := reversed.take (reversed.length - keep)
    let piece := body.takeWhile (· ≠ '/')
    let cut := if piece.length < body.length then piece.length + 1 else piece.length
    some (dropVoid keep path.length (reversed.drop cut)).reverse
  else if opening path = ['.'] then some []
  else none

/-- The last piece, if it names something: not the root, not `.` or `..`. -/
def fileName (path : List Char) : Option (List Char) :=
  let named := (pieces (path.drop (opening path).length)).filter fun p => !isVoid p
  match named.getLast? with
  | some name => if name = ['.', '.'] then none else some name
  | none => none

/-- The file name up to its last dot; a dot in front divides nothing. -/
def fileStem (path : List Char) : Option (List Char) :=
  (fileName path).map fun name =>
    let reversed := name.reverse
    match reversed.dropWhile (· ≠ '.') with
    | '.' :: before => if before = [] then name else before.reverse
    | _ => name

/-- `path` read from the directory `base`. -/
def join (base path : List Char) : List Char :=
  if isAbsolute path then path
  else if base.getLast? = some '/' || base = [] then base ++ path
  else base ++ '/' :: path

/-- The name of an item read from the project directory; without a directory it stays as it is. -/
def resolve (directory item : List Char) : List Char :=
  if directory = [] then item else join directory item

/-- The directory a path lies in; none is the empty text. -/
def directoryOf (path : String) : String := String.ofList ((parent path.toList).getD [])

/-- The file name without its extension; a path that names no file has none. -/
def stemOf (path : String) : String := String.ofList ((fileStem path.toList).getD [])

def resolveIn (directory item : String) : String :=
  String.ofList (resolve directory.toList item.toList)

/-! ## What is cut off -/

theorem dropVoid_isSuffix (keep fuel : Nat) (reversed : List Char) : dropVoid keep fuel reversed <:+ reversed := by
  induction fuel generalizing reversed with
  | zero => exact List.suffix_rfl
  | succ fuel ih =>
    unfold dropVoid
    dsimp only
    split
    · exact List.suffix_rfl
    · split
      · exact (ih _).trans (List.drop_suffix _ _)
      · exact List.suffix_rfl

/-- A parent is what is left of a path with some of its end cut off. -/
theorem parent_cuts {path directory : List Char} (h : parent path = some directory) :
    directory <+: path ∧ directory.length < path.length := by
  unfold parent at h
  dsimp only at h
  split at h
  · rename_i hkeep
    have hfirst := dropVoid_isSuffix (opening path).length path.length path.reverse
    generalize dropVoid (opening path).length path.length path.reverse = reversed at h hkeep hfirst
    -- at least one character is cut off
    have hbody : 0 < (reversed.take (reversed.length - (opening path).length)).length := by
      rw [List.length_take]
      omega
    generalize reversed.take (reversed.length - (opening path).length) = body at h hbody
    generalize body.takeWhile (· ≠ '/') = piece at h
    have hcut : 0 < if piece.length < body.length then piece.length + 1 else piece.length := by split <;> omega
    generalize (if piece.length < body.length then piece.length + 1 else piece.length) = cut at h hcut
    cases h
    have hlast := dropVoid_isSuffix (opening path).length path.length (reversed.drop cut)
    have hless := hlast.length_le
    rw [List.length_drop] at hless
    refine ⟨?_, ?_⟩
    · rw [← List.reverse_suffix, List.reverse_reverse]
      exact (hlast.trans (List.drop_suffix _ _)).trans hfirst
    · have hlength := hfirst.length_le
      rw [List.length_reverse] at hlength ⊢
      omega
  · split at h <;> cases h
    rename_i hopening
    refine ⟨⟨path, rfl⟩, List.length_pos_iff.2 ?_⟩
    rintro rfl
    cases hopening

example : parent "/src/./a".toList = some "/src".toList := by decide

/-- A stem is what is left of a file name with its end cut off; something is left. -/
theorem fileStem_cuts {path stem : List Char} (h : fileStem path = some stem) :
    stem ≠ [] ∧ ∃ name, fileName path = some name ∧ stem <+: name := by
  obtain ⟨name, hname, hstem⟩ := Option.map_eq_some_iff.1 h
  have hsome : name ≠ [] := by
    unfold fileName at hname
    dsimp only at hname
    split at hname
    · rename_i last hlast
      split at hname <;> cases hname
      rintro rfl
      simpa [isVoid] using List.mem_of_getLast? hlast
    · cases hname
  dsimp only at hstem
  split at hstem
  · rename_i before hdot
    split at hstem
    · exact ⟨hstem ▸ hsome, name, hname, hstem ▸ List.prefix_rfl⟩
    · rename_i hbefore
      refine ⟨hstem ▸ by simpa using hbefore, name, hname, hstem ▸ ?_⟩
      rw [← List.reverse_suffix, List.reverse_reverse]
      exact (hdot ▸ List.suffix_cons _ _).trans (List.dropWhile_suffix _)
  · exact ⟨hstem ▸ hsome, name, hname, hstem ▸ List.prefix_rfl⟩

example : fileStem "/out/a.b.dll".toList = some "a.b".toList := by decide

end SliceSync.Text.Path
