import KimiCli.Js.Text
import KimiCli.Lib.Substrings

/-!
# Strings as code units

Where the program cuts a string at an index, it may cut a pair of surrogates.  There a string is
the list of its code units.
-/

namespace KimiCli

/-- The code units of a string literal. -/
def units (s : String) : List UInt16 := (utf16Units s.toList).map UInt16.ofNat

/-- The code unit of an ASCII character. -/
def ascii (c : Char) : UInt16 := UInt16.ofNat c.toNat

def isJsSpaceUnit (c : UInt16) : Bool := isJsSpace (Char.ofNat c.toNat)

def isDigitUnit (c : UInt16) : Bool := ascii '0' ≤ c && c ≤ ascii '9'

variable {α : Type} [DecidableEq α] {text search : List α} {start i : ℕ}

/-- `text.indexOf(search, start)`; `none` for `-1`. -/
def indexOf (text search : List α) (start : ℕ) : Option ℕ :=
  (List.range (text.length + 1)).find? fun i => decide (start ≤ i ∧ search <+: text.drop i)

/-- `text.slice(start, stop)`, for indices that are not negative. -/
def slice (text : List α) (start stop : ℕ) : List α := (text.take stop).drop start

/-- `text.slice(start)`; a negative index counts from the end. -/
def sliceFrom (text : List α) (start : ℤ) : List α :=
  text.drop (if start < 0 then (text.length + start).toNat else start.toNat)

theorem indexOf_eq_some (found : indexOf text search start = some i) :
    start ≤ i ∧ search <+: text.drop i ∧ ∀ j, start ≤ j → j < i → ¬ search <+: text.drop j := by
  rw [indexOf, List.find?_range_eq_some] at found
  obtain ⟨here, -, before⟩ := found
  rw [decide_eq_true_eq] at here
  refine ⟨here.1, here.2, fun j from_ lt inside => ?_⟩
  have := before j lt
  rw [Bool.not_eq_true', decide_eq_false_iff_not] at this
  exact this ⟨from_, inside⟩

theorem indexOf_eq_none (nonempty : search ≠ []) (none : indexOf text search start = none) (j : ℕ)
    (le : start ≤ j) : ¬ search <+: text.drop j := by
  intro inside
  rw [indexOf, List.find?_range_eq_none] at none
  by_cases lt : j < text.length + 1
  · have := none j lt
    rw [Bool.not_eq_true', decide_eq_false_iff_not] at this
    exact this ⟨le, inside⟩
  · rw [List.drop_eq_nil_of_le (by omega), List.prefix_nil] at inside
    exact nonempty inside

omit [DecidableEq α] in
theorem sliceFrom_natCast (text : List α) (start : ℕ) : sliceFrom text start = text.drop start := by
  rw [sliceFrom, if_neg (by omega), Int.toNat_natCast]

omit [DecidableEq α] in
theorem slice_append_drop {stop : ℕ} (le : start ≤ stop) :
    slice text start stop ++ text.drop stop = text.drop start := by
  rw [slice, List.drop_take, ← Nat.add_sub_cancel' le, Nat.add_sub_cancel_left, ← List.drop_drop]
  exact List.take_append_drop _ _

/-! ## Splitting and replacing -/

/-- `text.split(separator)`, for a separator that is not empty. -/
def split (separator text : List α) : List (List α) :=
  if separator = [] then [text]
  else match _found : indexOf text separator 0 with
    | none => [text]
    | some i => text.take i :: split separator (text.drop (i + separator.length))
termination_by text.length
decreasing_by
  obtain ⟨-, inside, -⟩ := indexOf_eq_some _found
  have := inside.length_le
  have := List.length_pos_of_ne_nil ‹separator ≠ []›
  rw [List.length_drop] at *
  omega

/-- `text.replaceAll(search, replacement)`, for a search text that is not empty and a replacement
without `$`. -/
def replaceAll (text search replacement : List α) : List α :=
  Substrings.join replacement (split search text)

theorem first_of_indexOf (found : indexOf text search 0 = some i) :
    Substrings.First text search i := by
  obtain ⟨-, here, before⟩ := indexOf_eq_some found
  exact ⟨here, fun q lt => before q (Nat.zero_le q) lt⟩

theorem cuts_split (nonempty : search ≠ []) (text : List α) :
    Substrings.Cuts search text (split search text) := by
  induction text using split.induct search with
  | case1 text none => exact absurd none nonempty
  | case2 text _ none =>
    rw [split, if_neg nonempty]
    split
    case h_1 => exact .last fun p => indexOf_eq_none nonempty none p (Nat.zero_le p)
    case h_2 found => exact nomatch none.symm.trans found
  | case3 text _ i found ih =>
    rw [split, if_neg nonempty]
    split
    case h_1 none => exact nomatch none.symm.trans found
    case h_2 j found' =>
      cases found'.symm.trans found
      exact .cut (first_of_indexOf found) ih

theorem replaceAll_nil (nonempty : search ≠ []) (replacement : List α) :
    replaceAll [] search replacement = [] := by
  have cuts : Substrings.Cuts search [] [[]] := .last fun p here => by
    rw [Substrings.Occurs, List.drop_nil, List.prefix_nil] at here
    exact nonempty here
  rw [replaceAll, (cuts_split nonempty []).unique cuts, Substrings.join]

theorem replaceAll_search (nonempty : search ≠ []) (text replacement : List α) :
    replaceAll (search ++ text) search replacement =
      replacement ++ replaceAll text search replacement := by
  have cuts := cuts_split nonempty text
  rw [replaceAll, (cuts_split nonempty _).unique cuts.search_append,
    Substrings.join_cons _ cuts.ne_nil, List.nil_append, replaceAll]

theorem replaceAll_cons (nonempty : search ≠ []) {c : α} (other : ¬ search <+: c :: text)
    (replacement : List α) :
    replaceAll (c :: text) search replacement = c :: replaceAll text search replacement := by
  obtain ⟨part, rest, parts, cuts⟩ := (cuts_split nonempty text).cons other
  rw [replaceAll, (cuts_split nonempty _).unique cuts, replaceAll, parts]
  cases rest <;> rfl

end KimiCli
