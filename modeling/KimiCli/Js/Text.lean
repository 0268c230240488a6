import Mathlib.Data.List.DropRight
import Mathlib.Algebra.GroupWithZero.Nat

/-!
# String functions of the host

The functions of `String.prototype` that the program relies on, on strings of Unicode scalar values.
-/

namespace KimiCli

/-- White space and line terminators in the sense of ECMAScript, which is what `trim` removes. -/
def isJsSpace (c : Char) : Bool :=
  let n := c.toNat
  (9 ≤ n && n ≤ 13) || n = 0x20 || n = 0xA0 || n = 0x1680 || (0x2000 ≤ n && n ≤ 0x200A) ||
    n = 0x2028 || n = 0x2029 || n = 0x202F || n = 0x205F || n = 0x3000 || n = 0xFEFF

/-- `trimStart()` on the characters of a string. -/
def trimStartChars (cs : List Char) : List Char := cs.dropWhile isJsSpace

/-- `trimEnd()` on the characters of a string. -/
def trimEndChars (cs : List Char) : List Char := cs.rdropWhile isJsSpace

/-- The UTF-16 code units of a text, which `charCodeAt` reads. -/
def utf16Units (text : List Char) : List ℕ :=
  text.flatMap fun c =>
    if c.toNat < 0x10000 then [c.toNat]
    else [0xD800 + (c.toNat - 0x10000) / 0x400, 0xDC00 + (c.toNat - 0x10000) % 0x400]

/-- `length`, in UTF-16 code units. -/
def utf16Length (text : List Char) : ℕ :=
  (text.map fun c => if c.toNat < 0x10000 then 1 else 2).sum

def trimStart (s : String) : String := String.ofList (trimStartChars s.toList)

def trim (s : String) : String := String.ofList (trimEndChars (trimStartChars s.toList))

theorem isAlphanum_range {c : Char} (alnum : c.isAlphanum = true) :
    48 ≤ c.toNat ∧ c.toNat ≤ 122 := by
  delta Char.isAlphanum Char.isAlpha Char.isUpper Char.isLower Char.isDigit at alnum
  simp only [Bool.or_eq_true, Bool.and_eq_true, decide_eq_true_eq, ge_iff_le,
    UInt32.le_iff_toNat_le] at alnum
  have bounds : 'A'.val.toNat = 65 ∧ 'Z'.val.toNat = 90 ∧ 'a'.val.toNat = 97 ∧
      'z'.val.toNat = 122 ∧ '0'.val.toNat = 48 ∧ '9'.val.toNat = 57 := by decide
  change 48 ≤ c.val.toNat ∧ c.val.toNat ≤ 122
  omega

theorem mem_trimStartChars_of_not_space {c : Char} {cs : List Char} (mem : c ∈ cs)
    (visible : isJsSpace c = false) : c ∈ trimStartChars cs := by
  rw [← List.takeWhile_append_dropWhile (p := isJsSpace) (l := cs)] at mem
  rcases List.mem_append.1 mem with mem | mem
  · rw [List.mem_takeWhile_imp mem] at visible
    cases visible
  · exact mem

/-- `trim()` leaves a text alone that neither begins nor ends with white space. -/
theorem trim_eq {value : List Char} (first : ∀ c ∈ value.head?, isJsSpace c = false)
    (last : ∀ c ∈ value.getLast?, isJsSpace c = false) :
    trimEndChars (trimStartChars value) = value := by
  have front : trimStartChars value = value := by
    rcases value with - | ⟨c, value⟩
    · rfl
    · exact List.dropWhile_cons_of_neg (by simp [first c rfl])
  rw [front]
  rcases List.eq_nil_or_concat value with rfl | ⟨value, c, rfl⟩
  · rfl
  · have visible := last c (by simp)
    rw [List.concat_eq_append]
    exact List.rdropWhile_concat_neg _ _ _ (by simp [visible])

/-- `trim()` leaves something exactly when some character is not white space. -/
theorem trim_length_pos_iff (s : String) :
    0 < (trim s).length ↔ ∃ c ∈ s.toList, isJsSpace c = false := by
  rw [trim, String.length_ofList, List.length_pos_iff, Ne, trimEndChars, List.rdropWhile_eq_nil_iff]
  simp only [not_forall, Bool.not_eq_true, exists_prop]
  constructor
  · rintro ⟨c, mem, visible⟩
    exact ⟨c, (List.dropWhile_sublist _).subset mem, visible⟩
  · rintro ⟨c, mem, visible⟩
    exact ⟨c, mem_trimStartChars_of_not_space mem visible, visible⟩

/-- A text that begins with a decimal number and a separator determines the number. -/
theorem toDigits_separator_inj {separator : Char} (notDigit : separator.isDigit = false)
    {n m : ℕ} {rest rest' : List Char}
    (same : Nat.toDigits 10 n ++ separator :: rest = Nat.toDigits 10 m ++ separator :: rest') :
    n = m ∧ rest = rest' := by
  have others (n : ℕ) : ∀ c ∈ Nat.toDigits 10 n, (c != separator) = true := by
    intro c mem
    have digit := Nat.isDigit_of_mem_toDigits (b := 10) (by decide) (by decide) mem
    rw [bne_iff_ne]
    rintro rfl
    rw [notDigit] at digit
    cases digit
  have before (n : ℕ) (rest : List Char) :
      (Nat.toDigits 10 n ++ separator :: rest).takeWhile (· != separator) = Nat.toDigits 10 n := by
    rw [List.takeWhile_append_of_pos (others n)]
    simp
  have digits := congrArg (List.takeWhile (· != separator)) same
  rw [before, before] at digits
  constructor
  · rw [← Nat.ofDigitChars_ten_toDigits (n := n), ← Nat.ofDigitChars_ten_toDigits (n := m), digits]
  · rw [digits] at same
    exact (List.cons.inj (List.append_cancel_left same)).2

end KimiCli
