import Mathlib.Data.List.Basic

/-!
# UTF-8 as the host reads and writes it

`encodeUtf8` gives the bytes `fs.writeFile(text, 'utf8')` writes.  `Utf8Decoder` is the decoder of a
stream with `encoding: 'utf8'`: it is fed byte by byte, keeps an unfinished character from one chunk
to the next, and replaces a maximal ill-formed sequence by U+FFFD.  A byte is a natural number.
-/

namespace KimiCli

abbrev Bytes := List ℕ

/-- The bytes of one character. -/
def encodeChar (c : Char) : Bytes :=
  let n := c.toNat
  if n < 0x80 then [n]
  else if n < 0x800 then [0xC0 + n / 64, 0x80 + n % 64]
  else if n < 0x10000 then [0xE0 + n / 4096, 0x80 + n / 64 % 64, 0x80 + n % 64]
  else [0xF0 + n / 262144, 0x80 + n / 4096 % 64, 0x80 + n / 64 % 64, 0x80 + n % 64]

def encodeChars (cs : List Char) : Bytes := cs.flatMap encodeChar

def encodeUtf8 (s : String) : Bytes := encodeChars s.toList

@[simp] theorem encodeChars_nil : encodeChars [] = [] := rfl

@[simp] theorem encodeChars_cons (c : Char) (cs : List Char) :
    encodeChars (c :: cs) = encodeChar c ++ encodeChars cs := rfl

@[simp] theorem encodeChars_append (cs ds : List Char) :
    encodeChars (cs ++ ds) = encodeChars cs ++ encodeChars ds := List.flatMap_append

@[simp] theorem encodeUtf8_append (s t : String) :
    encodeUtf8 (s ++ t) = encodeUtf8 s ++ encodeUtf8 t := by
  simp [encodeUtf8]

theorem encodeChar_of_ascii {c : Char} (ascii : c.toNat < 0x80) : encodeChar c = [c.toNat] :=
  if_pos ascii

/-! ## The streaming decoder -/

def replacementChar : Char := Char.ofNat 0xFFFD

/-- What the decoder keeps between two bytes: the bits of the character so far, how many bytes it
still needs, and the range the next one must lie in. -/
structure Utf8Decoder where
  codePoint : ℕ := 0
  needed : ℕ := 0
  lower : ℕ := 0x80
  upper : ℕ := 0xBF

namespace Utf8Decoder

/-- The first byte of a character. -/
def first (byte : ℕ) : Utf8Decoder × List Char :=
  if byte < 0x80 then ({}, [Char.ofNat byte])
  else if 0xC2 ≤ byte ∧ byte ≤ 0xDF then ({ codePoint := byte - 0xC0, needed := 1 }, [])
  else if 0xE0 ≤ byte ∧ byte ≤ 0xEF then
    ({ codePoint := byte - 0xE0
       needed := 2
       lower := if byte = 0xE0 then 0xA0 else 0x80
       upper := if byte = 0xED then 0x9F else 0xBF }, [])
  else if 0xF0 ≤ byte ∧ byte ≤ 0xF4 then
    ({ codePoint := byte - 0xF0
       needed := 3
       lower := if byte = 0xF0 then 0x90 else 0x80
       upper := if byte = 0xF4 then 0x8F else 0xBF }, [])
  else ({}, [replacementChar])

/-- One byte: the decoder after it and the characters it completes. -/
def push (d : Utf8Decoder) (byte : ℕ) : Utf8Decoder × List Char :=
  if d.needed = 0 then first byte
  else if byte < d.lower ∨ d.upper < byte then
    -- the byte does not continue the character: it is read again as a first byte
    ((first byte).1, replacementChar :: (first byte).2)
  else if d.needed = 1 then ({}, [Char.ofNat (d.codePoint * 64 + (byte - 0x80))])
  else ({ codePoint := d.codePoint * 64 + (byte - 0x80), needed := d.needed - 1 }, [])

/-- A chunk of bytes. -/
def write (d : Utf8Decoder) : Bytes → Utf8Decoder × List Char
  | [] => (d, [])
  | byte :: bytes =>
    let (d, cs) := d.push byte
    let (d, ds) := d.write bytes
    (d, cs ++ ds)

/-- What an unfinished character at the end of the stream is replaced by. -/
def finish (d : Utf8Decoder) : List Char :=
  if d.needed = 0 then [] else [replacementChar]

@[simp] theorem write_nil (d : Utf8Decoder) : d.write [] = (d, []) := rfl

theorem write_cons (d : Utf8Decoder) (byte : ℕ) (bytes : Bytes) :
    d.write (byte :: bytes) =
      (((d.push byte).1.write bytes).1, (d.push byte).2 ++ ((d.push byte).1.write bytes).2) := rfl

theorem write_append (d : Utf8Decoder) (as bs : Bytes) :
    d.write (as ++ bs) =
      (((d.write as).1.write bs).1, (d.write as).2 ++ ((d.write as).1.write bs).2) := by
  induction as generalizing d with
  | nil => rfl
  | cons a as ih => simp only [List.cons_append, write_cons, ih, List.append_assoc]

variable {byte : ℕ} {d : Utf8Decoder}

theorem push_ascii (d : Utf8Decoder) (ascii : byte < 0x80) (lower : 0x80 ≤ d.lower) :
    d.push byte = ({}, d.finish ++ [Char.ofNat byte]) := by
  unfold push finish first
  by_cases idle : d.needed = 0
  · simp [idle, ascii]
  · simp [idle, ascii, Nat.lt_of_lt_of_le ascii lower]

/-- The decoder stands inside a character. -/
structure Inside (d : Utf8Decoder) : Prop where
  needed : d.needed ≠ 0
  lower : 0x80 ≤ d.lower

theorem push_tail {more : ℕ} (needed : d.needed = more + 2) (lower : d.lower ≤ byte)
    (upper : byte ≤ d.upper) :
    d.push byte = ({ codePoint := d.codePoint * 64 + (byte - 0x80), needed := more + 1 }, []) := by
  unfold push
  rw [if_neg (by omega), if_neg (by omega), if_neg (by omega), needed]
  rfl

theorem push_last (needed : d.needed = 1) (lower : d.lower ≤ byte) (upper : byte ≤ d.upper) :
    d.push byte = ({}, [Char.ofNat (d.codePoint * 64 + (byte - 0x80))]) := by
  unfold push
  rw [if_neg (by omega), if_neg (by omega), if_pos needed]

/-- The decoder reads `bytes` as the character `c`, and stands inside it until the last byte. -/
def Reads (d : Utf8Decoder) (bytes : Bytes) (c : Char) : Prop :=
  d.write bytes = ({}, [c]) ∧
    ∀ as bs : Bytes, bytes = as ++ bs → as ≠ [] → bs ≠ [] →
      Inside (d.write as).1 ∧ (d.write as).2 = []

theorem Reads.last {c : Char} (next : d.push byte = ({}, [c])) :
    Reads d [byte] c := by
  refine ⟨by rw [write_cons, next]; rfl, fun as bs eq some rest => ?_⟩
  rcases as with _ | ⟨a, as⟩
  · exact absurd rfl some
  · simp only [List.cons_append, List.cons.injEq] at eq
    exact absurd (List.append_eq_nil_iff.1 eq.2.symm).2 rest

theorem Reads.cons {e : Utf8Decoder} {bytes : Bytes} {c : Char} (next : d.push byte = (e, []))
    (inside : Inside e) (tail : Reads e bytes c) :
    Reads d (byte :: bytes) c := by
  refine ⟨by rw [write_cons, next, tail.1]; rfl, fun as bs eq some rest => ?_⟩
  rcases as with _ | ⟨a, as⟩
  · exact absurd rfl some
  · simp only [List.cons_append, List.cons.injEq] at eq
    obtain ⟨rfl, eq⟩ := eq
    rw [write_cons, next]
    by_cases none : as = []
    · subst none
      exact ⟨inside, rfl⟩
    · exact tail.2 as bs eq none rest

/-- The decoder reads the bytes of a character as that character. -/
theorem reads_encodeChar (c : Char) : Reads {} (encodeChar c) c := by
  have valid : c.toNat < 0xD800 ∨ 0xDFFF < c.toNat ∧ c.toNat < 0x110000 := c.valid
  unfold encodeChar
  generalize hn : c.toNat = n at valid ⊢
  have value {m : ℕ} (eq : m = n) : Char.ofNat m = c := by
    rw [eq, ← hn, Char.ofNat_toNat]
  dsimp only
  split
  case isTrue one =>
    exact .last (by rw [push_ascii {} one (by decide), value rfl]; rfl)
  case isFalse =>
    split
    case isTrue two =>
      have lead : Utf8Decoder.push {} (0xC0 + n / 64) =
          ({ codePoint := n / 64, needed := 1 }, []) := by
        simp only [push, first, if_true]
        rw [if_neg (by omega), if_pos (by omega), Nat.add_sub_cancel_left]
      refine .cons lead ⟨by simp, by simp⟩ (.last ?_)
      rw [push_last rfl (by simp) (by simp; omega), value (by simp; omega)]
    case isFalse =>
      split
      case isTrue three =>
        have lead : Utf8Decoder.push {} (0xE0 + n / 4096) =
            ({ codePoint := n / 4096
               needed := 2
               lower := if 0xE0 + n / 4096 = 0xE0 then 0xA0 else 0x80
               upper := if 0xE0 + n / 4096 = 0xED then 0x9F else 0xBF }, []) := by
          simp only [push, first, if_true]
          rw [if_neg (by omega), if_neg (by omega), if_pos (by omega), Nat.add_sub_cancel_left]
        refine .cons lead ⟨by simp, by dsimp only; split <;> omega⟩ ?_
        refine .cons (push_tail rfl (by dsimp only; split <;> omega)
          (by dsimp only; split <;> omega)) ⟨by simp, by simp⟩ (.last ?_)
        rw [push_last rfl (by simp) (by simp; omega), value (by simp; omega)]
      case isFalse =>
        have lead : Utf8Decoder.push {} (0xF0 + n / 262144) =
            ({ codePoint := n / 262144
               needed := 3
               lower := if 0xF0 + n / 262144 = 0xF0 then 0x90 else 0x80
               upper := if 0xF0 + n / 262144 = 0xF4 then 0x8F else 0xBF }, []) := by
          simp only [push, first, if_true]
          rw [if_neg (by omega), if_neg (by omega), if_neg (by omega), if_pos (by omega),
            Nat.add_sub_cancel_left]
        refine .cons lead ⟨by simp, by dsimp only; split <;> omega⟩ ?_
        refine .cons (push_tail rfl (by dsimp only; split <;> omega)
          (by dsimp only; split <;> omega)) ⟨by simp, by simp⟩ ?_
        refine .cons (push_tail rfl (by simp) (by simp; omega)) ⟨by simp, by simp⟩ (.last ?_)
        rw [push_last rfl (by simp) (by simp; omega), value (by simp; omega)]

theorem write_encodeChars (cs : List Char) : Utf8Decoder.write {} (encodeChars cs) = ({}, cs) := by
  induction cs with
  | nil => rfl
  | cons c cs ih => rw [encodeChars_cons, write_append, (reads_encodeChar c).1, ih]; rfl

/-- The bytes of a text cut anywhere are read as its first characters; the decoder then stands
between two characters, or inside the next one. -/
theorem write_cut (cs : List Char) {as bs : Bytes} (cut : encodeChars cs = as ++ bs) :
    ∃ whole rest : List Char, cs = whole ++ rest ∧ ∃ d, Utf8Decoder.write {} as = (d, whole) ∧
      (as = encodeChars whole ∧ d = {} ∨ rest ≠ [] ∧ Inside d) := by
  induction cs generalizing as with
  | nil =>
    rw [encodeChars_nil] at cut
    obtain ⟨rfl, rfl⟩ := List.append_eq_nil_iff.1 cut.symm
    exact ⟨[], [], rfl, {}, rfl, .inl ⟨rfl, rfl⟩⟩
  | cons c cs ih =>
    obtain ⟨reads, inside⟩ := reads_encodeChar c
    rw [encodeChars_cons] at cut
    rcases List.append_eq_append_iff.1 cut with ⟨more, rfl, left⟩ | ⟨missing, eq, _⟩
    · obtain ⟨whole, rest, rfl, d, written, stands⟩ := ih left
      refine ⟨c :: whole, rest, rfl, d, by rw [write_append, reads, written]; rfl, ?_⟩
      rcases stands with ⟨rfl, idle⟩ | inside
      · exact .inl ⟨rfl, idle⟩
      · exact .inr inside
    · by_cases none : as = []
      · exact ⟨[], c :: cs, rfl, {}, none ▸ rfl, .inl ⟨none, rfl⟩⟩
      · by_cases all : missing = []
        · rw [all, List.append_nil] at eq
          exact ⟨[c], cs, rfl, {}, eq ▸ reads, .inl ⟨by simp [eq], rfl⟩⟩
        · obtain ⟨stands, unread⟩ := inside as missing eq none all
          exact ⟨[], c :: cs, rfl, _, Prod.ext rfl unread, .inr ⟨by simp, stands⟩⟩

end Utf8Decoder

end KimiCli
