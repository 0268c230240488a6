import KimiCli.Js.Units
import KimiCli.Lib.TagSplit

/-!
# Inline think tags

Some providers send their reasoning between `<think>` and `</think>` in the text.  The splitter
reads the chunks of a stream and gives out reasoning and text; the end of a chunk that may begin a
tag is held back until the next one.
-/

namespace KimiCli

def openTag : List UInt16 := units "<think>"

def closeTag : List UInt16 := units "</think>"

def tagOf (isOpen : Bool) : List UInt16 := if isOpen then openTag else closeTag

structure ThinkTagSegment where
  think : Option (List UInt16)
  text : Option (List UInt16)

structure ThinkTagSplitter where
  buffer : List UInt16 := []
  inThink : Bool := false

/-- The loop of `partialTagSuffixLength`, from a length on. -/
def partialFrom (buffer tag : List UInt16) : ℕ → ℕ
  | 0 => 0
  | len + 1 =>
    if sliceFrom buffer (buffer.length - (len + 1 : ℕ)) <+: tag then len + 1
    else partialFrom buffer tag len

def partialTagSuffixLength (buffer tag : List UInt16) : ℕ :=
  partialFrom buffer tag (tag.length - 1)

/-- The tag that comes first in text mode, and whether it is the open tag. -/
def firstTag : Option ℕ → Option ℕ → Option (ℕ × Bool)
  | none, none => none
  | some openIdx, none => some (openIdx, true)
  | none, some closeIdx => some (closeIdx, false)
  | some openIdx, some closeIdx =>
    if openIdx ≤ closeIdx then some (openIdx, true) else some (closeIdx, false)

theorem le_of_firstTag {buffer : List UInt16} {cursor idx : ℕ} {isOpen : Bool}
    (found : firstTag (indexOf buffer openTag cursor) (indexOf buffer closeTag cursor) =
      some (idx, isOpen)) : cursor ≤ idx := by
  unfold firstTag at found
  split at found
  · cases found
  case h_2 openIdx isOpenIdx _ =>
    cases found
    exact (indexOf_eq_some isOpenIdx).1
  case h_3 closeIdx _ isCloseIdx =>
    cases found
    exact (indexOf_eq_some isCloseIdx).1
  case h_4 openIdx closeIdx isOpenIdx isCloseIdx =>
    split at found
    · cases found
      exact (indexOf_eq_some isOpenIdx).1
    · cases found
      exact (indexOf_eq_some isCloseIdx).1

/-- The loop of `drain`: the segments, and the cursor and the mode behind it. -/
def scan (buffer : List UInt16) (final : Bool) (cursor : ℕ) (inThink : Bool) :
    List ThinkTagSegment × ℤ × Bool :=
  if cursor < buffer.length then
    if inThink then
      match _found : indexOf buffer closeTag cursor with
      | none =>
        let retain := if final then 0 else partialTagSuffixLength buffer closeTag
        let emitEnd : ℤ := buffer.length - retain
        if cursor < emitEnd then
          ([{ think := some (slice buffer cursor emitEnd.toNat), text := none }], emitEnd, true)
        else ([], cursor, true)
      | some closeIdx =>
        let (segments, rest) := scan buffer final (closeIdx + closeTag.length) false
        if cursor < closeIdx then
          ({ think := some (slice buffer cursor closeIdx), text := none } :: segments, rest)
        else (segments, rest)
    else
      match _found : firstTag (indexOf buffer openTag cursor) (indexOf buffer closeTag cursor) with
      | none =>
        let retainOpen := if final then 0 else partialTagSuffixLength buffer openTag
        let retainClose := if final then 0 else partialTagSuffixLength buffer closeTag
        let emitEnd : ℤ := buffer.length - (max retainOpen retainClose : ℕ)
        if cursor < emitEnd then
          ([{ think := none, text := some (slice buffer cursor emitEnd.toNat) }], emitEnd, false)
        else ([], emitEnd, false)
      | some (idx, isOpen) =>
        let (segments, rest) := scan buffer final (idx + (tagOf isOpen).length) isOpen
        if cursor < idx then
          ({ think := none, text := some (slice buffer cursor idx) } :: segments, rest)
        else (segments, rest)
  else ([], cursor, inThink)
termination_by buffer.length - cursor
decreasing_by
  · have le := (indexOf_eq_some _found).1
    have : 0 < closeTag.length := by decide
    omega
  · have le := le_of_firstTag _found
    have : 0 < (tagOf isOpen).length := by cases isOpen <;> decide
    omega

namespace ThinkTagSplitter

variable (s : ThinkTagSplitter)

def drain (final : Bool) : ThinkTagSplitter × List ThinkTagSegment :=
  let (segments, cursor, inThink) := scan s.buffer final 0 s.inThink
  ({ buffer := if cursor < s.buffer.length then sliceFrom s.buffer cursor else [], inThink },
    segments)

def push (chunk : List UInt16) : ThinkTagSplitter × List ThinkTagSegment :=
  if chunk = [] then (s, []) else drain { s with buffer := s.buffer ++ chunk } false

def flush : ThinkTagSplitter × List ThinkTagSegment :=
  if s.buffer = [] ∧ s.inThink = false then (s, []) else ({}, (s.drain true).2)

/-- The chunks of a stream, and the end of it. -/
def stream : ThinkTagSplitter → List (List UInt16) → List ThinkTagSegment
  | s, [] => s.flush.2
  | s, chunk :: chunks => (s.push chunk).2 ++ stream (s.push chunk).1 chunks

/-- The splitter when the chunks have been pushed. -/
def after : ThinkTagSplitter → List (List UInt16) → ThinkTagSplitter
  | s, [] => s
  | s, chunk :: chunks => after (s.push chunk).1 chunks

end ThinkTagSplitter

def splitThinkTags (content : List UInt16) : List ThinkTagSegment :=
  ThinkTagSplitter.stream {} [content]

/-! ## The tags -/

/-- In text mode `</think>` is left out too. -/
def thinkTags : TagTable Bool UInt16 where
  tags
    | false => [(openTag, true), (closeTag, false)]
    | true => [(closeTag, false)]
  nonempty m tag mem := by
    cases m <;> simp only [List.mem_cons, List.not_mem_nil, or_false] at mem
    · rcases mem with rfl | rfl <;> exact nofun
    · rw [mem]
      exact nofun

variable {m m' : Bool}

theorem mem_thinkTags {tag : List UInt16} (mem : (tag, m') ∈ thinkTags.tags m) :
    tag = tagOf m' := by
  cases m <;> simp only [thinkTags, List.mem_cons, List.not_mem_nil, or_false] at mem
  · rcases mem with mem | mem <;> cases mem <;> rfl
  · cases mem
    rfl

theorem tagOf_length (isOpen : Bool) : 7 ≤ (tagOf isOpen).length ∧ (tagOf isOpen).length ≤ 8 := by
  cases isOpen <;> decide

theorem tagOf_head (isOpen : Bool) : (tagOf isOpen)[0]? = some 60 ∧
    ∀ i < (tagOf isOpen).length, (tagOf isOpen)[i]? = some 60 → i = 0 := by
  cases isOpen <;> decide

theorem tagOf_last (isOpen : Bool) : (tagOf isOpen)[(tagOf isOpen).length - 1]? = some 62 ∧
    ∀ i < (tagOf isOpen).length, (tagOf isOpen)[i]? = some 62 → i + 1 = (tagOf isOpen).length := by
  cases isOpen <;> decide

theorem tagOf_inj (before : tagOf m <+: tagOf m') : m = m' := by
  revert before
  cases m <;> cases m' <;> decide

theorem mem_tags_iff :
    (tagOf m', m') ∈ thinkTags.tags m ↔ m' = true → m = false := by
  cases m <;> cases m' <;> decide

theorem find_tag {text : List UInt16} (reads : m' = true → m = false) (here : tagOf m' <+: text) :
    thinkTags.find m text = some (tagOf m', m') := by
  cases found : thinkTags.find m text with
  | none => exact absurd here (TagTable.find_eq_none.1 found _ (mem_tags_iff.2 reads))
  | some other =>
    obtain ⟨tag, m''⟩ := other
    obtain ⟨mem, before⟩ := TagTable.find_eq_some found
    obtain rfl := mem_thinkTags mem
    rcases List.prefix_or_prefix_of_prefix before here with part | part
    · rw [tagOf_inj part]
    · rw [tagOf_inj part]

/-! ## The held end -/

section Held

variable {buffer tag more : List UInt16} {cursor idx k : ℕ} {m m' : Bool}

theorem partialFrom_le (buffer tag : List UInt16) (len : ℕ) : partialFrom buffer tag len ≤ len := by
  induction len with
  | zero => exact Nat.le_refl 0
  | succ len ih =>
    rw [partialFrom]
    split
    · exact Nat.le_refl _
    · exact Nat.le_succ_of_le ih

theorem prefix_partialFrom {len : ℕ} (pos : 0 < partialFrom buffer tag len) :
    sliceFrom buffer (buffer.length - partialFrom buffer tag len) <+: tag := by
  induction len with
  | zero => exact absurd pos (Nat.lt_irrefl 0)
  | succ len ih =>
    rw [partialFrom] at pos ⊢
    split
    case isTrue here => exact here
    case isFalse other =>
      rw [if_neg other] at pos
      exact ih pos

theorem le_partialFrom {len : ℕ} (pos : 0 < k) (le : k ≤ len)
    (here : sliceFrom buffer (buffer.length - k) <+: tag) : k ≤ partialFrom buffer tag len := by
  induction len with
  | zero => omega
  | succ len ih =>
    rw [partialFrom]
    split
    · exact le
    case isFalse other =>
      rcases Nat.lt_or_eq_of_le le with lt | rfl
      · exact ih (Nat.le_of_lt_succ lt)
      · exact absurd here other

theorem partialTagSuffixLength_lt (buffer : List UInt16) (m : Bool) :
    partialTagSuffixLength buffer (tagOf m) < (tagOf m).length := by
  have := partialFrom_le buffer (tagOf m) ((tagOf m).length - 1)
  have := (tagOf_length m).1
  rw [partialTagSuffixLength]
  omega

theorem prefix_partialTagSuffixLength (pos : 0 < partialTagSuffixLength buffer (tagOf m)) :
    sliceFrom buffer (buffer.length - partialTagSuffixLength buffer (tagOf m)) <+: tagOf m :=
  prefix_partialFrom pos

theorem le_partialTagSuffixLength (pos : 0 < k) (le : k ≤ buffer.length)
    (lt : k < (tagOf m).length) (here : buffer.drop (buffer.length - k) <+: tagOf m) :
    k ≤ partialTagSuffixLength buffer (tagOf m) := by
  refine le_partialFrom pos (by omega) ?_
  rw [← Int.ofNat_sub le, sliceFrom_natCast]
  exact here

/-! ## Reading up to a tag -/

/-- What is read up to a tag that is whole in the buffer. -/
theorem read_tag (m' : Bool) (more : List UInt16) (reads : m' = true → m = false)
    (le : cursor ≤ idx)
    (here : tagOf m' <+: buffer.drop idx)
    (before : ∀ tag ∈ thinkTags.tags m, ∀ p, cursor ≤ p → p < idx → ¬ tag.1 <+: buffer.drop p) :
    thinkTags.split m (buffer.drop cursor ++ more) =
      (slice buffer cursor idx).map (m, ·) ++
        thinkTags.split m' (buffer.drop (idx + (tagOf m').length) ++ more) := by
  have fits := here.length_le
  rw [List.length_drop] at fits
  have whole : tagOf m' <+: buffer.drop idx ++ more := here.trans (List.prefix_append _ _)
  have short := (tagOf_length m').1
  have inside : (slice buffer cursor idx).length = idx - cursor := by
    rw [slice, List.length_drop, List.length_take]
    omega
  rw [← slice_append_drop le, List.append_assoc, TagTable.split_append fun p lt => ?_,
    TagTable.split_of_find (find_tag reads whole), List.drop_append_of_le_length (by
      rw [List.length_drop]
      omega), List.drop_drop]
  rw [inside] at lt
  -- the tag that begins at `p` would be whole in the buffer
  have rest : (slice buffer cursor idx).drop p ++ (buffer.drop idx ++ more) =
      buffer.drop (cursor + p) ++ more := by
    rw [← List.append_assoc, ← List.drop_append_of_le_length (by omega), slice_append_drop le,
      List.drop_drop]
  rw [rest]
  refine TagTable.find_eq_none.2 fun tag mem begins => ?_
  have long := (tagOf_length tag.2).2
  rw [← mem_thinkTags mem] at long
  refine before tag mem (cursor + p) (Nat.le_add_right _ _) (by omega)
    (List.prefix_of_prefix_length_le begins (List.prefix_append _ _) ?_)
  rw [List.length_drop]
  omega

/-- What is read when no tag is whole in the buffer, up to an end behind which none begins. -/
theorem read_plain (more : List UInt16) {stop : ℕ} (le : cursor ≤ stop)
    (none : ∀ tag ∈ thinkTags.tags m, ∀ p, cursor ≤ p → ¬ tag.1 <+: buffer.drop p)
    (held : ∀ tag ∈ thinkTags.tags m, ∀ p, cursor ≤ p → p < stop → p < buffer.length →
      ¬ buffer.drop p <+: tag.1) :
    thinkTags.split m (buffer.drop cursor ++ more) =
      (slice buffer cursor stop).map (m, ·) ++ thinkTags.split m (buffer.drop stop ++ more) := by
  rw [← slice_append_drop le, List.append_assoc, TagTable.split_append fun p lt => ?_]
  have inside : (slice buffer cursor stop).length = min stop buffer.length - cursor := by
    rw [slice, List.length_drop, List.length_take]
  have rest : (slice buffer cursor stop).drop p ++ (buffer.drop stop ++ more) =
      buffer.drop (cursor + p) ++ more := by
    rw [← List.append_assoc, ← List.drop_append_of_le_length (by omega), slice_append_drop le,
      List.drop_drop]
  rw [rest]
  exact TagTable.find_append fun tag mem =>
    ⟨none tag mem _ (Nat.le_add_right _ _),
      held tag mem _ (Nat.le_add_right _ _) (by omega) (by omega)⟩

/-! ## The end of a chunk -/

/-- The buffer behind the loop of `drain`. -/
def kept (buffer : List UInt16) (stop : ℤ) : List UInt16 :=
  if stop < buffer.length then sliceFrom buffer stop else []

theorem kept_natCast (buffer : List UInt16) (stop : ℕ) : kept buffer stop = buffer.drop stop := by
  rw [kept, sliceFrom_natCast]
  split
  case isTrue => rfl
  case isFalse le => exact (List.drop_eq_nil_of_le (by omega)).symm

/-- A buffer whose end begins a tag, but which is so short that more is held than there is. -/
def Short (buffer : List UInt16) : Prop :=
  ∃ (m : Bool) (k : ℕ), 0 < k ∧ k < buffer.length ∧ buffer.length + k < (tagOf m).length ∧
    buffer.drop (buffer.length - k) <+: tagOf m

variable {p : ℕ}

theorem getElem?_of_prefix {i : ℕ} {c : UInt16} (here : buffer.drop p <+: tag) (le : p ≤ i)
    (isChar : buffer[i]? = some c) : tag[i - p]? = some c := by
  have inside : (buffer.drop p)[i - p]? = some c := by
    rw [List.getElem?_drop, Nat.add_sub_cancel' le, isChar]
  obtain ⟨rest, rfl⟩ := here
  rw [List.getElem?_append_left (List.getElem?_eq_some_iff.1 inside).1, inside]

theorem head_of_tagOf (lt : p < buffer.length) (here : buffer.drop p <+: tagOf m) :
    buffer[p]? = some 60 := by
  have first : (buffer.drop p)[0]? = some buffer[p] := by
    rw [List.getElem?_drop, Nat.add_zero, List.getElem?_eq_getElem lt]
  have same := getElem?_of_prefix here (Nat.le_refl p) (List.getElem?_eq_getElem lt)
  rw [Nat.sub_self, (tagOf_head m).1] at same
  rw [List.getElem?_eq_getElem lt, same]

/-- A tag begins at one place only. -/
theorem not_prefix_of_prefix {q : ℕ} {m' : Bool} (lt : p < q) (inside : q < buffer.length)
    (here : buffer.drop q <+: tagOf m) : ¬ buffer.drop p <+: tagOf m' := by
  intro before
  have again := getElem?_of_prefix before lt.le (head_of_tagOf inside here)
  have := (tagOf_head m').2 _ (List.getElem?_eq_some_iff.1 again).1 again
  omega

theorem not_begins (outside : ¬ tagOf m <+: buffer.drop p)
    (lt : p + partialTagSuffixLength buffer (tagOf m) < buffer.length) :
    ¬ buffer.drop p <+: tagOf m := by
  intro here
  have le := here.length_le
  rw [List.length_drop] at le
  have ne : buffer.length - p ≠ (tagOf m).length := by
    intro same
    have whole := here.eq_of_length (by rw [List.length_drop, same])
    exact outside (whole ▸ List.prefix_refl _)
  have back : buffer.length - (buffer.length - p) = p := by omega
  have := le_partialTagSuffixLength (m := m) (k := buffer.length - p) (by omega) (Nat.sub_le _ _)
    (by omega) (by rwa [back])
  omega

/-- The cursor is at the start or behind a tag. -/
def Behind (buffer : List UInt16) (cursor : ℕ) : Prop :=
  cursor = 0 ∨ 7 ≤ cursor ∧ buffer[cursor - 1]? = some 62

theorem exists_retain (buffer : List UInt16) : ∃ m,
    max (partialTagSuffixLength buffer openTag) (partialTagSuffixLength buffer closeTag) =
      partialTagSuffixLength buffer (tagOf m) := by
  rcases Nat.le_total (partialTagSuffixLength buffer openTag)
    (partialTagSuffixLength buffer closeTag) with le | le
  · exact ⟨false, Nat.max_eq_right le⟩
  · exact ⟨true, Nat.max_eq_left le⟩

theorem le_retain (buffer : List UInt16) (m : Bool) :
    partialTagSuffixLength buffer (tagOf m) ≤
      max (partialTagSuffixLength buffer openTag) (partialTagSuffixLength buffer closeTag) := by
  cases m
  · exact Nat.le_max_right _ _
  · exact Nat.le_max_left _ _

theorem lt_retain (short : Short buffer) : buffer.length <
    max (partialTagSuffixLength buffer openTag) (partialTagSuffixLength buffer closeTag) := by
  obtain ⟨m, k, pos, lt, fits, here⟩ := short
  have slice : sliceFrom buffer (buffer.length - (buffer.length + k : ℕ)) =
      buffer.drop (buffer.length - k) := by
    rw [sliceFrom, if_pos (by omega)]
    congr 1
    omega
  have := le_partialFrom (k := buffer.length + k) (by omega)
    (show _ ≤ (tagOf m).length - 1 by omega) (slice.symm ▸ here)
  have := le_retain buffer m
  rw [partialTagSuffixLength] at this
  omega

/-- What is read at the end of a chunk in text mode, with what is lost. -/
theorem read_end (inside : cursor < buffer.length) (behind : Behind buffer cursor)
    (none : ∀ m p, cursor ≤ p → ¬ tagOf m <+: buffer.drop p) {stop : ℤ}
    (isStop : stop = buffer.length - (max (partialTagSuffixLength buffer openTag)
      (partialTagSuffixLength buffer closeTag) : ℕ)) :
    ∃ lost, (∀ more, thinkTags.split false (buffer.drop cursor ++ more) =
        (if cursor < stop then slice buffer cursor stop.toNat else []).map (false, ·) ++
          lost.map (false, ·) ++ thinkTags.split false (kept buffer stop ++ more)) ∧
      (lost ≠ [] ↔ cursor = 0 ∧ Short buffer) := by
  have plain : ∀ tag ∈ thinkTags.tags false, ∀ p, cursor ≤ p → ¬ tag.1 <+: buffer.drop p :=
    fun tag mem p le => mem_thinkTags mem ▸ none tag.2 p le
  obtain ⟨m, isRetain⟩ := exists_retain buffer
  have short := (tagOf_length m).2
  have lt := partialTagSuffixLength_lt buffer m
  generalize retain : max (partialTagSuffixLength buffer openTag)
    (partialTagSuffixLength buffer closeTag) = r at isStop isRetain
  rw [← isRetain] at lt
  by_cases fits : r ≤ buffer.length
  · obtain rfl : stop = (buffer.length - r : ℕ) := by omega
    have notShort : ¬ (cursor = 0 ∧ Short buffer) := by
      rintro ⟨-, isShort⟩
      have := lt_retain isShort
      omega
    -- what is held does not reach behind the cursor, where a tag has ended
    have le : cursor ≤ buffer.length - r := by
      by_contra gt
      rcases behind with rfl | ⟨far, closed⟩
      · exact gt (Nat.zero_le _)
      · have pos : 0 < partialTagSuffixLength buffer (tagOf m) := by omega
        have here := prefix_partialTagSuffixLength pos
        rw [← isRetain, ← Int.ofNat_sub fits, sliceFrom_natCast] at here
        have last := getElem?_of_prefix here (by omega) closed
        have := (tagOf_last m).2 _ (List.getElem?_eq_some_iff.1 last).1 last
        omega
    refine ⟨[], fun more => ?_, iff_of_false (fun no => no rfl) notShort⟩
    have given : (if (cursor : ℤ) < (buffer.length - r : ℕ) then
        slice buffer cursor ((buffer.length - r : ℕ) : ℤ).toNat else []) =
          slice buffer cursor (buffer.length - r) := by
      rw [Int.toNat_natCast]
      split
      case isTrue => rfl
      case isFalse ge =>
        refine (List.drop_eq_nil_of_le ?_).symm
        rw [List.length_take]
        omega
    rw [given, kept_natCast, List.map_nil, List.append_nil]
    refine read_plain _ le plain fun tag mem p le' lt' _ => ?_
    have most := le_retain buffer tag.2
    rw [retain] at most
    rw [mem_thinkTags mem]
    exact not_begins (none _ p le') (by omega)
  · obtain rfl : cursor = 0 := by
      rcases behind with rfl | ⟨far, -⟩
      · rfl
      · omega
    have noStop : ¬ (0 : ℤ) < stop := by omega
    have pos : 0 < partialTagSuffixLength buffer (tagOf m) := by omega
    have here := prefix_partialTagSuffixLength pos
    have rest : sliceFrom buffer stop = buffer.drop (2 * buffer.length - r) := by
      rw [sliceFrom, if_pos (by omega)]
      congr 1
      omega
    rw [← isRetain, ← isStop, rest] at here
    have isKept : kept buffer stop = buffer.drop (2 * buffer.length - r) := by
      rw [kept, if_pos (by omega), rest]
    refine ⟨buffer.take (2 * buffer.length - r), fun more => ?_, ?_⟩
    · have lost : buffer.take (2 * buffer.length - r) =
          slice buffer 0 (2 * buffer.length - r) := rfl
      rw [if_neg (by exact_mod_cast noStop), List.map_nil, List.nil_append, isKept, lost]
      refine read_plain _ (Nat.zero_le _) plain fun tag mem p _ lt' _ => ?_
      rw [mem_thinkTags mem]
      exact not_prefix_of_prefix lt' (by omega) here
    · rw [Ne, List.take_eq_nil_iff]
      constructor
      · intro some
        refine ⟨rfl, m, r - buffer.length, by omega, by omega, by omega, ?_⟩
        have same : buffer.length - (r - buffer.length) = 2 * buffer.length - r := by omega
        rwa [same]
      · rintro ⟨-, m', k, pos, lt', -, begins⟩ (all | empty)
        · rw [all] at here
          exact not_prefix_of_prefix (p := 0) (by omega) (by omega) begins here
        · rw [empty] at inside
          cases inside

end Held

/-! ## A chunk -/

/-- The sides of a segment that are not `null`. -/
def ThinkTagSegment.pieces (segment : ThinkTagSegment) : List (Bool × List UInt16) :=
  segment.think.toList.map (true, ·) ++ segment.text.toList.map (false, ·)

/-- All that is given out, with the side it is on. -/
def sides (segments : List ThinkTagSegment) : List (Bool × UInt16) :=
  TagTable.items (segments.flatMap (·.pieces))

theorem sides_append (segments segments' : List ThinkTagSegment) :
    sides (segments ++ segments') = sides segments ++ sides segments' := by
  rw [sides, List.flatMap_append, TagTable.items, List.flatMap_append]
  rfl

theorem sides_think (text : List UInt16) (segments : List ThinkTagSegment) :
    sides ({ think := some text, text := none } :: segments) =
      text.map (true, ·) ++ sides segments := rfl

theorem sides_text (text : List UInt16) (segments : List ThinkTagSegment) :
    sides ({ think := none, text := some text } :: segments) =
      text.map (false, ·) ++ sides segments := rfl

section Scan

variable {buffer : List UInt16} {cursor idx : ℕ} {m m' : Bool}

theorem slice_of_not_lt (le : ¬ cursor < idx) : slice buffer cursor idx = [] := by
  refine List.drop_eq_nil_of_le ?_
  rw [List.length_take]
  omega

theorem behind_tag (here : tagOf m <+: buffer.drop idx) :
    Behind buffer (idx + (tagOf m).length) := by
  have long := (tagOf_length m).1
  refine .inr ⟨by omega, ?_⟩
  obtain ⟨rest, whole⟩ := here
  have last := (tagOf_last m).1
  have inside : (buffer.drop idx)[(tagOf m).length - 1]? = some 62 := by
    rw [← whole, List.getElem?_append_left (by omega), last]
  rw [List.getElem?_drop] at inside
  rwa [Nat.add_sub_assoc (by omega)]

theorem not_short (here : tagOf m <+: buffer.drop idx) : ¬ Short buffer := by
  rintro ⟨m', k, pos, -, fits, -⟩
  have le := here.length_le
  rw [List.length_drop] at le
  have := (tagOf_length m).1
  have := (tagOf_length m').2
  omega

theorem firstTag_eq_some
    (found : firstTag (indexOf buffer openTag cursor) (indexOf buffer closeTag cursor) =
      some (idx, m)) :
    cursor ≤ idx ∧ tagOf m <+: buffer.drop idx ∧
      ∀ m', ∀ p, cursor ≤ p → p < idx → ¬ tagOf m' <+: buffer.drop p := by
  have absent (m : Bool) (none : indexOf buffer (tagOf m) cursor = none) (p : ℕ)
      (le : cursor ≤ p) : ¬ tagOf m <+: buffer.drop p :=
    indexOf_eq_none (by cases m <;> exact nofun) none p le
  unfold firstTag at found
  split at found
  · cases found
  case h_2 openIdx isOpen isClose =>
    cases found
    obtain ⟨le, here, before⟩ := indexOf_eq_some isOpen
    refine ⟨le, here, fun m' p le lt => ?_⟩
    cases m'
    · exact absent false isClose p le
    · exact before p le lt
  case h_3 closeIdx isOpen isClose =>
    cases found
    obtain ⟨le, here, before⟩ := indexOf_eq_some isClose
    refine ⟨le, here, fun m' p le lt => ?_⟩
    cases m'
    · exact before p le lt
    · exact absent true isOpen p le
  case h_4 openIdx closeIdx isOpen isClose =>
    obtain ⟨leOpen, hereOpen, beforeOpen⟩ := indexOf_eq_some isOpen
    obtain ⟨leClose, hereClose, beforeClose⟩ := indexOf_eq_some isClose
    split at found
    · cases found
      refine ⟨leOpen, hereOpen, fun m' p le lt => ?_⟩
      cases m'
      · exact beforeClose p le (by omega)
      · exact beforeOpen p le lt
    · cases found
      refine ⟨leClose, hereClose, fun m' p le lt => ?_⟩
      cases m'
      · exact beforeClose p le lt
      · exact beforeOpen p le (by omega)

theorem firstTag_eq_none
    (none : firstTag (indexOf buffer openTag cursor) (indexOf buffer closeTag cursor) = none)
    (m : Bool) (p : ℕ) (le : cursor ≤ p) : ¬ tagOf m <+: buffer.drop p := by
  unfold firstTag at none
  split at none
  case h_1 isOpen isClose =>
    cases m
    · exact indexOf_eq_none (show closeTag ≠ [] from nofun) isClose p le
    · exact indexOf_eq_none (show openTag ≠ [] from nofun) isOpen p le
  case h_2 => cases none
  case h_3 => cases none
  case h_4 => split at none <;> cases none

theorem not_lost {lost : List UInt16} {next : ℕ} (far : next ≠ 0)
    (iff : lost ≠ [] ↔ next = 0 ∧ m = false ∧ Short buffer) : lost = [] := by
  by_contra some
  exact far (iff.1 some).1

/-- What `drain` gives out is what is read, but for what is lost at the end of a short buffer. -/
theorem scan_read (buffer : List UInt16) (cursor : ℕ) (m : Bool) (behind : Behind buffer cursor) :
    ∃ lost, (∀ more, thinkTags.split m (buffer.drop cursor ++ more) =
        sides (scan buffer false cursor m).1 ++ lost.map (false, ·) ++
          thinkTags.split (scan buffer false cursor m).2.2
            (kept buffer (scan buffer false cursor m).2.1 ++ more)) ∧
      (lost ≠ [] ↔ cursor = 0 ∧ m = false ∧ Short buffer) := by
  rw [scan]
  split
  case isFalse outside =>
    refine ⟨[], fun more => ?_, iff_of_false (fun no => no rfl) ?_⟩
    · rw [kept_natCast]
      rfl
    · rintro ⟨rfl, -, -, k, -, lt, -⟩
      omega
  case isTrue inside =>
    split
    case isTrue isThink =>
      subst isThink
      have notText : ¬ (cursor = 0 ∧ true = false ∧ Short buffer) := fun no => nomatch no.2.1
      split
      case h_1 none =>
        have absent (p : ℕ) (le : cursor ≤ p) : ¬ tagOf false <+: buffer.drop p :=
          indexOf_eq_none (List.cons_ne_nil _ _) none p le
        refine ⟨[], fun more => ?_, iff_of_false (fun no => no rfl) notText⟩
        simp only [Bool.false_eq_true, if_false]
        split
        case isTrue lt =>
          have isStop : ((buffer.length : ℤ) - partialTagSuffixLength buffer closeTag) =
              (buffer.length - partialTagSuffixLength buffer closeTag : ℕ) := by omega
          rw [isStop, Int.toNat_natCast, kept_natCast, sides_think]
          rw [isStop, Int.ofNat_lt] at lt
          have read := read_plain (m := true) more lt.le
            (fun tag mem p le => by
              obtain rfl := List.mem_singleton.1 mem
              exact absent p le)
            fun tag mem p le lt' inside => by
              obtain rfl := List.mem_singleton.1 mem
              exact not_begins (m := false) (absent p le) (Nat.add_lt_of_lt_sub lt')
          rw [read, List.map_nil, List.append_nil]
          exact congrArg (· ++ _) (List.append_nil _).symm
        case isFalse =>
          rw [kept_natCast]
          rfl
      case h_2 closeIdx found =>
        obtain ⟨le, here, before⟩ := indexOf_eq_some found
        have pos : 0 < closeTag.length := by decide
        obtain ⟨lost, read, iff⟩ := scan_read buffer (closeIdx + closeTag.length) false
          (behind_tag (m := false) here)
        obtain rfl := not_lost (Nat.ne_of_gt (Nat.add_pos_right _ pos)) iff
        refine ⟨[], fun more => ?_, iff_of_false (fun no => no rfl) notText⟩
        have upTo := read_tag (m := true) false more nofun le here
          fun tag mem p le lt => by
            obtain rfl := List.mem_singleton.1 mem
            exact before p le lt
        rw [upTo]
        refine (congrArg (_ ++ ·) (read more)).trans ?_
        rcases scan buffer false (closeIdx + closeTag.length) false with ⟨segments, stop, mode⟩
        dsimp only
        split
        case isTrue =>
          rw [sides_think]
          simp only [List.append_assoc]
        case isFalse no =>
          rw [slice_of_not_lt no]
          rfl
    case isFalse isText =>
      obtain rfl : m = false := Bool.eq_false_iff.2 isText
      split
      case h_1 none =>
        simp only [Bool.false_eq_true, if_false]
        obtain ⟨lost, read, iff⟩ := read_end inside behind (firstTag_eq_none none) rfl
        refine ⟨lost, fun more => ?_, iff.trans ?_⟩
        · rw [read more]
          split
          case isTrue => rw [sides_text]; exact congrArg (· ++ _ ++ _) (List.append_nil _).symm
          case isFalse => rfl
        · simp
      case h_2 idx isOpen found =>
        obtain ⟨le, here, before⟩ := firstTag_eq_some found
        have pos : 0 < (tagOf isOpen).length := Nat.lt_of_lt_of_le (by decide) (tagOf_length _).1
        obtain ⟨lost, read, iff⟩ := scan_read buffer (idx + (tagOf isOpen).length) isOpen
          (behind_tag here)
        obtain rfl := not_lost (Nat.ne_of_gt (Nat.add_pos_right _ pos)) iff
        refine ⟨[], fun more => ?_, iff_of_false (fun no => no rfl) fun no =>
          not_short here no.2.2⟩
        have upTo := read_tag (m := false) isOpen more (fun _ => rfl) le here
          fun tag mem p le lt => mem_thinkTags mem ▸ before tag.2 p le lt
        rw [upTo]
        refine (congrArg (_ ++ ·) (read more)).trans ?_
        rcases scan buffer false (idx + (tagOf isOpen).length) isOpen with ⟨segments, stop, mode⟩
        dsimp only
        split
        case isTrue =>
          rw [sides_text]
          simp only [List.append_assoc]
        case isFalse no =>
          rw [slice_of_not_lt no]
          rfl
termination_by buffer.length - cursor
decreasing_by
  · omega
  · have : 0 < closeTag.length := by decide
    omega

/-- At the end of the stream all that is left is given out. -/
theorem scan_final (buffer : List UInt16) (cursor : ℕ) (m : Bool) :
    sides (scan buffer true cursor m).1 = thinkTags.split m (buffer.drop cursor) := by
  have rest {m : Bool} (none : ∀ tag ∈ thinkTags.tags m, ∀ p, cursor ≤ p →
      ¬ tag.1 <+: buffer.drop p) :
      thinkTags.split m (buffer.drop cursor) =
        (slice buffer cursor buffer.length).map (m, ·) := by
    have whole : slice buffer cursor buffer.length = buffer.drop cursor := by
      rw [slice, List.take_length]
    have plain : thinkTags.split m (buffer.drop cursor ++ []) =
        (buffer.drop cursor).map (m, ·) ++ thinkTags.split m [] :=
      TagTable.split_append fun p _ => by
        rw [List.append_nil, List.drop_drop]
        exact TagTable.find_eq_none.2 fun tag mem => none tag mem _ (Nat.le_add_right _ _)
    rw [List.append_nil, TagTable.split_nil, List.append_nil] at plain
    rw [whole, plain]
  rw [scan]
  split
  case isFalse outside =>
    rw [List.drop_eq_nil_of_le (by omega)]
    rfl
  case isTrue inside =>
    have lt : (cursor : ℤ) < buffer.length - (0 : ℕ) := by omega
    have isStop : ((buffer.length : ℤ) - (0 : ℕ)).toNat = buffer.length := by omega
    split
    case isTrue isThink =>
      subst isThink
      split
      case h_1 none =>
        simp only [if_true]
        rw [if_pos lt, isStop, rest fun tag mem p le => ?_]
        · exact List.append_nil _
        · obtain rfl := List.mem_singleton.1 mem
          exact indexOf_eq_none (show closeTag ≠ [] by decide) none p le
      case h_2 closeIdx found =>
        obtain ⟨le, here, before⟩ := indexOf_eq_some found
        have read := scan_final buffer (closeIdx + closeTag.length) false
        have upTo := read_tag (m := true) false [] (fun no => by cases no) le here
          fun tag mem p le lt => by
            obtain rfl := List.mem_singleton.1 mem
            exact before p le lt
        rw [List.append_nil, List.append_nil] at upTo
        rw [upTo]
        refine Eq.trans ?_ (congrArg (_ ++ ·) read)
        rcases scan buffer true (closeIdx + closeTag.length) false with ⟨segments, stop, mode⟩
        dsimp only
        split
        case isTrue => exact sides_think _ _
        case isFalse no =>
          rw [slice_of_not_lt no]
          rfl
    case isFalse isText =>
      obtain rfl : m = false := Bool.eq_false_iff.2 isText
      split
      case h_1 none =>
        simp only [if_true, Nat.max_self]
        rw [if_pos lt, isStop, rest fun tag mem p le =>
          mem_thinkTags mem ▸ firstTag_eq_none none tag.2 p le]
        exact List.append_nil _
      case h_2 idx isOpen found =>
        obtain ⟨le, here, before⟩ := firstTag_eq_some found
        have pos : 0 < (tagOf isOpen).length := Nat.lt_of_lt_of_le (by decide) (tagOf_length _).1
        have read := scan_final buffer (idx + (tagOf isOpen).length) isOpen
        have upTo := read_tag (m := false) isOpen [] (fun _ => rfl) le here
          fun tag mem p le lt => mem_thinkTags mem ▸ before tag.2 p le lt
        rw [List.append_nil, List.append_nil] at upTo
        rw [upTo]
        refine Eq.trans ?_ (congrArg (_ ++ ·) read)
        rcases scan buffer true (idx + (tagOf isOpen).length) isOpen with ⟨segments, stop, mode⟩
        dsimp only
        split
        case isTrue => exact sides_text _ _
        case isFalse no =>
          rw [slice_of_not_lt no]
          rfl
termination_by buffer.length - cursor
decreasing_by
  · omega
  · have : 0 < closeTag.length := by decide
    omega

end Scan

/-! ## A stream -/

namespace ThinkTagSplitter

variable {s : ThinkTagSplitter}

/-- The chunk is read in text mode, and makes the buffer short with an end that begins a tag. -/
def Loses (s : ThinkTagSplitter) (chunk : List UInt16) : Prop :=
  chunk ≠ [] ∧ s.inThink = false ∧ Short (s.buffer ++ chunk)

def NeverLoses : ThinkTagSplitter → List (List UInt16) → Prop
  | _, [] => True
  | s, chunk :: chunks => ¬ s.Loses chunk ∧ NeverLoses (s.push chunk).1 chunks

theorem push_read (s : ThinkTagSplitter) (chunk : List UInt16) :
    ∃ lost : List UInt16, (∀ more, thinkTags.split s.inThink (s.buffer ++ (chunk ++ more)) =
        sides (s.push chunk).2 ++ lost.map (false, ·) ++
          thinkTags.split (s.push chunk).1.inThink ((s.push chunk).1.buffer ++ more)) ∧
      (lost ≠ [] ↔ s.Loses chunk) := by
  rw [push]
  split
  case isTrue empty =>
    refine ⟨[], fun more => ?_, iff_of_false (fun no => no rfl) fun loses => loses.1 empty⟩
    rw [empty]
    rfl
  case isFalse some =>
    obtain ⟨lost, read, iff⟩ := scan_read (s.buffer ++ chunk) 0 s.inThink (.inl rfl)
    refine ⟨lost, fun more => ?_, iff.trans ?_⟩
    · rw [← List.append_assoc]
      exact read more
    · exact ⟨fun loses => ⟨some, loses.2⟩, fun loses => ⟨rfl, loses.2⟩⟩

theorem flush_read (s : ThinkTagSplitter) :
    sides s.flush.2 = thinkTags.split s.inThink s.buffer := by
  rw [flush]
  split
  case isTrue idle =>
    rw [idle.1]
    rfl
  case isFalse => exact scan_final s.buffer 0 s.inThink

theorem stream_le : ∀ (chunks : List (List UInt16)) (s : ThinkTagSplitter),
    (sides (s.stream chunks)).length ≤
      (thinkTags.split s.inThink (s.buffer ++ chunks.flatten)).length
  | [], s => by rw [stream, flush_read, List.flatten_nil, List.append_nil]
  | chunk :: chunks, s => by
    obtain ⟨lost, read, -⟩ := s.push_read chunk
    have le := stream_le chunks (s.push chunk).1
    rw [List.flatten_cons, read, stream, sides_append, List.length_append, List.length_append,
      List.length_append]
    omega

theorem stream_read : ∀ (chunks : List (List UInt16)) (s : ThinkTagSplitter),
    sides (s.stream chunks) = thinkTags.split s.inThink (s.buffer ++ chunks.flatten) ↔
      s.NeverLoses chunks
  | [], s => by
    rw [stream, flush_read, List.flatten_nil, List.append_nil]
    exact iff_of_true rfl trivial
  | chunk :: chunks, s => by
    obtain ⟨lost, read, iff⟩ := s.push_read chunk
    rw [List.flatten_cons, read, stream, sides_append, NeverLoses,
      ← stream_read chunks (s.push chunk).1, ← iff, List.append_assoc, List.append_right_inj,
      not_not]
    constructor
    · intro same
      have le := stream_le chunks (s.push chunk).1
      rw [same, List.length_append, List.length_map] at le
      have none : lost = [] := List.eq_nil_of_length_eq_zero (by omega)
      rw [none] at same
      exact ⟨none, same⟩
    · rintro ⟨rfl, same⟩
      exact same

/-! ## Pieces -/

section Pieces

variable {buffer : List UInt16} {cursor stop : ℕ}

theorem slice_ne_nil (lt : cursor < stop) (inside : cursor < buffer.length) :
    slice buffer cursor stop ≠ [] := by
  refine List.ne_nil_of_length_pos ?_
  rw [slice, List.length_drop, List.length_take]
  omega

/-- A segment has a text on one side. -/
def OneSided (segment : ThinkTagSegment) : Prop :=
  ∃ (text : List UInt16), text ≠ [] ∧ (segment = { think := some text, text := none } ∨
    segment = { think := none, text := some text })

theorem scan_oneSided (buffer : List UInt16) (final : Bool) (cursor : ℕ) (m : Bool) :
    ∀ segment ∈ (scan buffer final cursor m).1, OneSided segment := by
  rw [scan]
  split
  case isFalse => exact fun _ => nofun
  case isTrue inside =>
    split
    case isTrue =>
      split
      case h_1 =>
        dsimp only
        generalize (buffer.length : ℤ) - _ = emitEnd
        split
        case isTrue lt =>
          exact List.forall_mem_singleton.2 ⟨_, slice_ne_nil (by omega) inside, .inl rfl⟩
        case isFalse => exact fun _ => nofun
      case h_2 closeIdx found =>
        have le := (indexOf_eq_some found).1
        have rest := scan_oneSided buffer final (closeIdx + closeTag.length) false
        generalize scan buffer final (closeIdx + closeTag.length) false = result at rest ⊢
        obtain ⟨segments, stop, mode⟩ := result
        dsimp only
        split
        case isTrue lt =>
          exact List.forall_mem_cons.2 ⟨⟨_, slice_ne_nil lt inside, .inl rfl⟩, rest⟩
        case isFalse => exact rest
    case isFalse =>
      split
      case h_1 =>
        dsimp only
        generalize (buffer.length : ℤ) - _ = emitEnd
        split
        case isTrue lt =>
          exact List.forall_mem_singleton.2 ⟨_, slice_ne_nil (by omega) inside, .inr rfl⟩
        case isFalse => exact fun _ => nofun
      case h_2 idx isOpen found =>
        have le := le_of_firstTag found
        have pos : 0 < (tagOf isOpen).length := Nat.lt_of_lt_of_le (by decide) (tagOf_length _).1
        have rest := scan_oneSided buffer final (idx + (tagOf isOpen).length) isOpen
        generalize scan buffer final (idx + (tagOf isOpen).length) isOpen = result at rest ⊢
        obtain ⟨segments, stop, mode⟩ := result
        dsimp only
        split
        case isTrue lt =>
          exact List.forall_mem_cons.2 ⟨⟨_, slice_ne_nil lt inside, .inr rfl⟩, rest⟩
        case isFalse => exact rest
termination_by buffer.length - cursor
decreasing_by
  · omega
  · have : 0 < closeTag.length := by decide
    omega

end Pieces

theorem stream_oneSided : ∀ (chunks : List (List UInt16)) (s : ThinkTagSplitter),
    ∀ segment ∈ s.stream chunks, OneSided segment
  | [], s, segment, mem => by
    rw [stream, flush] at mem
    split at mem
    · cases mem
    · exact scan_oneSided _ _ _ _ segment mem
  | chunk :: chunks, s, segment, mem => by
    rcases List.mem_append.1 mem with mem | mem
    · rw [push] at mem
      split at mem
      · cases mem
      · exact scan_oneSided _ _ _ _ segment mem
    · exact stream_oneSided chunks _ segment mem

/-- The segments when neighbours of one side are joined. -/
def merged (segments : List ThinkTagSegment) : List (Bool × List UInt16) :=
  TagTable.joined (segments.flatMap (·.pieces))

theorem merged_stream (s : ThinkTagSplitter) (chunks : List (List UInt16)) :
    merged (s.stream chunks) =
      TagTable.joined ((sides (s.stream chunks)).map fun item => (item.1, [item.2])) := by
  refine TagTable.joined_items _ fun piece mem => ?_
  obtain ⟨segment, inside, mem⟩ := List.mem_flatMap.1 mem
  obtain ⟨text, some, rfl | rfl⟩ := stream_oneSided chunks s segment inside
  all_goals
    obtain rfl := List.mem_singleton.1 mem
    exact some

/-- Exactly if no chunk loses anything, a stream gives out the text without the tags, each code
unit on the side on which it is read, and the joined segments do not depend on the chunks. -/
theorem stream_splits_iff (chunks : List (List UInt16)) :
    (sides (stream {} chunks) = thinkTags.split false chunks.flatten ∧
      merged (stream {} chunks) = TagTable.joined
        ((thinkTags.split false chunks.flatten).map fun item => (item.1, [item.2]))) ↔
      NeverLoses {} chunks := by
  rw [merged_stream, ← stream_read]
  constructor
  · exact And.left
  · intro same
    refine ⟨same, ?_⟩
    rw [same]
    rfl

/-- A short chunk that ends in `<` is not given out, unless it comes in two. -/
theorem shortChunk_lost :
    sides (stream {} [units "x<"]) ≠ thinkTags.split false (units "x<") ∧
      merged (stream {} [units "x", units "<"]) ≠ merged (splitThinkTags (units "x<")) := by
  have lost : ¬ NeverLoses {} [units "x<"] := fun never =>
    never.1 ⟨by decide, rfl, true, 1, by decide, by decide, by decide, by decide⟩
  have differ : sides (stream {} [units "x<"]) ≠ thinkTags.split false (units "x<") :=
    fun same => lost ((stream_read _ _).1 same)
  refine ⟨differ, fun same => differ ?_⟩
  have plain : push {} (units "x") = ({}, [{ think := none, text := some (units "x") }]) := by
    rw [push, if_neg (by decide), drain, scan]
    rfl
  have single (c : UInt16) : ¬ Short [c] := fun ⟨_, _, pos, lt, _⟩ => by
    rw [List.length_singleton] at lt
    omega
  have kept : sides (stream {} [units "x", units "<"]) = thinkTags.split false (units "x<") := by
    refine (stream_read _ _).2 ⟨fun loses => single _ loses.2.2, ?_⟩
    rw [plain]
    exact ⟨fun loses => single _ loses.2.2, trivial⟩
  have := congrArg TagTable.items same
  rw [merged, merged, TagTable.items_joined, TagTable.items_joined] at this
  exact this.symm.trans kept

end ThinkTagSplitter

end KimiCli
