import Mathlib.Tactic.Common

/-!
# Lines that come in chunks

A text of lines, each ended by a line feed, is cut into chunks at any places.  The reader hands
every full line to a handler and keeps what follows the last line feed.  The handler can stop the
reader, which then leaves the rest of the chunk to be read with the next one.
-/

namespace ChunkedLines

/-! ## Stopping at an item -/

section

variable {σ ι κ : Type*} (handle : σ → ι → σ × Bool)

def handleAll (state : σ) (items : List ι) : σ :=
  items.foldl (fun state item => (handle state item).1) state

/-- The state at the first item that stops the reader, and the items after it. -/
def untilStop (state : σ) : List ι → σ × List ι
  | [] => (state, [])
  | item :: items =>
    if (handle state item).2 then ((handle state item).1, items)
    else untilStop (handle state item).1 items

theorem untilStop_suffix (state : σ) (items : List ι) :
    (untilStop handle state items).2 <:+ items := by
  induction items generalizing state with
  | nil => exact List.suffix_rfl
  | cons item items ih =>
    rw [untilStop]
    split
    case isTrue => exact List.suffix_cons item items
    case isFalse => exact (ih _).trans (List.suffix_cons item items)

variable {handle} {handle' : σ → κ → σ × Bool} {print : κ → ι} {items : List κ}

theorem handleAll_map
    (same : ∀ item ∈ items, ∀ state, handle state (print item) = handle' state item)
    (state : σ) : handleAll handle state (items.map print) = handleAll handle' state items := by
  induction items generalizing state with
  | nil => rfl
  | cons item items ih =>
    rw [List.forall_mem_cons] at same
    rw [List.map_cons, handleAll, List.foldl_cons, same.1]
    exact ih same.2 _

theorem untilStop_map
    (same : ∀ item ∈ items, ∀ state, handle state (print item) = handle' state item)
    (state : σ) : untilStop handle state (items.map print) =
      ((untilStop handle' state items).1, (untilStop handle' state items).2.map print) := by
  induction items generalizing state with
  | nil => rfl
  | cons item items ih =>
    rw [List.forall_mem_cons] at same
    rw [List.map_cons, untilStop, untilStop, same.1]
    split
    case isTrue => rfl
    case isFalse => exact ih same.2 _

end

/-! ## Chunks -/

variable {σ : Type*} (handle : σ → List Char → σ × Bool)

def text (lines : List (List Char)) : List Char := lines.flatMap fun line => line ++ ['\n']

/-- Reads `buffer`, where `line` is what was read of its first line already. -/
def drain (state : σ) (line : List Char) : List Char → σ × List Char
  | [] => (state, line)
  | c :: buffer =>
    if c = '\n' then
      if (handle state line).2 then ((handle state line).1, buffer)
      else drain (handle state line).1 [] buffer
    else drain state (line ++ [c]) buffer

/-- The state and what is kept for later, after one more chunk. -/
def feed (reader : σ × List Char) (chunk : List Char) : σ × List Char :=
  drain handle reader.1 [] (reader.2 ++ chunk)

def feedAll (state : σ) (chunks : List (List Char)) : σ × List Char :=
  chunks.foldl (feed handle) (state, [])

variable {handle} {state : σ} {line buffer future : List Char} {lines rest : List (List Char)}
  {chunks : List (List Char)} {reader goal : σ × List (List Char)}

theorem text_cons : text (line :: lines) = line ++ '\n' :: text lines := by
  rw [text, List.flatMap_cons, List.append_assoc, List.singleton_append]
  rfl

theorem first_line (inside : ∀ line ∈ rest, '\n' ∉ line) (part : '\n' ∉ line)
    (same : line ++ '\n' :: buffer = text rest) :
    ∃ later, rest = line :: later ∧ buffer = text later := by
  rcases rest with - | ⟨first, later⟩
  · exact absurd same (by simp [text])
  · rw [text_cons] at same
    have one (l : List Char) (none : '\n' ∉ l) (tail : List Char) :
        (l ++ '\n' :: tail).takeWhile (· ≠ '\n') = l := by
      rw [List.takeWhile_append_of_pos, List.takeWhile_cons_of_neg (by simp), List.append_nil]
      intro c mem
      exact decide_eq_true fun eq => none (eq ▸ mem)
    have heads := congrArg (List.takeWhile (· ≠ '\n')) same
    rw [one _ part, one _ (inside first (List.mem_cons_self ..))] at heads
    cases heads
    exact ⟨later, rfl, (List.cons.inj (List.append_cancel_left same)).2⟩

variable (handle) in
/-- The reader is where it would be without chunks, or further on, past lines that it was to
leave. -/
def Follows (goal : σ × List (List Char)) (reader : σ × List Char) (future : List Char) : Prop :=
  ∃ rest, (∀ line ∈ rest, '\n' ∉ line) ∧ reader.2 ++ future = text rest ∧
    (untilStop handle reader.1 rest = goal ∧ '\n' ∉ reader.2 ∨
      ∃ more, goal.2 = more ++ rest ∧ reader.1 = handleAll handle goal.1 more)

theorem drain_follows (inside : ∀ line ∈ rest, '\n' ∉ line) (part : '\n' ∉ line)
    (same : line ++ (buffer ++ future) = text rest)
    (before : untilStop handle state rest = goal ∨
      ∃ more, goal.2 = more ++ rest ∧ state = handleAll handle goal.1 more) :
    Follows handle goal (drain handle state line buffer) future := by
  induction buffer generalizing state line rest with
  | nil => exact ⟨rest, inside, same, before.imp_left fun same => ⟨same, part⟩⟩
  | cons c buffer ih =>
    rw [drain]
    by_cases feed : c = '\n'
    · subst feed
      rw [if_pos rfl]
      obtain ⟨later, rfl, tail⟩ := first_line inside part same
      rw [List.forall_mem_cons] at inside
      have passed : ∀ more, goal.2 = more ++ line :: later → state = handleAll handle goal.1 more →
          ∃ more, goal.2 = more ++ later ∧
            (handle state line).1 = handleAll handle goal.1 more := by
        rintro more left rfl
        refine ⟨more ++ [line], by rw [left]; simp, ?_⟩
        simp only [handleAll, List.foldl_append, List.foldl_cons, List.foldl_nil]
      split
      case isTrue stop =>
        refine ⟨later, inside.2, tail, .inr ?_⟩
        rcases before with before | ⟨more, left, at'⟩
        · rw [untilStop, if_pos stop] at before
          exact ⟨[], by rw [← before]; rfl, by rw [← before]; rfl⟩
        · exact passed more left at'
      case isFalse go =>
        refine ih inside.2 List.not_mem_nil tail ?_
        rcases before with before | ⟨more, left, at'⟩
        · rw [untilStop, if_neg go] at before
          exact .inl before
        · exact .inr (passed more left at')
    · rw [if_neg feed]
      refine ih inside ?_ (by rw [← same]; simp) before
      rw [List.mem_append, List.mem_singleton]
      rintro (mem | rfl)
      · exact part mem
      · exact feed rfl

/-- However the text is cut, all lines up to the first stop are read, and then perhaps more. -/
theorem feedAll_spec (inside : ∀ line ∈ lines, '\n' ∉ line)
    (whole : chunks.flatten = text lines) :
    ∃ more rest, (untilStop handle state lines).2 = more ++ rest ∧
      (feedAll handle state chunks).1 =
        handleAll handle (untilStop handle state lines).1 more := by
  have runs (chunks : List (List Char)) (reader : σ × List Char)
      (follows : Follows handle (untilStop handle state lines) reader chunks.flatten) :
      Follows handle (untilStop handle state lines) (chunks.foldl (feed handle) reader) [] := by
    induction chunks generalizing reader with
    | nil => exact follows
    | cons chunk chunks ih =>
      obtain ⟨rest, inside, same, before⟩ := follows
      refine ih _ (drain_follows inside List.not_mem_nil ?_ (before.imp_left And.left))
      rw [List.nil_append, ← same, List.flatten_cons, List.append_assoc]
  obtain ⟨rest, -, left, last⟩ := runs chunks (state, [])
    ⟨lines, inside, whole, .inl ⟨rfl, List.not_mem_nil⟩⟩
  rw [List.append_nil] at left
  rcases last with ⟨same, full⟩ | ⟨more, same, at'⟩
  · rcases rest with - | ⟨line, rest⟩
    · exact ⟨[], [], by rw [← same]; rfl, by rw [← same]; rfl⟩
    · rw [left, text_cons] at full
      exact absurd (List.mem_append_right _ (List.mem_cons_self ..)) full
  · exact ⟨more, rest, same, at'⟩

theorem drain_line (part : '\n' ∉ line) (before : List Char) :
    drain handle state before (line ++ '\n' :: buffer) =
      if (handle state (before ++ line)).2 then ((handle state (before ++ line)).1, buffer)
      else drain handle (handle state (before ++ line)).1 [] buffer := by
  induction line generalizing before with
  | nil => rw [List.nil_append, List.append_nil, drain, if_pos rfl]
  | cons c line ih =>
    rw [List.mem_cons, not_or] at part
    rw [List.cons_append, drain, if_neg (Ne.symm part.1), ih part.2, List.append_assoc,
      List.singleton_append]

theorem feedAll_single (inside : ∀ line ∈ lines, '\n' ∉ line) :
    (feedAll handle state [text lines]).1 = (untilStop handle state lines).1 := by
  have whole : (drain handle state [] (text lines)).1 = (untilStop handle state lines).1 := by
    induction lines generalizing state with
    | nil => rfl
    | cons line lines ih =>
      rw [List.forall_mem_cons] at inside
      rw [text_cons, drain_line inside.1, untilStop, List.nil_append]
      split
      case isTrue => rfl
      case isFalse => exact ih inside.2
  exact whole

end ChunkedLines
