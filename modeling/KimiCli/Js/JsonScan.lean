import KimiCli.Js.Json
import Mathlib.Tactic.IntervalCases

/-!
# Brackets and quotes of a JSON text

A scan that only follows brackets, quotes and escapes.  A JSON text leaves it where nothing is open
(`isComplete`).  The text of an object does; a strict part of it does not, nor does such a part with
the text of another object after it.
-/

namespace KimiCli

/-- What a text leaves open. -/
inductive Scan
  /-- Outside a string, with so many open brackets. -/
  | value (depth : ℕ)
  | text (depth : ℕ)
  /-- After a backslash in a string. -/
  | escape (depth : ℕ)
  /-- The outermost bracket has been closed. -/
  | closed
  /-- No JSON text begins like this. -/
  | broken

/-- White space between the tokens of a JSON text. -/
def isJsonSpace (c : Char) : Bool := c = ' ' || c = '\t' || c = '\n' || c = '\r'

namespace Scan

def step : Scan → Char → Scan
  | value depth, c =>
    if c = '"' then text depth
    else if c = '\\' then broken
    else if c = '{' ∨ c = '[' then value (depth + 1)
    else if c = '}' ∨ c = ']' then
      match depth with
      | 0 => broken
      | 1 => closed
      | depth + 2 => value (depth + 1)
    else value depth
  | text depth, c => if c = '"' then value depth else if c = '\\' then escape depth else text depth
  | escape depth, _ => text depth
  | closed, c => if isJsonSpace c then closed else broken
  | broken, _ => broken

def run (s : Scan) (cs : List Char) : Scan := cs.foldl step s

/-- Nothing is open: a JSON text ends here. -/
def isComplete : Scan → Bool
  | closed | value 0 => true
  | _ => false

/-- A bracket is open. -/
def isOpen : Scan → Bool
  | value depth | text depth | escape depth => depth ≠ 0
  | _ => false

@[simp] theorem run_nil (s : Scan) : s.run [] = s := rfl

@[simp] theorem run_cons (s : Scan) (c : Char) (cs : List Char) :
    s.run (c :: cs) = (s.step c).run cs := rfl

@[simp] theorem run_append (s : Scan) (cs ds : List Char) : s.run (cs ++ ds) = (s.run cs).run ds :=
  List.foldl_append

theorem run_broken (cs : List Char) : broken.run cs = broken := by
  induction cs with
  | nil => rfl
  | cons c cs ih => exact ih

variable {s : Scan} {cs : List Char} {c : Char}

theorem not_complete_of_open (h : s.isOpen = true) : s.isComplete = false := by
  cases s with
  | value depth => cases depth with
    | zero => cases h
    | succ => rfl
  | text | escape | closed | broken => first | rfl | cases h

/-! ## Texts that open and close their own brackets -/

/-- Inside a bracket the text closes what it opens, and nothing before. -/
def Keeps (cs : List Char) : Prop :=
  ∀ depth, (value (depth + 1)).run cs = value (depth + 1) ∧
    ∀ p q, cs = p ++ q → ((value (depth + 1)).run p).isOpen = true

theorem Keeps.append {ds : List Char} (h : Keeps cs) (h' : Keeps ds) : Keeps (cs ++ ds) := by
  intro depth
  refine ⟨by rw [run_append, (h depth).1, (h' depth).1], fun p q eq => ?_⟩
  rcases List.append_eq_append_iff.1 eq.symm with ⟨more, rfl, _⟩ | ⟨more, rfl, rest⟩
  · exact (h depth).2 p more rfl
  · rw [run_append, (h depth).1]
    exact (h' depth).2 more q rest

theorem Keeps.nil : Keeps [] := fun _ => ⟨rfl, fun p q eq => by
  rw [(List.append_eq_nil_iff.1 eq.symm).1]
  rfl⟩

/-- A character that is no bracket, quote or backslash. -/
def isPlain (c : Char) : Bool :=
  !(c = '"' || c = '\\' || c = '{' || c = '[' || c = '}' || c = ']')

theorem step_plain (h : isPlain c = true) (depth : ℕ) :
    (value depth).step c = value depth ∧ (text depth).step c = text depth := by
  simp only [isPlain, Bool.not_eq_true', Bool.or_eq_false_iff, decide_eq_false_iff_not] at h
  simp [step, h]

theorem Keeps.plain (plain : isPlain c = true) (h : Keeps cs) :
    Keeps (c :: cs) := by
  intro depth
  have stays := (step_plain plain (depth + 1)).1
  refine ⟨by rw [run_cons, stays, (h depth).1], fun p q eq => ?_⟩
  rcases p with _ | ⟨x, p⟩
  · rfl
  · obtain ⟨rfl, rest⟩ := List.cons.inj eq
    rw [run_cons, stays]
    exact (h depth).2 p q rest

theorem Keeps.plains (plain : ∀ c ∈ cs, isPlain c = true) : Keeps cs := by
  induction cs with
  | nil => exact .nil
  | cons c cs ih =>
    exact .plain (plain c (List.mem_cons_self ..)) (ih fun d mem =>
      plain d (List.mem_cons_of_mem _ mem))

theorem Keeps.enclose {opening closing : Char}
    (brackets : opening = '{' ∧ closing = '}' ∨ opening = '[' ∧ closing = ']') (h : Keeps cs) :
    Keeps (opening :: (cs ++ [closing])) := by
  intro depth
  have opens (depth : ℕ) : (value depth).step opening = value (depth + 1) := by
    rcases brackets with ⟨rfl, rfl⟩ | ⟨rfl, rfl⟩ <;> rfl
  have closes : (value (depth + 2)).step closing = value (depth + 1) := by
    rcases brackets with ⟨rfl, rfl⟩ | ⟨rfl, rfl⟩ <;> rfl
  refine ⟨by rw [run_cons, opens, run_append, (h (depth + 1)).1, run_cons, closes, run_nil], ?_⟩
  intro p q eq
  rcases p with _ | ⟨x, p⟩
  · rfl
  · obtain ⟨rfl, rest⟩ := List.cons.inj eq
    rw [run_cons, opens]
    rcases List.append_eq_append_iff.1 rest.symm with ⟨more, rfl, _⟩ | ⟨more, rfl, last⟩
    · exact (h (depth + 1)).2 p more rfl
    · rw [run_append, (h (depth + 1)).1]
      rcases more with _ | ⟨y, more⟩
      · rfl
      · obtain ⟨rfl, tail⟩ := List.cons.inj last
        rw [(List.append_eq_nil_iff.1 tail.symm).1, run_cons, closes]
        rfl

/-! ## Strings -/

theorem hexDigit_plain {n : ℕ} (lt : n < 16) :
    isPlain (Json.hexDigit n) = true ∧ Json.hexDigit n ≠ '\n' := by
  interval_cases n <;> decide

/-- A character of a string is written as an escape sequence or as itself. -/
theorem escapeChar_cases (c : Char) :
    (∃ e tail, Json.escapeChar c = '\\' :: e :: tail ∧ e ≠ '\n' ∧
        ∀ x ∈ tail, isPlain x = true ∧ x ≠ '\n') ∨
      (Json.escapeChar c = [c] ∧ c ≠ '"' ∧ c ≠ '\\' ∧ c ≠ '\n') := by
  unfold Json.escapeChar
  split_ifs with quote backslash newline ret tab back feed control
  iterate 7 exact .inl ⟨_, [], rfl, by decide, by simp⟩
  · have high := hexDigit_plain (n := c.toNat / 16) (by omega)
    have low := hexDigit_plain (n := c.toNat % 16) (by omega)
    refine .inl ⟨_, _, rfl, by decide, ?_⟩
    simp only [List.mem_cons, List.not_mem_nil, or_false]
    rintro x (rfl | rfl | rfl | rfl)
    · decide
    · decide
    · exact high
    · exact low
  · exact .inr ⟨rfl, quote, backslash, newline⟩

theorem run_text_plains (plain : ∀ c ∈ cs, isPlain c = true) (depth : ℕ) :
    (text depth).run cs = text depth := by
  induction cs with
  | nil => rfl
  | cons c cs ih =>
    rw [run_cons, (step_plain (plain c (List.mem_cons_self ..)) depth).2]
    exact ih fun d mem => plain d (List.mem_cons_of_mem _ mem)

theorem run_text_escapeChar (c : Char) (depth : ℕ) :
    (text depth).run (Json.escapeChar c) = text depth ∧
      ∀ p q, Json.escapeChar c = p ++ q →
        (text depth).run p = text depth ∨ (text depth).run p = escape depth := by
  rcases escapeChar_cases c with ⟨e, tail, eq, _, plain⟩ | ⟨eq, quote, backslash, _⟩
  · have stays {p q : List Char} (eq : tail = p ++ q) : (text depth).run p = text depth :=
      run_text_plains (fun x mem => (plain x (eq ▸ List.mem_append_left _ mem)).1) depth
    rw [eq]
    refine ⟨by rw [run_cons, run_cons]; exact stays (List.append_nil tail).symm,
      fun p q eq => ?_⟩
    rcases p with _ | ⟨x, _ | ⟨y, p⟩⟩
    · exact .inl rfl
    · obtain ⟨rfl, _⟩ := List.cons.inj eq
      exact .inr rfl
    · obtain ⟨rfl, rest⟩ := List.cons.inj eq
      obtain ⟨rfl, last⟩ := List.cons.inj rest
      refine .inl ?_
      rw [run_cons, run_cons]
      exact stays last
  · have stays : (text depth).step c = text depth := by simp [step, quote, backslash]
    rw [eq]
    refine ⟨stays, fun p q eq => .inl ?_⟩
    rcases p with _ | ⟨x, p⟩
    · rfl
    · obtain ⟨rfl, rest⟩ := List.cons.inj eq
      rw [(List.append_eq_nil_iff.1 rest.symm).1]
      exact stays

/-- Inside a string the escaped characters leave the string open, wherever they are cut. -/
theorem run_text_escaped (cs : List Char) (depth : ℕ) :
    (text depth).run (cs.flatMap Json.escapeChar) = text depth ∧
      ∀ p q, cs.flatMap Json.escapeChar = p ++ q →
        (text depth).run p = text depth ∨ (text depth).run p = escape depth := by
  induction cs with
  | nil =>
    refine ⟨rfl, fun p q eq => .inl ?_⟩
    rw [(List.append_eq_nil_iff.1 eq.symm).1]
    rfl
  | cons c cs ih =>
    obtain ⟨whole, cut⟩ := run_text_escapeChar c depth
    refine ⟨by rw [List.flatMap_cons, run_append, whole, ih.1], fun p q eq => ?_⟩
    rw [List.flatMap_cons] at eq
    rcases List.append_eq_append_iff.1 eq.symm with ⟨more, eq', _⟩ | ⟨more, rfl, rest⟩
    · exact cut p more eq'
    · rw [run_append, whole]
      exact ih.2 more q rest

theorem Keeps.quote (s : String) : Keeps (Json.quote s) := by
  intro depth
  obtain ⟨whole, cut⟩ := run_text_escaped s.toList (depth + 1)
  have opens : (value (depth + 1)).step '"' = text (depth + 1) := rfl
  have closes : (text (depth + 1)).step '"' = value (depth + 1) := rfl
  refine ⟨by rw [Json.quote, run_cons, opens, run_append, whole, run_cons, closes, run_nil], ?_⟩
  intro p q eq
  rcases p with _ | ⟨x, p⟩
  · rfl
  · obtain ⟨rfl, rest⟩ := List.cons.inj eq
    rw [run_cons, opens]
    rcases List.append_eq_append_iff.1 rest.symm with ⟨more, eq, _⟩ | ⟨more, rfl, last⟩
    · rcases cut p more eq with same | same <;> rw [same] <;> rfl
    · rw [run_append, whole]
      rcases more with _ | ⟨y, more⟩
      · rfl
      · obtain ⟨rfl, tail⟩ := List.cons.inj last
        rw [(List.append_eq_nil_iff.1 tail.symm).1, run_cons, closes]
        rfl

theorem isPlain_of_isNumberChar (h : isNumberChar c = true) :
    isPlain c = true ∧ c ≠ '
' := by
  refine ⟨?_, ?_⟩
  · by_contra plain
    simp only [isPlain, Bool.not_eq_true', Bool.not_eq_false, Bool.or_eq_true,
      decide_eq_true_eq] at plain
    rcases plain with ((((rfl | rfl) | rfl) | rfl) | rfl) | rfl <;> revert h <;> decide
  · rintro rfl
    revert h
    decide

mutual

theorem keeps_render : ∀ v : Json, Keeps v.render
  | .null | .bool true | .bool false => .plains (by simp [Json.render]; decide)
  | .number token => .plains fun c mem => (isPlain_of_isNumberChar (token.valid c mem)).1
  | .string s => .quote s
  | .array items => (keeps_renderItems items).enclose (.inr ⟨rfl, rfl⟩)
  | .object members => (keeps_renderMembers members).enclose (.inl ⟨rfl, rfl⟩)

theorem keeps_renderItems : ∀ items : List Json, Keeps (Json.renderItems items)
  | [] => .nil
  | [item] => keeps_render item
  | item :: item' :: items =>
    (keeps_render item).append (.plain rfl (keeps_renderItems (item' :: items)))

theorem keeps_renderMembers : ∀ members : List (String × Json), Keeps (Json.renderMembers members)
  | [] => .nil
  | [(key, v)] => (Keeps.quote key).append (.plain rfl (keeps_render v))
  | (key, v) :: member :: members =>
    (Keeps.quote key).append (.plain rfl ((keeps_render v).append
      (.plain rfl (keeps_renderMembers (member :: members)))))

end

/-! ## Texts read from within a string -/

/-- Outside a string, or past the point where a text could still become JSON. -/
def isOutside : Scan → Bool
  | value _ | closed | broken => true
  | _ => false

/-- Inside a string, or past that point. -/
def isInside : Scan → Bool
  | text _ | broken => true
  | _ => false

/-- Read from within a string, what the text writes inside its strings stands outside and the rest
inside; it ends within a string. -/
def Swaps (cs : List Char) : Prop := ∀ s : Scan, s.isInside = true → (s.run cs).isInside = true

theorem Swaps.append {ds : List Char} (h : Swaps cs) (h' : Swaps ds) : Swaps (cs ++ ds) :=
  fun s inside => by
    rw [run_append]
    exact h' _ (h s inside)

theorem Swaps.cons (quote : c ≠ '"') (backslash : c ≠ '\\') (h : Swaps cs) :
    Swaps (c :: cs) := fun s inside => by
  rw [run_cons]
  refine h _ ?_
  cases s with
  | text => simp [step, quote, backslash, isInside]
  | broken => rfl
  | value | escape | closed => cases inside

theorem Swaps.nil : Swaps [] := fun _ inside => inside

theorem Swaps.plains (plain : ∀ c ∈ cs, isPlain c = true) : Swaps cs := by
  intro s inside
  cases s with
  | text =>
    rw [run_text_plains plain]
    rfl
  | broken =>
    rw [run_broken]
    rfl
  | value | escape | closed => cases inside

theorem outside_step (outside : s.isOutside = true) (quote : c ≠ '"') :
    (s.step c).isOutside = true := by
  cases s with
  | value depth =>
    unfold step
    dsimp only
    rw [if_neg quote]
    split_ifs
    · rfl
    · rfl
    · rcases depth with _ | _ | depth <;> rfl
    · rfl
  | closed =>
    unfold step
    dsimp only
    split_ifs <;> rfl
  | broken => rfl
  | text | escape => cases outside

theorem outside_escaped (cs : List Char) (outside : s.isOutside = true) :
    (s.run (cs.flatMap Json.escapeChar)).isOutside = true := by
  induction cs generalizing s with
  | nil => exact outside
  | cons c cs ih =>
    rw [List.flatMap_cons, run_append]
    refine ih ?_
    rcases escapeChar_cases c with ⟨e, tail, eq, _, _⟩ | ⟨eq, quote, _, _⟩
    · have ends : s.step '\\' = broken := by
        cases s with
        | value | closed | broken => rfl
        | text | escape => cases outside
      rw [eq, run_cons, ends, run_broken]
      rfl
    · rw [eq]
      exact outside_step outside quote

theorem Swaps.quote (s : String) : Swaps (Json.quote s) := by
  intro u inside
  rw [Json.quote, run_cons, run_append, run_cons, run_nil]
  have outside : (u.step '"').isOutside = true := by
    cases u with
    | text | broken => rfl
    | value | escape | closed => cases inside
  have still := outside_escaped s.toList outside
  generalize ((u.step '"').run (s.toList.flatMap Json.escapeChar)) = v at still ⊢
  cases v with
  | value | closed | broken => rfl
  | text | escape => cases still

mutual

theorem swaps_render : ∀ v : Json, Swaps v.render
  | .null | .bool true | .bool false => .plains (by simp [Json.render]; decide)
  | .number token => .plains fun c mem => (isPlain_of_isNumberChar (token.valid c mem)).1
  | .string s => .quote s
  | .array items => .cons (by decide) (by decide)
      ((swaps_renderItems items).append (.cons (by decide) (by decide) .nil))
  | .object members => .cons (by decide) (by decide)
      ((swaps_renderMembers members).append (.cons (by decide) (by decide) .nil))

theorem swaps_renderItems : ∀ items : List Json, Swaps (Json.renderItems items)
  | [] => .nil
  | [item] => swaps_render item
  | item :: item' :: items => (swaps_render item).append
      (.cons (by decide) (by decide) (swaps_renderItems (item' :: items)))

theorem swaps_renderMembers : ∀ members : List (String × Json), Swaps (Json.renderMembers members)
  | [] => .nil
  | [(key, v)] => (Swaps.quote key).append (.cons (by decide) (by decide) (swaps_render v))
  | (key, v) :: member :: members =>
    (Swaps.quote key).append (.cons (by decide) (by decide) ((swaps_render v).append
      (.cons (by decide) (by decide) (swaps_renderMembers (member :: members)))))

end

/-! ## Line breaks -/

theorem newline_not_mem_quote (s : String) : '\n' ∉ Json.quote s := by
  simp only [Json.quote, List.mem_cons, List.mem_append, List.mem_flatMap, List.not_mem_nil,
    or_false, not_or, not_exists, not_and]
  refine ⟨by decide, fun c _ mem => ?_, by decide⟩
  rcases escapeChar_cases c with ⟨e, tail, eq, newline, plain⟩ | ⟨eq, _, _, newline⟩
  · rw [eq] at mem
    rcases List.mem_cons.1 mem with same | mem
    · exact absurd same (by decide)
    · rcases List.mem_cons.1 mem with rfl | mem
      · exact newline rfl
      · exact (plain _ mem).2 rfl
  · rw [eq, List.mem_singleton] at mem
    exact newline mem.symm

mutual

theorem newline_not_mem_render : ∀ v : Json, '\n' ∉ v.render
  | .null | .bool true | .bool false => by simp [Json.render]
  | .number token => fun mem => (isPlain_of_isNumberChar (token.valid _ mem)).2 rfl
  | .string s => newline_not_mem_quote s
  | .array items => by simp [Json.render, newline_not_mem_renderItems items]
  | .object members => by simp [Json.render, newline_not_mem_renderMembers members]

theorem newline_not_mem_renderItems : ∀ items : List Json, '\n' ∉ Json.renderItems items
  | [] => by simp [Json.renderItems]
  | [item] => newline_not_mem_render item
  | item :: item' :: items => by
    simp [Json.renderItems, newline_not_mem_render item,
      newline_not_mem_renderItems (item' :: items)]

theorem newline_not_mem_renderMembers :
    ∀ members : List (String × Json), '\n' ∉ Json.renderMembers members
  | [] => by simp [Json.renderMembers]
  | [(key, v)] => by
    simp [Json.renderMembers, newline_not_mem_quote key, newline_not_mem_render v]
  | (key, v) :: member :: members => by
    simp [Json.renderMembers, newline_not_mem_quote key, newline_not_mem_render v,
      newline_not_mem_renderMembers (member :: members)]

end

/-! ## The text of an object -/

theorem run_object (members : List (String × Json)) :
    (value 0).run (Json.object members).render = closed := by
  rw [Json.render, run_cons, run_append]
  rw [show (value 0).step '{' = value 1 from rfl, (keeps_renderMembers members 0).1]
  rfl

theorem open_of_part {members : List (String × Json)} {p q : List Char}
    (eq : (Json.object members).render = p ++ q) (some : p ≠ []) (strict : q ≠ []) :
    ((value 0).run p).isOpen = true := by
  rcases p with _ | ⟨x, p⟩
  · exact absurd rfl some
  · rw [Json.render] at eq
    obtain ⟨rfl, rest⟩ := List.cons.inj eq
    rw [run_cons, show (value 0).step '{' = value 1 from rfl]
    rcases List.append_eq_append_iff.1 rest.symm with ⟨more, eq', _⟩ | ⟨more, rfl, last⟩
    · exact (keeps_renderMembers members 0).2 p more eq'
    · rcases more with _ | ⟨y, more⟩
      · rw [List.append_nil, (keeps_renderMembers members 0).1]
        rfl
      · obtain ⟨rfl, tail⟩ := List.cons.inj last
        exact absurd (List.append_eq_nil_iff.1 tail.symm).2 strict

theorem not_complete_of_object (members : List (String × Json))
    (before : s.isOpen = true ∨ s = closed) :
    (s.run (Json.object members).render).isComplete = false := by
  have swapped (depth : ℕ) :
      ((text depth).run (Json.renderMembers members ++ ['}'])).isComplete = false := by
    have inside := (swaps_renderMembers members).append
      (.cons (by decide) (by decide) .nil : Swaps ['}']) (text depth) rfl
    revert inside
    generalize (text depth).run (Json.renderMembers members ++ ['}']) = v
    intro inside
    cases v with
    | text | broken => rfl
    | value | escape | closed => cases inside
  rcases before with opened | rfl
  · cases s with
    | value depth =>
      obtain ⟨depth, rfl⟩ := Nat.exists_eq_succ_of_ne_zero (by simpa [isOpen] using opened)
      rw [(keeps_render (.object members) depth).1]
      rfl
    | text depth => exact swapped depth
    | escape depth => exact swapped depth
    | closed | broken => cases opened
  · rw [Json.render, run_cons, show closed.step '{' = broken from rfl, run_broken]
    rfl

end Scan

end KimiCli
