import KimiCli.Kosong.Message
import Mathlib.Data.List.Forall2
import Mathlib.Data.List.Perm.Basic

/-!
# Histories with complete tool exchanges

What the request builders of the providers are given: every assistant message with tool calls is
followed by one tool message for each of its calls, in any order, and there are no other tool
messages.  The arguments of a call are parsed again for every request.
-/

namespace KimiCli

/-- An assistant message with tool calls. -/
def Message.calls (m : Message) : Prop := m.role = .assistant ∧ m.toolCalls ≠ []

/-- A sequence of other messages and of complete exchanges. -/
inductive CompleteExchanges : List Message → Prop
  | nil : CompleteExchanges []
  | message {m : Message} {rest : List Message} : m.role ≠ .tool → ¬m.calls →
      CompleteExchanges rest → CompleteExchanges (m :: rest)
  | exchange {m : Message} {results rest : List Message} : m.calls →
      (∀ result ∈ results, result.role = .tool) →
      (results.map (·.toolCallId)).Perm (m.toolCalls.map fun call => some call.id) →
      CompleteExchanges rest → CompleteExchanges (m :: (results ++ rest))

/-- The text parts of a message, one a line. -/
def Message.textLines (message : Message) : String :=
  "\n".intercalate (message.content.filterMap fun
    | .text text => some text
    | _ => none)

/-- The input of a tool call: `JSON.parse` of its arguments, which must give an object. -/
def toolCallInput (parse : String → Option Json) (arguments : Option String) :
    Except String (List (String × Json)) :=
  match arguments with
  | none => .ok []
  | some text =>
    if text = "" then .ok []
    else
      match parse text with
      | some (.object members) => .ok members
      | some _ => .error "Tool call arguments must be a JSON object."
      | none => .error "Tool call arguments must be valid JSON."

/-- The arguments are empty or an object. -/
def ObjectArguments (parse : String → Option Json) (call : ToolCall) : Prop :=
  ∀ text, call.arguments = some text → text ≠ "" → ∃ members, parse text = some (.object members)

section

variable {ε α β : Type} {parse : String → Option Json}

variable {f : α → Except ε β} {l : List α}

theorem except_bind_eq_ok {x : Except ε α} {b : β} :
    (x >>= f) = .ok b ↔ ∃ a, x = .ok a ∧ f a = .ok b := by
  cases x with
  | error => exact ⟨nofun, fun ⟨_, failed, _⟩ => (nomatch failed)⟩
  | ok a => exact ⟨fun found => ⟨a, rfl, found⟩, fun ⟨_, same, found⟩ => Except.ok.inj same ▸ found⟩

theorem except_ok_bind (a : α) (f : α → Except ε β) : (Except.ok a >>= f) = f a := rfl

theorem foldlM_cons_eq_ok {step : β → α → Except ε β} {acc out : β} {a : α} :
    (a :: l).foldlM step acc = .ok out ↔
      ∃ next, step acc a = .ok next ∧ l.foldlM step next = .ok out :=
  except_bind_eq_ok

theorem exists_bind_pure_iff {x : Except ε α} {f : α → β} :
    (∃ b, (x >>= fun a => pure (f a)) = .ok b) ↔ ∃ a, x = .ok a := by
  cases x with
  | error => exact ⟨fun ⟨_, failed⟩ => (nomatch failed), fun ⟨_, failed⟩ => (nomatch failed)⟩
  | ok a => exact ⟨fun _ => ⟨a, rfl⟩, fun _ => ⟨f a, rfl⟩⟩

/-- A fold whose steps succeed whatever has been gathered succeeds where each of them does. -/
theorem exists_foldlM_iff {step : β → α → Except ε β} {fine : α → Prop}
    (step_iff : ∀ a ∈ l, ∀ acc, (∃ next, step acc a = .ok next) ↔ fine a) (acc : β) :
    (∃ out, l.foldlM step acc = .ok out) ↔ ∀ a ∈ l, fine a := by
  induction l generalizing acc with
  | nil => exact ⟨fun _ _ mem => absurd mem List.not_mem_nil, fun _ => ⟨acc, rfl⟩⟩
  | cons a l ih =>
    have here := step_iff a List.mem_cons_self
    have later := ih fun b mem => step_iff b (List.mem_cons_of_mem _ mem)
    rw [List.forall_mem_cons]
    constructor
    · rintro ⟨out, found⟩
      obtain ⟨next, first, rest⟩ := foldlM_cons_eq_ok.1 found
      exact ⟨(here acc).1 ⟨next, first⟩, (later next).1 ⟨out, rest⟩⟩
    · rintro ⟨first, rest⟩
      obtain ⟨next, first⟩ := (here acc).2 first
      obtain ⟨out, rest⟩ := (later next).2 rest
      exact ⟨out, foldlM_cons_eq_ok.2 ⟨next, first, rest⟩⟩

theorem mapM_eq_ok {out : List β} :
    l.mapM f = .ok out ↔ List.Forall₂ (fun a b => f a = .ok b) l out := by
  induction l generalizing out with
  | nil =>
    rw [List.forall₂_nil_left_iff, List.mapM_nil]
    exact ⟨fun same => (Except.ok.inj same).symm, fun same => congrArg Except.ok same.symm⟩
  | cons a l ih =>
    rw [List.mapM_cons, except_bind_eq_ok, List.forall₂_cons_left_iff]
    refine exists_congr fun b => ?_
    rw [except_bind_eq_ok]
    constructor
    · rintro ⟨first, bs, rest, same⟩
      exact ⟨bs, first, ih.1 rest, (Except.ok.inj same).symm⟩
    · rintro ⟨bs, first, rest, rfl⟩
      exact ⟨first, bs, ih.2 rest, rfl⟩

theorem exists_mapM_iff :
    (∃ out, l.mapM f = .ok out) ↔ ∀ a ∈ l, ∃ b, f a = .ok b := by
  induction l with
  | nil => exact ⟨fun _ _ mem => absurd mem List.not_mem_nil, fun _ => ⟨[], rfl⟩⟩
  | cons a l ih =>
    rw [List.forall_mem_cons, ← ih]
    constructor
    · rintro ⟨out, found⟩
      obtain ⟨b, bs, first, rest, -⟩ := List.forall₂_cons_left_iff.1 (mapM_eq_ok.1 found)
      exact ⟨⟨b, first⟩, bs, mapM_eq_ok.2 rest⟩
    · rintro ⟨⟨b, first⟩, bs, rest⟩
      exact ⟨b :: bs, mapM_eq_ok.2 (.cons first (mapM_eq_ok.1 rest))⟩

theorem forall₂_exists_left {R : α → β → Prop} {l' : List β} (related : List.Forall₂ R l l') {b : β}
    (mem : b ∈ l') : ∃ a ∈ l, R a b := by
  induction related with
  | nil => exact absurd mem List.not_mem_nil
  | @cons a b' l l' first rest ih =>
    rcases List.mem_cons.1 mem with rfl | mem
    · exact ⟨a, List.mem_cons_self, first⟩
    · obtain ⟨a', mem', related⟩ := ih mem
      exact ⟨a', List.mem_cons_of_mem _ mem', related⟩

theorem exists_toolCallInput_iff (call : ToolCall) :
    (∃ input, toolCallInput parse call.arguments = .ok input) ↔ ObjectArguments parse call := by
  unfold toolCallInput ObjectArguments
  cases call.arguments with
  | none => exact ⟨fun _ _ absent => (nomatch absent), fun _ => ⟨[], rfl⟩⟩
  | some text =>
    dsimp only
    by_cases empty : text = ""
    · rw [if_pos empty]
      exact ⟨fun _ _ same other => absurd (Option.some.inj same ▸ empty) other, fun _ => ⟨[], rfl⟩⟩
    · rw [if_neg empty]
      constructor
      · rintro ⟨input, found⟩ text' same -
        cases same
        split at found
        case h_1 members object => exact ⟨members, object⟩
        case h_2 => cases found
        case h_3 => cases found
      · intro object
        obtain ⟨members, parsed⟩ := object text rfl empty
        rw [parsed]
        exact ⟨members, rfl⟩

end

/-! ## An exchange -/

/-- A call of which the model has written these arguments, and its result. -/
def exchangeOf (arguments : String) : List Message :=
  [{ role := .assistant, content := [],
     toolCalls := [{ id := "call_1", name := "Read", arguments := some arguments }] },
    createToolMessage "call_1" (.inl "Invalid arguments")]

theorem exchangeOf_complete (arguments : String) : CompleteExchanges (exchangeOf arguments) :=
  @CompleteExchanges.exchange _ [createToolMessage "call_1" (.inl "Invalid arguments")] []
    ⟨rfl, List.cons_ne_nil _ _⟩ (fun _ mem => List.mem_singleton.1 mem ▸ rfl) (.refl _) .nil

/-- A JSON parser that knows the empty array. -/
def parseEmptyArray (text : String) : Option Json := if text = "[]" then some (.array []) else none

/-- The arguments of a call that reads the file `a`, and of one that reads `b`. -/
def readA : String := "\x7b\"path\":\"a\"\x7d"

def readB : String := "\x7b\"path\":\"b\"\x7d"

/-- Two calls, of which the second is answered first. -/
def twoCalls : List Message :=
  [createUserMessage "Compare a with b",
    { role := .assistant, content := [],
      toolCalls := [{ id := "call_1", name := "Read", arguments := some readA },
        { id := "call_2", name := "Read", arguments := some readB }] },
    createToolMessage "call_2" (.inl "text of b"), createToolMessage "call_1" (.inl "text of a")]

theorem twoCalls_complete : CompleteExchanges twoCalls := by
  refine .message (by decide) (fun calls => absurd calls.1 (by decide)) ?_
  refine @CompleteExchanges.exchange _ [createToolMessage "call_2" (.inl "text of b"),
    createToolMessage "call_1" (.inl "text of a")] [] ⟨rfl, List.cons_ne_nil _ _⟩ ?_
    (.swap _ _ _) .nil
  intro result mem
  rcases List.mem_cons.1 mem with rfl | mem
  · rfl
  · exact List.mem_singleton.1 mem ▸ rfl

/-- A JSON parser that knows the arguments of the two calls. -/
def parseReads (text : String) : Option Json :=
  if text = readA then some (.object [("path", .string "a")])
  else if text = readB then some (.object [("path", .string "b")])
  else none

theorem twoCalls_objects :
    ∀ m ∈ twoCalls, ∀ call ∈ m.toolCalls, ObjectArguments parseReads call := by
  intro m mem call inside text given _
  have two : call.arguments = some readA ∨ call.arguments = some readB := by
    simp only [twoCalls, List.mem_cons, List.not_mem_nil, or_false] at mem
    rcases mem with rfl | rfl | rfl | rfl
    · cases inside
    · simp only [List.mem_cons, List.not_mem_nil, or_false] at inside
      rcases inside with rfl | rfl
      · exact .inl rfl
      · exact .inr rfl
    · cases inside
    · cases inside
  rcases two with same | same
  · cases same.symm.trans given
    exact ⟨_, if_pos rfl⟩
  · cases same.symm.trans given
    exact ⟨_, (if_neg (by decide)).trans (if_pos rfl)⟩

end KimiCli
