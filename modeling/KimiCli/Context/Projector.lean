import KimiCli.Context.SafeSplits
import KimiCli.Kosong.Assembly
import KimiCli.Lib.MergeRuns

/-!
# The projection of a history

`agent-core/src/agent/context/projector.ts`.  What the model is sent is the history without partial
and empty messages and empty texts, in which neighbouring prompts of the user are one message.
-/

namespace KimiCli

open MergeRuns

/-- The `KimiError` of a projection, whose code is `REQUEST_INVALID`. -/
structure RequestInvalid where
  message : String
  toolCallId : Option String

def ContentPart.isText : ContentPart → Bool
  | .text _ => true
  | _ => false

def nonTextParts (content : List ContentPart) : List ContentPart := content.filter (!·.isText)

namespace ContextMessage

/-- The message without its empty texts. -/
def withoutEmptyTexts (message : ContextMessage) : ContextMessage :=
  { message with content := message.content.filter (· ≠ .text "") }

def prepareMessageForProjection (message : ContextMessage) :
    Except RequestInvalid (Option ContextMessage) :=
  if message.partialMessage = some true then .ok none
  else
    let next := message.withoutEmptyTexts
    if next.role = .tool ∧ next.content = [] then
      .error {
        message := "Tool result message content cannot be empty after removing empty text blocks."
        toolCallId := next.toolCallId }
    else if next.content = [] ∧ next.toolCalls.length = 0 then .ok none
    else .ok (some next)

def canMergeUserMessage (message : ContextMessage) : Bool :=
  message.role = .user && message.origin = some .user

def mergeTwoUserMessages (a b : ContextMessage) : ContextMessage where
  role := .user
  content :=
    .text (textOf a.content ++ "\n\n" ++ textOf b.content) ::
      (nonTextParts a.content ++ nonTextParts b.content)
  toolCalls := []
  origin := a.origin

/-- `stripContextMetadata`. -/
abbrev stripped (message : ContextMessage) : Message := message.toMessage

end ContextMessage

open ContextMessage

/-- The loop of `mergeAdjacentUserMessages`. -/
def mergeAdjacentUserMessages (out : List ContextMessage) :
    List ContextMessage → Except RequestInvalid (List ContextMessage)
  | [] => .ok out
  | source :: history =>
    match source.prepareMessageForProjection with
    | .error error => .error error
    | .ok none => mergeAdjacentUserMessages out history
    | .ok (some message) =>
      mergeAdjacentUserMessages (push canMergeUserMessage mergeTwoUserMessages out message) history

def project (history : List ContextMessage) : Except RequestInvalid (List Message) :=
  (mergeAdjacentUserMessages [] history).map (·.map stripped)

/-! ## What a projection is -/

/-- Every assistant message that calls tools is directly followed by the results of all its calls,
but for the last message that is no result; and results stand nowhere else. -/
structure ExchangeInvariant (history : List ContextMessage) : Prop where
  answered : ∀ before owner results after, ExchangeIn history before owner results after →
    after ≠ [] → ∀ id ∈ callIds owner, id ∈ resultIds results
  owned : ∀ before tool after, history = before ++ tool :: after → tool.role = .tool →
    ∃ earlier owner results, before = earlier ++ owner :: results ∧ owner.callsTools = true ∧
      ∀ result ∈ results, result.role = .tool

/-- The message is not partial, and has a part that is not an empty text, or tool calls. -/
def ContextMessage.IsSent (message : ContextMessage) : Prop :=
  message.partialMessage ≠ some true ∧
    ((∃ part ∈ message.content, part ≠ .text "") ∨ message.toolCalls ≠ [])

instance (message : ContextMessage) : Decidable message.IsSent :=
  decidable_of_iff (message.partialMessage ≠ some true ∧
    ((∃ part ∈ message.content, part ≠ .text "") ∨ message.toolCalls.length ≠ 0))
    (by rw [ContextMessage.IsSent, Ne, Ne, Ne, List.length_eq_zero_iff])

/-- The message stands for the group: a message alone is sent as it is, without its empty texts; of
several the texts are joined by blank lines, and the other parts follow. -/
structure StandsFor (group : List ContextMessage) (message : Message) : Prop where
  alone : ∀ m, group = [m] → message = m.withoutEmptyTexts.stripped
  merged : group.length ≠ 1 → message = {
    role := .user
    content := .text ("\n\n".intercalate (group.map (textOf ·.content))) ::
      group.flatMap (nonTextParts ·.content)
    toolCalls := [] }

/-- `out` says what `history` says, in the same order. -/
structure Projects (history : List ContextMessage) (out : List Message) : Prop where
  /-- Each message stands for one message or for neighbouring prompts of the user, and no two
  messages next to each other are prompts of the user. -/
  groups : ∃ groups : List (List ContextMessage), groups.flatten = history.filter (·.IsSent) ∧
    List.Forall₂ StandsFor groups out ∧
    (∀ group ∈ groups, (∃ m, group = [m]) ∨ ∀ m ∈ group, m.canMergeUserMessage = true) ∧
    groups.IsChain fun group next => ¬((∀ m ∈ group, m.canMergeUserMessage = true) ∧
      ∀ m ∈ next, m.canMergeUserMessage = true)
  /-- No part but texts is lost or doubled. -/
  parts : out.flatMap (nonTextParts ·.content) =
    (history.filter (·.partialMessage ≠ some true)).flatMap (nonTextParts ·.content)
  /-- After tool calls come their results. -/
  answered : ∀ front owner back, out = front ++ owner :: back → owner.role = .assistant →
    owner.toolCalls ≠ [] → ∃ before source results after rest,
      ExchangeIn history before source results after ∧ source.IsSent ∧
      owner = source.withoutEmptyTexts.stripped ∧
      back = (results.filter (·.IsSent)).map (·.withoutEmptyTexts.stripped) ++ rest ∧
      (after ≠ [] → ∀ id ∈ callIds source, id ∈ resultIds results)

/-! ## The loop -/

variable {history : List ContextMessage} {out : List Message} {message : ContextMessage}

/-- A result that has nothing to be sent. -/
def ContextMessage.IsRejected (message : ContextMessage) : Prop :=
  message.partialMessage ≠ some true ∧ message.role = .tool ∧
    ∀ part ∈ message.content, part = .text ""

theorem withoutEmptyTexts_content_nil :
    message.withoutEmptyTexts.content = [] ↔ ∀ part ∈ message.content, part = .text "" := by
  rw [withoutEmptyTexts, List.filter_eq_nil_iff]
  simp

theorem prepare_rejected (rejected : message.IsRejected) :
    message.prepareMessageForProjection = .error {
      message := "Tool result message content cannot be empty after removing empty text blocks."
      toolCallId := message.toolCallId } := by
  obtain ⟨whole, tool, empty⟩ := rejected
  rw [prepareMessageForProjection, if_neg whole]
  exact if_pos ⟨tool, withoutEmptyTexts_content_nil.2 empty⟩

theorem prepare_eq (taken : ¬message.IsRejected) : message.prepareMessageForProjection =
    .ok (if message.IsSent then some message.withoutEmptyTexts else none) := by
  rw [prepareMessageForProjection]
  by_cases isPartial : message.partialMessage = some true
  · rw [if_pos isPartial, if_neg fun sent => sent.1 isPartial]
  · rw [if_neg isPartial]
    rw [if_neg fun rejected => taken ⟨isPartial, rejected.1,
      withoutEmptyTexts_content_nil.1 rejected.2⟩]
    by_cases sent : message.IsSent
    · rw [if_pos sent, if_neg]
      rintro ⟨empty, silent⟩
      rcases sent.2 with ⟨part, mem, ne⟩ | calls
      · exact ne (withoutEmptyTexts_content_nil.1 empty part mem)
      · exact calls (List.length_eq_zero_iff.1 silent)
    · rw [if_neg sent, if_pos]
      refine ⟨withoutEmptyTexts_content_nil.2 fun part mem => ?_, ?_⟩
      · by_contra ne
        exact sent ⟨isPartial, .inl ⟨part, mem, ne⟩⟩
      · by_contra calls
        exact sent ⟨isPartial, .inr fun none => calls (List.length_eq_zero_iff.2 none)⟩

theorem mergeAdjacentUserMessages_eq (taken : ∀ message ∈ history, ¬message.IsRejected)
    (before : List ContextMessage) : mergeAdjacentUserMessages before history =
      .ok ((history.filter (·.IsSent)).foldl (fun out message =>
        push canMergeUserMessage mergeTwoUserMessages out message.withoutEmptyTexts) before) := by
  induction history generalizing before with
  | nil => rfl
  | cons source history ih =>
    obtain ⟨first, others⟩ := List.forall_mem_cons.1 taken
    rw [mergeAdjacentUserMessages, prepare_eq first]
    by_cases sent : source.IsSent
    · rw [if_pos sent, List.filter_cons, if_pos (by simpa using sent)]
      exact ih others _
    · rw [if_neg sent, List.filter_cons, if_neg (by simpa using sent)]
      exact ih others _

/-- A projection throws exactly on a result that has nothing to be sent. -/
theorem project_ok_iff :
    (∃ out, project history = .ok out) ↔ ∀ message ∈ history, ¬message.IsRejected := by
  constructor
  · rintro ⟨out, projected⟩
    suffices none : ∀ before out', mergeAdjacentUserMessages before history = .ok out' →
        ∀ message ∈ history, ¬message.IsRejected by
      rw [project] at projected
      cases merged : mergeAdjacentUserMessages [] history with
      | error =>
        rw [merged] at projected
        cases projected
      | ok out' => exact none [] out' merged
    clear projected
    induction history with
    | nil => exact fun _ _ _ _ mem => nomatch mem
    | cons source history ih =>
      intro before out' merged
      by_cases rejected : source.IsRejected
      · rw [mergeAdjacentUserMessages, prepare_rejected rejected] at merged
        cases merged
      · refine List.forall_mem_cons.2 ⟨rejected, ?_⟩
        rw [mergeAdjacentUserMessages, prepare_eq rejected] at merged
        by_cases sent : source.IsSent
        · rw [if_pos sent] at merged
          exact ih _ _ merged
        · rw [if_neg sent] at merged
          exact ih _ _ merged
  · intro taken
    rw [project, mergeAdjacentUserMessages_eq taken]
    exact ⟨_, rfl⟩

/-! ## What the groups become -/

theorem textOf_filter (content : List ContentPart) :
    textOf (content.filter (· ≠ .text "")) = textOf content := by
  induction content with
  | nil => rfl
  | cons part content ih =>
    have split (part : ContentPart) (content : List ContentPart) :
        textOf (part :: content) = textOf [part] ++ textOf content := textOf_append [part] content
    by_cases empty : part = .text ""
    · rw [List.filter_cons, if_neg (by simpa using empty), ih, split part, empty]
      simp [textOf]
    · rw [List.filter_cons, if_pos (by simpa using empty), split, ih, ← split]

theorem nonTextParts_filter (content : List ContentPart) :
    nonTextParts (content.filter (· ≠ .text "")) = nonTextParts content := by
  rw [nonTextParts, nonTextParts, List.filter_filter]
  refine List.filter_congr fun part _ => ?_
  cases part <;> simp [ContentPart.isText]

theorem textOf_nonTextParts (content : List ContentPart) : textOf (nonTextParts content) = "" := by
  rw [textOf, nonTextParts, List.filterMap_filter]
  refine (congrArg String.join (List.filterMap_eq_nil_iff.2 fun part _ => ?_)).trans
    String.join_nil
  cases part <;> rfl

theorem textOf_text (text : String) (content : List ContentPart) :
    textOf (.text text :: nonTextParts content) = text := by
  rw [← List.singleton_append, textOf_append, textOf_nonTextParts, String.append_empty]
  simp [textOf]

theorem nonTextParts_text (text : String) (content : List ContentPart) :
    nonTextParts (.text text :: nonTextParts content) = nonTextParts content := by
  rw [nonTextParts, List.filter_cons, if_neg (by simp [ContentPart.isText])]
  exact List.filter_eq_self.2 fun part mem => (List.mem_filter.1 mem).2

theorem nonTextParts_append (xs ys : List ContentPart) :
    nonTextParts (xs ++ ys) = nonTextParts xs ++ nonTextParts ys := List.filter_append ..

theorem merged_content {group : List ContextMessage} {y : ContextMessage}
    (merged : Merged mergeTwoUserMessages withoutEmptyTexts group y) :
    textOf y.content = "\n\n".intercalate (group.map (textOf ·.content)) ∧
      nonTextParts y.content = group.flatMap (nonTextParts ·.content) ∧
      (group.length ≠ 1 → y.stripped = {
        role := .user
        content := .text ("\n\n".intercalate (group.map (textOf ·.content))) ::
          group.flatMap (nonTextParts ·.content)
        toolCalls := [] }) := by
  induction merged with
  | single =>
    refine ⟨?_, ?_, fun several => absurd rfl several⟩
    · rw [withoutEmptyTexts, textOf_filter, List.map_singleton, String.intercalate_singleton]
    · rw [withoutEmptyTexts, nonTextParts_filter, List.flatMap_singleton]
  | @snoc group y m before ih =>
    obtain ⟨text, parts, -⟩ := ih
    have joined : "\n\n".intercalate ((group ++ [m]).map (textOf ·.content)) =
        textOf y.content ++ "\n\n" ++ textOf m.withoutEmptyTexts.content := by
      rw [List.map_append, List.map_singleton, String.intercalate_append_of_ne_nil
        (fun none => before.nonempty (List.map_eq_nil_iff.1 none)) (List.cons_ne_nil _ _),
        String.intercalate_singleton, ← text, withoutEmptyTexts, textOf_filter]
    have others : (group ++ [m]).flatMap (nonTextParts ·.content) =
        nonTextParts y.content ++ nonTextParts m.withoutEmptyTexts.content := by
      rw [List.flatMap_append, List.flatMap_singleton, ← parts, withoutEmptyTexts,
        nonTextParts_filter]
    rw [joined, others, mergeTwoUserMessages, ← nonTextParts_append]
    exact ⟨textOf_text .., nonTextParts_text .., fun _ => rfl⟩

theorem parts_of_merged {groups : List (List ContextMessage)} {ys : List ContextMessage}
    (merged : List.Forall₂ (Merged mergeTwoUserMessages withoutEmptyTexts) groups ys) :
    ys.flatMap (nonTextParts ·.content) = groups.flatten.flatMap (nonTextParts ·.content) := by
  induction merged with
  | nil => rfl
  | cons first _ ih =>
    rw [List.flatMap_cons, List.flatten_cons, List.flatMap_append, ih, (merged_content first).2.1]

theorem standsFor_merged {group : List ContextMessage} {y : ContextMessage}
    (merged : Merged mergeTwoUserMessages withoutEmptyTexts group y) :
    StandsFor group y.stripped where
  alone m same := by
    subst same
    rw [merged.eq_of_single]
  merged several := (merged_content merged).2.2 several

theorem canMerge_mergeTwo (a b : ContextMessage) (left : a.canMergeUserMessage = true)
    (_ : b.canMergeUserMessage = true) :
    (mergeTwoUserMessages a b).canMergeUserMessage = true := by
  rw [canMergeUserMessage, Bool.and_eq_true, decide_eq_true_eq, decide_eq_true_eq] at left ⊢
  exact ⟨rfl, left.2⟩

theorem flatMap_nonTextParts_sent (history : List ContextMessage) :
    (history.filter (·.IsSent)).flatMap (nonTextParts ·.content) =
      (history.filter (·.partialMessage ≠ some true)).flatMap (nonTextParts ·.content) := by
  induction history with
  | nil => rfl
  | cons m history ih =>
    by_cases isPartial : m.partialMessage = some true
    · have unsent : ¬m.IsSent := fun sent => sent.1 isPartial
      rw [List.filter_cons, if_neg (by simpa using unsent), List.filter_cons,
        if_neg (by simpa using isPartial), ih]
    · have whole : decide (m.partialMessage ≠ some true) = true := decide_eq_true isPartial
      rw [List.filter_cons, List.filter_cons, if_pos whole, List.flatMap_cons, ← ih]
      by_cases sent : m.IsSent
      · rw [if_pos (by simpa using sent), List.flatMap_cons]
      · rw [if_neg (by simpa using sent)]
        have empty : nonTextParts m.content = [] := by
          refine List.filter_eq_nil_iff.2 fun part mem shown => ?_
          by_cases isEmpty : part = .text ""
          · rw [isEmpty] at shown
            cases shown
          · exact sent ⟨isPartial, .inl ⟨part, mem, isEmpty⟩⟩
        rw [empty, List.nil_append]

/-! ## The projection -/

/-- The messages that are sent, merged. -/
def mergedMessages (history : List ContextMessage) : List ContextMessage :=
  mergeAll canMergeUserMessage mergeTwoUserMessages withoutEmptyTexts (history.filter (·.IsSent))

theorem project_eq (taken : ∀ message ∈ history, ¬message.IsRejected) :
    project history = .ok ((mergedMessages history).map stripped) := by
  rw [project, mergeAdjacentUserMessages_eq taken]
  rfl

theorem answered_of_runs (invariant : ExchangeInvariant history)
    {groups : List (List ContextMessage)} (flatten : groups.flatten = history.filter (·.IsSent))
    (runs : Runs canMergeUserMessage withoutEmptyTexts groups)
    (merged : List.Forall₂ (Merged mergeTwoUserMessages withoutEmptyTexts) groups
      (mergedMessages history)) {front back : List Message} {owner : Message}
    (split : (mergedMessages history).map stripped = front ++ owner :: back)
    (isAssistant : owner.role = .assistant) (calls : owner.toolCalls ≠ []) :
    ∃ before source results after rest,
      ExchangeIn history before source results after ∧ source.IsSent ∧
      owner = source.withoutEmptyTexts.stripped ∧
      back = (results.filter (·.IsSent)).map (·.withoutEmptyTexts.stripped) ++ rest ∧
      (after ≠ [] → ∀ id ∈ callIds source, id ∈ resultIds results) := by
  obtain ⟨first, tail, isMerged, -, isTail⟩ := List.map_eq_append_iff.1 split
  obtain ⟨y, last, rfl, rfl, rfl⟩ := List.map_eq_cons_iff.1 isTail
  rw [isMerged] at merged
  obtain ⟨before, here, -, isHere, rfl⟩ := forall₂_append_right merged
  cases isHere with
  | @cons group _ groups _ isGroup isRest =>
    have inside : group ∈ before ++ group :: groups :=
      List.mem_append_right _ List.mem_cons_self
    -- a prompt of the user is no assistant message
    have noPrompt : ∀ m : ContextMessage, m.role = .assistant → m.canMergeUserMessage = false := by
      intro m role
      rw [canMergeUserMessage, role]
      rfl
    rcases runs.kind group inside with ⟨source, rfl⟩ | all
    · obtain rfl := isGroup.eq_of_single
      rw [List.flatten_append, List.flatten_cons, List.singleton_append] at flatten
      obtain ⟨earlier, later, rfl, -, isLater⟩ := List.filter_eq_append_iff.1 flatten.symm
      obtain ⟨skipped, later, rfl, -, sent, isRest'⟩ := List.filter_eq_cons_iff.1 isLater
      have isSent : source.IsSent := of_decide_eq_true sent
      let results := later.takeWhile (·.role = .tool)
      let after := later.dropWhile (·.role = .tool)
      have whole : results ++ after = later := List.takeWhile_append_dropWhile ..
      have tools : ∀ result ∈ results, result.role = .tool := fun result mem =>
        of_decide_eq_true
          (List.mem_takeWhile_imp (p := fun m : ContextMessage => decide (m.role = .tool)) mem)
      have exchange : ExchangeIn (earlier ++ (skipped ++ source :: later)) (earlier ++ skipped)
          source results after := by
        refine ⟨by rw [whole, List.append_assoc], ?_, tools, ?_⟩
        · have some : 0 < source.toolCalls.length := List.length_pos_iff.2 calls
          have role : source.role = .assistant := isAssistant
          simp [callsTools, role, some]
        · intro next head role
          have first := List.head?_dropWhile_not
            (fun m : ContextMessage => decide (m.role = .tool)) later
          rw [Option.mem_def.1 head] at first
          exact of_decide_eq_false first role
      rw [← whole, List.filter_append] at isRest'
      have others : ∀ result ∈ results.filter (·.IsSent),
          result.withoutEmptyTexts.canMergeUserMessage = false := by
        intro result mem
        have role : result.withoutEmptyTexts.role = .tool :=
          tools result (List.mem_of_mem_filter mem)
        rw [canMergeUserMessage, role]
        rfl
      obtain ⟨groups', rfl, -⟩ := ((runs.of_append before).of_append [_]).allAlone others
        isRest'.symm
      obtain ⟨rest, rfl⟩ := merged_allAlone isRest
      refine ⟨_, source, results, after, rest.map stripped, exchange, isSent, rfl, ?_,
        invariant.answered _ source results after exchange⟩
      rw [List.map_append, List.map_map]
      rfl
    · have prompt := isGroup.keeps canMerge_mergeTwo all
      rw [noPrompt y isAssistant] at prompt
      cases prompt

/-- The projection of a history in which every result has something to be sent. -/
theorem project_projects (invariant : ExchangeInvariant history)
    (results : ∀ message ∈ history, message.role = .tool →
      ∃ part ∈ message.content, part ≠ .text "") :
    ∃ out, project history = .ok out ∧ Projects history out := by
  have taken : ∀ message ∈ history, ¬message.IsRejected := by
    rintro message mem ⟨-, tool, empty⟩
    obtain ⟨part, inside, ne⟩ := results message mem tool
    exact ne (empty part inside)
  obtain ⟨groups, flatten, runs, merged⟩ := mergeAll_runs withoutEmptyTexts
    canMerge_mergeTwo (history.filter (·.IsSent))
  refine ⟨_, project_eq taken, ⟨groups, flatten, ?_, runs.kind, runs.apart⟩, ?_, ?_⟩
  · refine List.forall₂_map_right_iff.2 (merged.imp fun group y isMerged => ?_)
    exact standsFor_merged isMerged
  · rw [← flatMap_nonTextParts_sent, ← flatten, List.flatMap_map]
    exact parts_of_merged merged
  · exact fun front owner back split => answered_of_runs invariant flatten runs merged split

/-- Two prompts, a call with its result, and the answer. -/
def answeredPrompts : List ContextMessage := [
  { role := .user, content := [.text "look at this"], toolCalls := [], origin := some .user },
  { role := .user, content := [.text "", .text "please"], toolCalls := [], origin := some .user },
  { role := .assistant, content := [],
    toolCalls := [{ id := "1", name := "Read", arguments := none }] },
  { role := .tool, content := [.text "text"], toolCalls := [], toolCallId := some "1" },
  { role := .assistant, content := [.text "done"], toolCalls := [] }]

theorem exchangeInvariant_answeredPrompts : ExchangeInvariant answeredPrompts := by
  have wf : WellFormed answeredPrompts := by
    refine .plain (by decide) rfl (by decide) (.plain (by decide) rfl (by decide) ?_)
    refine .exchange [_] rfl (by decide) (by decide) (List.Subperm.refl _) (fun _ => .refl _)
      (by decide) (.plain (by decide) rfl (by decide) .nil)
  refine ⟨fun before owner results after part some id mem => ?_, wf.owned⟩
  exact (wf.resolved before owner results after part some).mem_iff.2 mem

theorem project_projects_answeredPrompts :
    ∃ out, project answeredPrompts = .ok out ∧ Projects answeredPrompts out := by
  refine project_projects exchangeInvariant_answeredPrompts fun message mem tool => ?_
  simp only [answeredPrompts, List.mem_cons] at mem
  rcases mem with rfl | rfl | rfl | rfl | rfl | none
  all_goals first | exact absurd tool (by decide) | skip
  · exact ⟨.text "text", List.mem_cons_self, by decide⟩
  · cases none

end KimiCli
