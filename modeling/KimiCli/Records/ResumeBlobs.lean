import KimiCli.Context.CompactionRound
import KimiCli.Context.MediaUrls
import KimiCli.Records.BlobRoundTrip

/-!
# Blob references after a resume

`AgentRecords.replay` rehydrates the history when all records are restored, and
`ContextMemory.finishResume` then closes the calls that are still open.  The messages that have
waited behind such a call enter the history only there, with the URLs of the file.
-/

namespace KimiCli

variable {codec : BlobCodec}

/-! ## The parts of a message for the blob store -/

/-- `Object.entries` of a part, as the blob store sees them. -/
def ContentPart.entries : ContentPart → PartEntries MediaContainer
  | .text value => [("type", .plain (.string "text")), ("text", .plain (.string value))]
  | .think value encrypted =>
    [("type", .plain (.string "think")), ("think", .plain (.string value))] ++
      encrypted.toList.map fun signature => ("encrypted", .plain (.string signature))
  | .imageUrl media => [("type", .plain (.string "image_url")), ("imageUrl", .media (object media))]
  | .audioUrl media => [("type", .plain (.string "audio_url")), ("audioUrl", .media (object media))]
  | .videoUrl media => [("type", .plain (.string "video_url")), ("videoUrl", .media (object media))]
where
  object (media : MediaUrl) : MediaContainer :=
    { url := .string media.url, rest := media.id.toList.map fun id => ("id", .string id) }

/-! ## The log and the resume -/

/-- A log that was written with a blob store, with all its blobs there. -/
structure StoredLog (codec : BlobCodec) where
  /-- The records as they were logged. -/
  records : List (ContextRecord × ℤ)
  threshold : ℕ := 4096
  files : BlobFiles codec
  fresh : ∀ record ∈ records, record.1.Fresh
  present : ∀ record ∈ records, ∀ url ∈ record.1.urls, Stored files threshold url

/-- The records in the file. -/
def StoredLog.written (log : StoredLog codec) : List (ContextRecord × ℤ) :=
  log.records.map fun record => (record.1.mapUrls (offloadUrl codec log.threshold), record.2)

/-- `AgentRecords.replay`, without a range. -/
def replayRecords (files : BlobFiles codec) (records : List (ContextRecord × ℤ)) :
    Option ContextMemory :=
  (replayContext records).map fun memory =>
    { memory with history := memory.history.map (·.mapUrls (resolve files)) }

/-- `Agent.resume`. -/
def resumeAgent (files : BlobFiles codec) (records : List (ContextRecord × ℤ))
    (call : ContextCall) : Option ContextMemory :=
  (replayRecords files records).map (·.finishResume call)

/-! ## What waits -/

namespace ContextMemory

variable {memory : ContextMemory} {call : ContextCall}

theorem deferred_flush (memory : ContextMemory) :
    (memory.flushDeferredMessagesIfToolExchangeClosed call).deferredMessages ⊆
      memory.deferredMessages := by
  unfold flushDeferredMessagesIfToolExchangeClosed
  split
  · exact List.Subset.refl _
  · exact List.nil_subset _

theorem deferred_appendToolResult (toolCallId : String) (result : ToolResult) :
    (memory.appendToolResult call toolCallId result).deferredMessages ⊆
      memory.deferredMessages := by
  have logged := @logRecord_deferredMessages memory call
    (.appendLoopEvent (.toolResult toolCallId result))
  unfold appendToolResult
  dsimp only
  split
  · rw [logged]
    exact List.Subset.refl _
  · exact List.Subset.trans (deferred_flush _) (logged ▸ List.Subset.refl _)

theorem deferred_closePendingToolResults :
    (memory.closePendingToolResults call).deferredMessages ⊆ memory.deferredMessages :=
  List.foldlRecOn (motive := fun after : ContextMemory =>
    after.deferredMessages ⊆ memory.deferredMessages) _ _ (List.Subset.refl _)
      fun _ kept toolCallId _ => List.Subset.trans (deferred_appendToolResult toolCallId _) kept

theorem deferred_appendStepEnd (uuid : String) (usage : Option TokenUsage) :
    (memory.appendStepEnd call uuid usage).deferredMessages ⊆ memory.deferredMessages := by
  cases usage with
  | none => exact deferred_flush { memory with openSteps := memory.openSteps.filter _ }
  | some =>
    rw [appendStepEnd_some]
    refine List.Subset.trans (deferred_flush _) ?_
    unfold counted
    dsimp only
    split <;> exact List.Subset.refl _

theorem deferred_restore {record : ContextRecord} {time : ℤ} {restored : ContextMemory}
    (next : memory.restore (record, time) = some restored) :
    ∀ message ∈ restored.deferredMessages,
      message ∈ memory.deferredMessages ∨ record = .appendMessage message := by
  have old {restored : ContextMemory}
      (kept : restored.deferredMessages ⊆ memory.deferredMessages) :
      ∀ message ∈ restored.deferredMessages,
        message ∈ memory.deferredMessages ∨ record = .appendMessage message :=
    fun message mem => .inl (kept mem)
  cases record with
  | appendMessage =>
    cases next
    unfold appendMessage
    rw [logRecord_of_restoring _ _ rfl]
    dsimp only
    split
    · intro other mem
      rcases List.mem_append.1 mem with before | new
      · exact .inl before
      · exact .inr (congrArg _ (List.mem_singleton.1 new).symm)
    · exact old (List.Subset.refl _)
  | clear =>
    cases next
    exact old (List.nil_subset _)
  | applyCompaction result =>
    cases next
    exact old (deferred_flush (memory.summarized _ result))
  | undo count =>
    cases next
    by_cases idle : count ≤ 0 ∨ memory.history = []
    · rw [undo_of_idle idle]
      exact old (List.Subset.refl _)
    · rw [not_or, not_le] at idle
      obtain ⟨kept, removed, -, -, after, -⟩ := undo_done { restoring := true, time } idle.1 idle.2
      rw [after]
      exact old (List.nil_subset _)
  | appendLoopEvent event =>
    cases event with
    | stepBegin =>
      cases next
      exact old deferred_closePendingToolResults
    | stepEnd uuid usage =>
      cases next
      exact old (deferred_appendStepEnd uuid usage)
    | toolResult toolCallId result =>
      cases next
      exact old (deferred_appendToolResult toolCallId result)
    | contentPart stepUuid | toolCall stepUuid =>
      unfold restore appendLoopEvent at next
      dsimp only at next
      rw [logRecord_of_restoring _ _ rfl] at next
      cases found : memory.openSteps.lookup stepUuid with
      | none =>
        rw [found] at next
        cases next
      | some =>
        rw [found] at next
        cases next
        exact old (List.Subset.refl _)

theorem deferred_fresh {records : List (ContextRecord × ℤ)}
    (fresh : ∀ record ∈ records, record.1.Fresh) (before : ContextMemory)
    (start : ∀ message ∈ before.deferredMessages, message.step = none)
    (replayed : records.foldlM restore before = some memory) :
    ∀ message ∈ memory.deferredMessages, message.step = none := by
  induction records generalizing before with
  | nil =>
    cases replayed
    exact start
  | cons record records ih =>
    rw [List.foldlM_cons] at replayed
    obtain ⟨restored, next, replayed⟩ := Option.bind_eq_some_iff.1 replayed
    refine ih (fun record mem => fresh record (List.mem_cons_of_mem _ mem)) restored ?_ replayed
    intro message mem
    rcases deferred_restore next message mem with old | new
    · exact start message old
    · exact fresh record List.mem_cons_self message new

/-! ## Closing the calls -/

/-- A memory with the result of an awaited call, before what waits is flushed. -/
def answered (memory : ContextMemory) (call : ContextCall) (toolCallId : String)
    (result : ToolResult) : ContextMemory :=
  { memory.pushHistory call [toolMessage toolCallId result] with
    pendingToolResultIds := memory.pendingToolResultIds.erase toolCallId }

theorem appendToolResult_awaited {toolCallId : String} (result : ToolResult)
    (awaited : toolCallId ∈ memory.pendingToolResultIds) :
    memory.appendToolResult call toolCallId result =
      ((memory.logRecord call (.appendLoopEvent (.toolResult toolCallId result))).answered call
        toolCallId result).flushDeferredMessagesIfToolExchangeClosed call := by
  have kept : (memory.logRecord call
      (.appendLoopEvent (.toolResult toolCallId result))).pendingToolResultIds =
        memory.pendingToolResultIds := by
    unfold logRecord
    split <;> rfl
  unfold appendToolResult
  rw [if_neg (not_not_intro (kept ▸ awaited))]
  rfl

theorem appendToolResult_first (call : ContextCall) {toolCallId : String} {rest : List String}
    (pending : memory.pendingToolResultIds = toolCallId :: rest) (result : ToolResult) :
    (memory.appendToolResult call toolCallId result).history =
        memory.history ++ toolMessage toolCallId result ::
          (if rest = [] then memory.deferredMessages else []) ∧
      (memory.appendToolResult call toolCallId result).pendingToolResultIds = rest ∧
      (rest ≠ [] → (memory.appendToolResult call toolCallId result).deferredMessages =
        memory.deferredMessages) := by
  rw [appendToolResult_awaited result (pending ▸ List.mem_cons_self)]
  generalize isNext : (memory.logRecord call
    (.appendLoopEvent (.toolResult toolCallId result))).answered call toolCallId result = next
  have nextHistory : next.history = memory.history ++ [toolMessage toolCallId result] := by
    rw [← isNext, answered, pushHistory, logRecord_history]
  have nextDeferred : next.deferredMessages = memory.deferredMessages := by
    rw [← isNext, answered, pushHistory, logRecord_deferredMessages]
  have nextPending : next.pendingToolResultIds = rest := by
    rw [← isNext, answered, logRecord]
    split <;> exact (congrArg (List.erase · toolCallId) pending).trans (List.erase_cons_head ..)
  have flushed : next.flushed = if rest = [] then memory.deferredMessages else [] := by
    unfold ContextMemory.flushed hasOpenToolExchange
    rw [nextPending, nextDeferred]
    by_cases last : rest = []
    · rw [if_pos last, last]
      rfl
    · rw [if_neg last, decide_eq_true last, if_pos rfl]
  refine ⟨?_, ?_, fun more => ?_⟩
  · rw [flush_history, nextHistory, flushed, List.append_assoc]
    rfl
  · unfold flushDeferredMessagesIfToolExchangeClosed
    split
    · exact nextPending
    · exact nextPending
  · unfold flushDeferredMessagesIfToolExchangeClosed
    have isOpen : next.hasOpenToolExchange = true := by
      rw [hasOpenToolExchange, nextPending]
      exact decide_eq_true more
    rw [if_pos (.inl isOpen)]
    exact nextDeferred

theorem finishResume_history (memory : ContextMemory) (call : ContextCall) :
    (memory.finishResume call).history =
      memory.history ++ memory.pendingToolResultIds.map (toolMessage · interrupted) ++
        if memory.hasOpenToolExchange then memory.deferredMessages else [] := by
  have closed (ids : List String) (memory : ContextMemory)
      (pending : memory.pendingToolResultIds = ids) :
      (ids.foldl (fun memory toolCallId => memory.appendToolResult call toolCallId interrupted)
        memory).history =
      memory.history ++ ids.map (toolMessage · interrupted) ++
        if ids ≠ [] then memory.deferredMessages else [] := by
    induction ids generalizing memory with
    | nil =>
      rw [List.foldl_nil, List.map_nil, if_neg (not_not_intro rfl), List.append_nil,
        List.append_nil]
    | cons toolCallId ids ih =>
      obtain ⟨history, rest, deferred⟩ := appendToolResult_first call pending interrupted
      rw [List.foldl_cons, ih _ rest, history, if_pos (List.cons_ne_nil _ _), List.map_cons]
      by_cases last : ids = []
      · rw [if_pos last, if_neg (not_not_intro last), last, List.map_nil, List.append_nil,
          List.append_nil, List.append_assoc]
        rfl
      · rw [if_neg last, if_pos last, deferred last]
        simp only [List.append_assoc, List.cons_append, List.nil_append]
  have := closed memory.pendingToolResultIds { memory with openSteps := [] } rfl
  unfold finishResume closePendingToolResults
  rw [hasOpenToolExchange]
  simp only [decide_eq_true_eq]
  exact this

end ContextMemory

/-! ## URLs of the history -/

theorem map_eq_self_iff {α : Type} {f : α → α} {l : List α} :
    l.map f = l ↔ ∀ a ∈ l, f a = a := by
  have := List.map_inj_left (l := l) (f := f) (g := id)
  rwa [List.map_id] at this

theorem ContextRecord.mapUrls_eq_self {f : String → String} {record : ContextRecord}
    (same : ∀ url ∈ record.urls, f url = url) : record.mapUrls f = record := by
  cases record with
  | appendMessage =>
    exact congrArg ContextRecord.appendMessage (ContextMessage.mapUrls_eq_self_iff.2 same)
  | clear | applyCompaction _ | undo _ => rfl
  | appendLoopEvent event =>
    cases event with
    | stepBegin _ | stepEnd _ _ | contentPart _ _ | toolCall _ _ _ _ => rfl
    | toolResult toolCallId result =>
      obtain ⟨output | parts, isError⟩ := result
      · rfl
      · have kept : parts.map (·.mapUrl f) = parts := map_eq_self_iff.2 fun part mem =>
          (ContentPart.mapUrl_eq_iff (g := id).2 fun url inside =>
            same url (List.mem_flatMap.2 ⟨part, mem, inside⟩)).trans part.mapUrl_id
        exact congrArg (fun parts => ContextRecord.appendLoopEvent
          (.toolResult toolCallId { output := .inr parts, isError })) kept

namespace StoredLog

variable (log : StoredLog codec) {memory : ContextMemory}

variable {message : ContextMessage}

/-- All URLs of the history come from the log, unless `step.begin` has made their message: a
function that keeps the URLs of the log does not change the history. -/
theorem url_mem (replayed : replayContext log.records = some memory)
    (mem : message ∈ memory.history) (logged : message.step = none) {url : String}
    (inside : url ∈ message.urls) : url ∈ log.records.flatMap (·.1.urls) := by
  by_contra foreign
  let mark (url : String) : String :=
    if url ∈ log.records.flatMap (·.1.urls) then url else url ++ "x"
  have kept : log.records.map (fun record => (record.1.mapUrls mark, record.2)) = log.records :=
    map_eq_self_iff.2 fun record member =>
      Prod.ext (ContextRecord.mapUrls_eq_self fun url inside =>
        if_pos (List.mem_flatMap.2 ⟨record, member, inside⟩)) rfl
  have marked := replayContext_mapUrls log.fresh mark
  rw [kept, replayed, Option.map_some] at marked
  have same : memory.history.map (·.mapLogged mark) = memory.history :=
    congrArg ContextMemory.history (Option.some.inj marked).symm
  have fixed := map_eq_self_iff.1 same message mem
  rw [ContextMessage.mapLogged, if_pos logged] at fixed
  have unmarked : mark url = url := ContextMessage.mapUrls_eq_self_iff.1 fixed url inside
  rw [show mark url = url ++ "x" from if_neg foreign] at unmarked
  have := congrArg (fun url => url.toList.length) unmarked
  rw [String.toList_append, List.length_append] at this
  exact absurd this (Nat.succ_ne_self _)

theorem stored (replayed : replayContext log.records = some memory) (mem : message ∈ memory.history)
    (logged : message.step = none) {url : String} (inside : url ∈ message.urls) :
    Stored log.files log.threshold url := by
  obtain ⟨record, member, inside⟩ := List.mem_flatMap.1 (log.url_mem replayed mem logged inside)
  exact log.present record member url inside

/-- What the resume of the file gives, from what a replay of the records as they were logged
gives. -/
theorem resumeAgent_written (replayed : replayContext log.records = some memory)
    (call : ContextCall) :
    ∃ resumed, resumeAgent log.files log.written call = some resumed ∧
      resumed.history =
        memory.history.map (fun message =>
            (message.mapLogged (offloadUrl codec log.threshold)).mapUrls (resolve log.files)) ++
          memory.pendingToolResultIds.map (ContextMemory.toolMessage · ContextMemory.interrupted) ++
          if memory.hasOpenToolExchange then
            memory.deferredMessages.map (·.mapLogged (offloadUrl codec log.threshold))
          else [] := by
  have written : replayContext log.written =
      some (memory.mapLogged (offloadUrl codec log.threshold)) := by
    rw [StoredLog.written, replayContext_mapUrls log.fresh, replayed, Option.map_some]
  refine ⟨_, by rw [resumeAgent, replayRecords, written, Option.map_some, Option.map_some], ?_⟩
  rw [ContextMemory.finishResume_history]
  dsimp only [ContextMemory.mapLogged]
  rw [List.map_map]
  rfl

/-- The condition on what a replay of the records as they were logged gives: no URL is taken for a
reference, files encode to what they were written from, and nothing that waits behind an open tool
call at the end of the log has a URL that is written to a file. -/
structure Resumes (memory : ContextMemory) : Prop where
  history : ∀ message ∈ memory.history, ∀ url ∈ message.urls,
    isBlobRef url = false ∧ (message.step = none → SurvivesFile codec log.threshold url)
  waiting : memory.hasOpenToolExchange = true → ∀ message ∈ memory.deferredMessages,
    ∀ url ∈ message.urls, isBlobRef url = false ∧ ¬LargeDataUri log.threshold url

theorem resolved_eq_self_iff (replayed : replayContext log.records = some memory)
    (mem : message ∈ memory.history) :
    (message.mapLogged (offloadUrl codec log.threshold)).mapUrls (resolve log.files) = message ↔
      ∀ url ∈ message.urls,
        isBlobRef url = false ∧ (message.step = none → SurvivesFile codec log.threshold url) := by
  unfold ContextMessage.mapLogged
  split
  case isTrue logged =>
    rw [ContextMessage.mapUrls_mapUrls, ContextMessage.mapUrls_eq_self_iff]
    refine forall₂_congr fun url inside => ?_
    rw [Function.comp_apply, resolve_offloadUrl_eq_iff (log.stored replayed mem logged inside)]
    exact and_congr_right fun _ => ⟨fun survives _ => survives, fun survives => survives logged⟩
  case isFalse made =>
    rw [ContextMessage.mapUrls_eq_self_iff]
    refine forall₂_congr fun url _ => ?_
    rw [resolve_eq_self_iff]
    exact ⟨fun original => ⟨original, fun logged => absurd logged made⟩, And.left⟩

theorem urls_toolMessage (toolCallId : String) :
    (ContextMemory.toolMessage toolCallId ContextMemory.interrupted).urls = [] := by
  have isText : ∃ text, toolResultOutputForModel ContextMemory.interrupted = .inl text := by
    unfold toolResultOutputForModel ContextMemory.interrupted
    dsimp only
    split <;> [split <;> [skip; split]; split] <;> exact ⟨_, rfl⟩
  obtain ⟨text, isText⟩ := isText
  unfold ContextMemory.toolMessage
  rw [isText]
  rfl

/-- A resume gives every message its own URLs, and leaves no reference, exactly under the
condition. -/
theorem resumed_iff (replayed : replayContext log.records = some memory) (call : ContextCall) :
    ∃ resumed, resumeAgent log.files log.written call = some resumed ∧
      ((resumed.history = (memory.finishResume call).history ∧
          ∀ message ∈ resumed.history, ∀ url ∈ message.urls, isBlobRef url = false) ↔
        log.Resumes memory) := by
  obtain ⟨resumed, resume, history⟩ := log.resumeAgent_written replayed call
  refine ⟨resumed, resume, ?_⟩
  have same : resumed.history = (memory.finishResume call).history ↔
      (∀ message ∈ memory.history, (message.mapLogged (offloadUrl codec log.threshold)).mapUrls
          (resolve log.files) = message) ∧
        (memory.hasOpenToolExchange = true → ∀ message ∈ memory.deferredMessages,
          message.mapLogged (offloadUrl codec log.threshold) = message) := by
    rw [history, ContextMemory.finishResume_history, ← map_eq_self_iff, ← map_eq_self_iff]
    constructor
    · intro all
      obtain ⟨front, waiting⟩ := List.append_inj all (by
        rw [List.length_append, List.length_append, List.length_map])
      refine ⟨List.append_inj_left front (List.length_map ..), fun isOpen => ?_⟩
      rwa [if_pos isOpen, if_pos isOpen] at waiting
    · rintro ⟨front, waiting⟩
      rw [front]
      refine congrArg _ ?_
      by_cases isOpen : memory.hasOpenToolExchange = true
      · rw [if_pos isOpen, if_pos isOpen, waiting isOpen]
      · rw [if_neg isOpen, if_neg isOpen]
  have fresh : ∀ message ∈ memory.deferredMessages, message.step = none :=
    ContextMemory.deferred_fresh log.fresh {} (fun _ mem => nomatch mem) replayed
  constructor
  · rintro ⟨equal, noRef⟩
    obtain ⟨front, waiting⟩ := same.1 equal
    refine ⟨fun message mem => (log.resolved_eq_self_iff replayed mem).1 (front message mem),
      fun isOpen message mem url inside => ?_⟩
    have original : isBlobRef url = false := by
      refine noRef message ?_ url inside
      rw [equal, ContextMemory.finishResume_history, if_pos isOpen]
      exact List.mem_append_right _ mem
    have kept := waiting isOpen message mem
    rw [ContextMessage.mapLogged, if_pos (fresh message mem)] at kept
    exact ⟨original, (offloadUrl_eq_self_iff original).1
      (ContextMessage.mapUrls_eq_self_iff.1 kept url inside)⟩
  · intro resumes
    have equal := same.2 ⟨fun message mem =>
        (log.resolved_eq_self_iff replayed mem).2 (resumes.history message mem),
      fun isOpen message mem => by
        rw [ContextMessage.mapLogged, if_pos (fresh message mem),
          ContextMessage.mapUrls_eq_self_iff]
        intro url inside
        obtain ⟨original, small⟩ := resumes.waiting isOpen message mem url inside
        exact (offloadUrl_eq_self_iff original).2 small⟩
    refine ⟨equal, fun message mem url inside => ?_⟩
    rw [equal, ContextMemory.finishResume_history] at mem
    rcases List.mem_append.1 mem with front | waiting
    · rcases List.mem_append.1 front with old | closed
      · exact (resumes.history message old url inside).1
      · obtain ⟨toolCallId, -, rfl⟩ := List.mem_map.1 closed
        rw [urls_toolMessage] at inside
        cases inside
    · split at waiting
      case isTrue isOpen => exact (resumes.waiting isOpen message waiting url inside).1
      case isFalse => cases waiting

end StoredLog

/-! ## An image behind an open call -/

def imagePayload : String := String.ofList (List.replicate 4096 'A')

theorem utf16Length_replicate (n : ℕ) :
    utf16Length (String.ofList (List.replicate n 'A')).toList = n := by
  rw [String.toList_ofList, utf16Length, List.map_replicate, List.sum_replicate]
  exact Nat.mul_one n

def imageCodec : BlobCodec :=
  BlobWorld.oneBlobCodec imagePayload
    "6896d9ea3f73a4434f5832bc65714e7d066f177373f36f34dc8a6f735daa41b1" (List.replicate 3072 0)
    (fun rest eq => by
      have := congrArg String.toList eq
      rw [String.toList_append] at this
      exact absurd (List.cons.inj this).1 (by decide))
    (by decide)

def imageUrl : String := "data:" ++ "image/png" ++ ";base64," ++ imagePayload

theorem dataUriHeader_imageUrl : dataUriHeader imageUrl = some ("image/png", imagePayload) :=
  dataUriHeader_append imagePayload (by decide) (by decide)

def imageMessage : ContextMessage :=
  { role := .user, content := [.imageUrl { url := imageUrl, id := none }], toolCalls := [] }

/-- A call without a result, and an image that waits behind it. -/
def imageLog : StoredLog imageCodec where
  records :=
    [(.appendLoopEvent (.stepBegin "s1"), 0),
      (.appendLoopEvent (.toolCall "s1" "t1" "Read" none), 1),
      (.appendMessage imageMessage, 2)]
  files := BlobFiles.empty.write imagePayload
  fresh record mem message appended := by
    simp only [List.mem_cons, List.not_mem_nil, or_false] at mem
    rcases mem with rfl | rfl | rfl
    · cases appended
    · cases appended
    · cases appended
      rfl
  present record mem url inside := by
    simp only [List.mem_cons, List.not_mem_nil, or_false] at mem
    rcases mem with rfl | rfl | rfl
    · cases inside
    · cases inside
    · obtain rfl : url = imageUrl := List.mem_singleton.1 inside
      intro mimeType payload header _
      rw [dataUriHeader_imageUrl] at header
      cases header
      exact BlobFiles.empty.file_write_self imagePayload

def imageMemory : ContextMemory where
  history :=
    [{ role := .assistant, content := [], step := some 0
       toolCalls := [{ id := "t1", name := "Read", arguments := none }] }]
  openSteps := [("s1", 0)]
  pendingToolResultIds := ["t1"]
  deferredMessages := [imageMessage]
  lastAssistantAt := some 0
  steps := 1

theorem replayContext_image : replayContext imageLog.records = some imageMemory := rfl

theorem StoredLog.resumed_iff_image :
    ∃ resumed, resumeAgent imageLog.files imageLog.written {} = some resumed ∧
      ((resumed.history = (imageMemory.finishResume {}).history ∧
          ∀ message ∈ resumed.history, ∀ url ∈ message.urls, isBlobRef url = false) ↔
        imageLog.Resumes imageMemory) :=
  imageLog.resumed_iff replayContext_image {}

/-- The image is a reference after the resume. -/
theorem resumedReference :
    (resumeAgent imageLog.files imageLog.written {}).map (·.history.map (·.urls)) =
        some [[], [], ["blobref:image/png;" ++
          "6896d9ea3f73a4434f5832bc65714e7d066f177373f36f34dc8a6f735daa41b1"]] := by
  have length : utf16Length imagePayload.toList = 4096 := utf16Length_replicate 4096
  have hash : imageCodec.sha256 imagePayload =
    "6896d9ea3f73a4434f5832bc65714e7d066f177373f36f34dc8a6f735daa41b1" :=
      BlobWorld.oneBlobCodec_sha256 _ _
  have original : isBlobRef imageUrl = false := by
    rw [imageUrl, String.append_assoc, String.append_assoc]
    exact isBlobRef_data _
  have written : offloadUrl imageCodec 4096 imageUrl =
      "blobref:" ++ "image/png" ++ ";" ++ imageCodec.sha256 imagePayload :=
    offloadUrl_large original dataUriHeader_imageUrl length.ge
  obtain ⟨resumed, resume, history⟩ := imageLog.resumeAgent_written replayContext_image {}
  have waiting : [imageMessage].map (·.mapLogged (offloadUrl imageCodec imageLog.threshold)) =
    [{ imageMessage with
       content := [.imageUrl { url := offloadUrl imageCodec 4096 imageUrl, id := none }] }] := rfl
  have isOpen : imageMemory.hasOpenToolExchange = true := rfl
  rw [resume, Option.map_some, history, if_pos isOpen, imageMemory]
  rw [waiting, written, hash]
  refine congrArg some ?_
  rw [List.map_cons, List.map_nil, List.map_cons, List.map_nil, List.append_assoc, List.map_append,
    List.map_append, List.map_cons, List.map_cons, List.map_cons, StoredLog.urls_toolMessage]
  rfl

end KimiCli
