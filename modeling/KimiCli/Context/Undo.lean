import KimiCli.Context.Memory

/-!
# Undo

`ContextMemory.undo` walks back over the history and removes what it meets until it has removed the
prompts it was asked for.  Whether they are there it finds out at the end: an undo that throws has
removed all it could reach.  The session service asks `canUndoHistory` first.
-/

namespace KimiCli

/-! ## The two scans -/

/-- The state of the loop of `undo`. -/
structure UndoScan where
  memory : ContextMemory
  removedUserCount : ℕ := 0
  stoppedAtBoundary : Bool := false

namespace UndoScan

/-- Removes the message at the index `i`, and its estimate from the count that covers it. -/
def remove (scan : UndoScan) (i : ℕ) (message : ContextMessage) : UndoScan :=
  let memory := { scan.memory with history := scan.memory.history.eraseIdx i }
  let memory :=
    if i < memory.tokenCountCoveredMessageCount then
      { memory with
        tokenCountCoveredMessageCount := memory.tokenCountCoveredMessageCount - 1
        tokenCount := memory.tokenCount - estimateTokensForMessages [message] }
    else memory
  { scan with memory }

/-- The loop from the index below the argument down to the first message. -/
def loop (count : ℤ) : ℕ → UndoScan → UndoScan
  | 0, scan => scan
  | i + 1, scan =>
    match scan.memory.history[i]? with
    | none => loop count i scan
    | some message =>
      if message.isInjection then loop count i scan
      else if message.isCompactionSummary then { scan with stoppedAtBoundary := true }
      else
        let scan := scan.remove i message
        if message.isRealUserPrompt then
          let scan := { scan with removedUserCount := scan.removedUserCount + 1 }
          if count ≤ scan.removedUserCount then scan else loop count i scan
        else loop count i scan

end UndoScan

/-- The error that an undo throws, with its details. -/
structure UndoError where
  code : String := "request.invalid"
  message : String
  requestedCount : ℤ
  undoableCount : ℕ
  stoppedAtCompaction : Bool

def formatPromptCount (count : ℤ) : String :=
  let noun := if count = 1 then "prompt" else "prompts"
  s!"{count} {noun}"

def formatUndoUnavailableMessage (requestedCount undoableCount : ℤ) (stoppedAtCompaction : Bool) :
    String :=
  let reason := if stoppedAtCompaction then " after the last compaction" else ""
  s!"Cannot undo {formatPromptCount requestedCount}; only {formatPromptCount undoableCount} " ++
    s!"can be undone in the active context{reason}."

def ContextMemory.undo (memory : ContextMemory) (call : ContextCall) (count : ℤ) :
    ContextMemory × Option UndoError :=
  if count ≤ 0 then (memory, none)
  else if memory.history.length = 0 then (memory, none)
  else
    let memory := memory.logRecord call (.undo count)
    let scan := UndoScan.loop count memory.history.length { memory }
    let memory :=
      { scan.memory with
        openSteps := [], pendingToolResultIds := [], deferredMessages := []
        cutoff := min scan.memory.cutoff scan.memory.history.length }
    let failed := scan.stoppedAtBoundary ∨ (scan.removedUserCount : ℤ) < count
    if call.restoring = false ∧ failed then
      (memory, some
        { message :=
            formatUndoUnavailableMessage count scan.removedUserCount scan.stoppedAtBoundary
          requestedCount := count, undoableCount := scan.removedUserCount
          stoppedAtCompaction := scan.stoppedAtBoundary })
    else (memory, none)

/-- The loop of `canUndoHistory` over the history, last message first. -/
def canUndoScan (count : ℤ) : List ContextMessage → ℕ → Bool
  | [], _ => false
  | message :: messages, found =>
    if message.isInjection then canUndoScan count messages found
    else if message.isCompactionSummary then false
    else if message.isRealUserPrompt then
      if count ≤ ((found + 1 : ℕ) : ℤ) then true else canUndoScan count messages (found + 1)
    else canUndoScan count messages found

def canUndoHistory (history : List ContextMessage) (count : ℤ) : Bool :=
  canUndoScan count history.reverse 0

/-- `undo` of the session service: the scan is over the history as it was `before` the request, and
the answer is the message of the error that it throws. -/
def requestUndo (before : List ContextMessage) (memory : ContextMemory) (call : ContextCall)
    (count : ℤ) : ContextMemory × Option String :=
  if canUndoHistory before count = false then
    (memory, some "Nothing to undo in the active context.")
  else
    let (memory, error) := memory.undo call count
    (memory, error.map (·.message))

/-- Restores a record by the operation that has logged it; an operation that throws ends the
resume. -/
def ContextMemory.restore (memory : ContextMemory) : ContextRecord × ℤ → Option ContextMemory
  | (.appendMessage message, time) =>
    some (memory.appendMessage { restoring := true, time } message)
  | (.appendLoopEvent event, time) =>
    match memory.appendLoopEvent { restoring := true, time } event with
    | (memory, none) => some memory
    | (_, some _) => none
  | (.clear, time) => some (memory.clear { restoring := true, time })
  | (.applyCompaction result, time) =>
    some (memory.applyCompaction { restoring := true, time } result)
  | (.undo count, time) => some (memory.undo { restoring := true, time } count).1

def replayContext (records : List (ContextRecord × ℤ)) : Option ContextMemory :=
  records.foldlM ContextMemory.restore {}

/-! ## What is removed -/

/-- What an undo is for: the part of the history from the earliest of the prompts on, without its
injections, goes.  `complete` says whether all the prompts were there; if not, it is all that comes
after the last compaction. -/
structure Undone (count : ℤ) (complete : Bool) (kept removed : List ContextMessage) : Prop where
  reach : ∀ message ∈ removed, message.isCompactionSummary = false
  enough : complete = true → (removed.countP (·.isRealUserPrompt) : ℤ) = count ∧
    ∃ prompt rest, removed = prompt :: rest ∧ prompt.isRealUserPrompt = true
  short : complete = false → (removed.countP (·.isRealUserPrompt) : ℤ) < count ∧
    ∀ message ∈ kept.getLast?, message.isCompactionSummary = true

/-- The messages of the removed part that the token count covers. -/
def coveredRemoved (covered : ℕ) (kept removed : List ContextMessage) : List ContextMessage :=
  (removed.take (covered - kept.length)).filter (!·.isInjection)

/-- The memory after the messages of the removed part are gone. -/
def ContextMemory.without (memory : ContextMemory) (kept removed after : List ContextMessage) :
    ContextMemory :=
  { memory with
    history := kept ++ removed.filter (·.isInjection) ++ after
    tokenCountCoveredMessageCount := memory.tokenCountCoveredMessageCount -
      (coveredRemoved memory.tokenCountCoveredMessageCount kept removed).length
    tokenCount := memory.tokenCount - estimateTokensForMessages
      (coveredRemoved memory.tokenCountCoveredMessageCount kept removed) }

namespace ContextMessage

variable {message : ContextMessage}

theorem isCompactionSummary_of_isInjection (injection : message.isInjection = true) :
    message.isCompactionSummary = false := by
  unfold isCompactionSummary
  rw [of_decide_eq_true injection]
  rfl

theorem isRealUserPrompt_of_isInjection (injection : message.isInjection = true) :
    message.isRealUserPrompt = false := by
  unfold isRealUserPrompt
  rw [of_decide_eq_true injection]
  exact Bool.and_false _

end ContextMessage

variable {kept removed after before : List ContextMessage} {message : ContextMessage} {covered : ℕ}

theorem coveredRemoved_concat_of_le (le : covered ≤ kept.length + removed.length) :
    coveredRemoved covered kept (removed ++ [message]) = coveredRemoved covered kept removed := by
  rw [coveredRemoved, List.take_append_of_le_length (by omega), ← coveredRemoved]

theorem coveredRemoved_of_le (le : kept.length + removed.length ≤ covered) :
    coveredRemoved covered kept removed = removed.filter (!·.isInjection) := by
  rw [coveredRemoved, List.take_of_length_le (by omega)]

theorem coveredRemoved_concat_injection (injection : message.isInjection = true) :
    coveredRemoved covered kept (removed ++ [message]) = coveredRemoved covered kept removed := by
  rcases Nat.le_total covered (kept.length + removed.length) with le | le
  · exact coveredRemoved_concat_of_le le
  · rcases Nat.eq_or_lt_of_le le with eq | lt
    · exact coveredRemoved_concat_of_le eq.ge
    · rw [coveredRemoved_of_le le, coveredRemoved_of_le (by rw [List.length_append]; exact lt),
        List.filter_append]
      simp [injection]

namespace UndoScan

variable {scan : UndoScan} {count : ℤ}

theorem erased : (before ++ message :: after).eraseIdx before.length = before ++ after := by
  rw [List.eraseIdx_append_of_length_le le_rfl, Nat.sub_self, List.eraseIdx_cons_zero]

theorem remove_covered (history : scan.memory.history = before ++ message :: after)
    (lt : before.length < scan.memory.tokenCountCoveredMessageCount) :
    scan.remove before.length message =
      { scan with memory :=
        { scan.memory with
          history := before ++ after
          tokenCountCoveredMessageCount := scan.memory.tokenCountCoveredMessageCount - 1
          tokenCount := scan.memory.tokenCount - estimateTokensForMessage message } } := by
  unfold remove
  dsimp only
  rw [history, erased, if_pos lt, estimateTokensForMessages, List.map_singleton,
    List.sum_singleton]

theorem remove_uncovered (history : scan.memory.history = before ++ message :: after)
    (le : scan.memory.tokenCountCoveredMessageCount ≤ before.length) :
    scan.remove before.length message =
      { scan with memory := { scan.memory with history := before ++ after } } := by
  unfold remove
  dsimp only
  rw [history, erased, if_neg (not_lt.2 le)]

theorem without_remove (history : scan.memory.history = kept ++ removed ++ message :: after)
    (visible : message.isInjection = false) :
    (scan.remove (kept ++ removed).length message).memory.without kept removed after =
      scan.memory.without kept (removed ++ [message]) after := by
  have rest : (removed ++ [message]).filter (·.isInjection) = removed.filter (·.isInjection) := by
    rw [List.filter_append, List.filter_cons_of_neg (by simp [visible]), List.filter_nil,
      List.append_nil]
  rcases Nat.lt_or_ge (kept ++ removed).length scan.memory.tokenCountCoveredMessageCount
    with lt | le
  · rw [remove_covered history lt]
    rw [List.length_append] at lt
    have all : (removed ++ [message]).filter (!·.isInjection) =
        removed.filter (!·.isInjection) ++ [message] := by
      rw [List.filter_append, List.filter_cons_of_pos (by simp [visible]), List.filter_nil]
    have now : coveredRemoved (scan.memory.tokenCountCoveredMessageCount - 1) kept removed =
        removed.filter (!·.isInjection) := coveredRemoved_of_le (by omega)
    have later : coveredRemoved scan.memory.tokenCountCoveredMessageCount kept
        (removed ++ [message]) = (removed ++ [message]).filter (!·.isInjection) :=
      coveredRemoved_of_le (by simp; omega)
    unfold ContextMemory.without
    dsimp only
    rw [now, later, all, rest]
    have length : (removed.filter (!·.isInjection) ++ [message]).length =
      (removed.filter (!·.isInjection)).length + 1 := by simp
    have estimate : estimateTokensForMessages (removed.filter (!·.isInjection) ++ [message]) =
        estimateTokensForMessages (removed.filter (!·.isInjection)) +
          estimateTokensForMessage message := by simp [estimateTokensForMessages]
    rw [length, estimate]
    congr 1
    · push_cast
      omega
    · omega
  · rw [remove_uncovered history le]
    rw [List.length_append] at le
    unfold ContextMemory.without
    rw [coveredRemoved_concat_of_le le, rest]

/-- What the loop has done when it ends. -/
structure Done (count : ℤ) (scan : UndoScan) (before after : List ContextMessage)
    (result : UndoScan) (kept removed : List ContextMessage) : Prop where
  split : before = kept ++ removed
  memory : result.memory = scan.memory.without kept removed after
  reach : ∀ message ∈ removed, message.isCompactionSummary = false
  found : result.removedUserCount = scan.removedUserCount + removed.countP (·.isRealUserPrompt)
  enough : canUndoScan count before.reverse scan.removedUserCount = true →
    result.stoppedAtBoundary = false ∧ (result.removedUserCount : ℤ) = count ∧
      ∃ prompt rest, removed = prompt :: rest ∧ prompt.isRealUserPrompt = true
  short : canUndoScan count before.reverse scan.removedUserCount = false →
    (result.removedUserCount : ℤ) < count ∧
      result.stoppedAtBoundary = !kept.isEmpty ∧
      ∀ message ∈ kept.getLast?, message.isCompactionSummary = true

theorem done_injection {result : UndoScan} (injection : message.isInjection = true)
    (done : Done count scan before (message :: after) result kept removed) :
    Done count scan (before ++ [message]) after result kept (removed ++ [message]) where
  split := by rw [done.split, List.append_assoc]
  memory := by
    rw [done.memory, ContextMemory.without, ContextMemory.without,
      coveredRemoved_concat_injection injection]
    simp [injection]
  reach other mem := by
    rcases List.mem_append.1 mem with mem | mem
    · exact done.reach other mem
    · obtain rfl := List.mem_singleton.1 mem
      exact other.isCompactionSummary_of_isInjection injection
  found := by
    rw [done.found, List.countP_append, List.countP_singleton,
      message.isRealUserPrompt_of_isInjection injection]
    rfl
  enough scanned := by
    rw [List.reverse_append, List.reverse_singleton, List.singleton_append, canUndoScan,
      if_pos injection] at scanned
    obtain ⟨running, found, prompt, rest, rfl, real⟩ := done.enough scanned
    exact ⟨running, found, prompt, rest ++ [message], rfl, real⟩
  short scanned := by
    rw [List.reverse_append, List.reverse_singleton, List.singleton_append, canUndoScan,
      if_pos injection] at scanned
    exact done.short scanned

theorem done_removed {result : UndoScan} {bump : ℕ}
    (bumped : bump = [message].countP (·.isRealUserPrompt)) (visible : message.isInjection = false)
    (ordinary : message.isCompactionSummary = false)
    (history : scan.memory.history = before ++ message :: after)
    (done : Done count
      { scan.remove before.length message with
        removedUserCount := scan.removedUserCount + bump }
      before after result kept removed)
    (scanned : canUndoScan count (message :: before.reverse) scan.removedUserCount =
      canUndoScan count before.reverse (scan.removedUserCount + bump)) :
    Done count scan (before ++ [message]) after result kept (removed ++ [message]) where
  split := by rw [done.split, List.append_assoc]
  memory := by
    have split := done.split
    subst split
    rw [done.memory]
    exact without_remove history visible
  reach other mem := by
    rcases List.mem_append.1 mem with mem | mem
    · exact done.reach other mem
    · obtain rfl := List.mem_singleton.1 mem
      exact ordinary
  found := by
    rw [done.found, List.countP_append, ← bumped]
    dsimp only
    omega
  enough yes := by
    rw [List.reverse_append, List.reverse_singleton, List.singleton_append, scanned] at yes
    obtain ⟨running, found, prompt, rest, rfl, real⟩ := done.enough yes
    exact ⟨running, found, prompt, rest ++ [message], rfl, real⟩
  short no := by
    rw [List.reverse_append, List.reverse_singleton, List.singleton_append, scanned] at no
    exact done.short no

theorem without_nil (history : scan.memory.history = kept ++ after) :
    scan.memory.without kept [] after = scan.memory := by
  rw [ContextMemory.without, coveredRemoved, List.take_nil, List.filter_nil, List.filter_nil,
    List.append_nil, ← history]
  simp [estimateTokensForMessages]

theorem loop_done (count : ℤ) : ∀ (before after : List ContextMessage) (scan : UndoScan),
    scan.memory.history = before ++ after → scan.stoppedAtBoundary = false →
    (scan.removedUserCount : ℤ) < count →
    ∃ kept removed, Done count scan before after (loop count before.length scan) kept removed := by
  intro before
  induction before using List.reverseRecOn with
  | nil =>
    intro after scan history running fewer
    exact ⟨[], [],
      { split := rfl, memory := (without_nil history).symm, found := rfl
        reach := fun _ no => nomatch no
        enough := fun no => nomatch no
        short := fun _ => ⟨fewer, running, fun _ no => nomatch no⟩ }⟩
  | append_singleton before message ih =>
    intro after scan history running fewer
    have here : scan.memory.history[before.length]? = some message := by
      rw [history]
      simp
    rw [List.length_append, List.length_singleton, loop, here]
    dsimp only
    by_cases injection : message.isInjection = true
    · rw [if_pos injection]
      rw [List.append_assoc, List.singleton_append] at history
      obtain ⟨kept, removed, done⟩ := ih (message :: after) scan history running fewer
      exact ⟨kept, removed ++ [message], done_injection injection done⟩
    rw [if_neg injection]
    by_cases summary : message.isCompactionSummary = true
    · rw [if_pos summary]
      have stopped : canUndoScan count (before ++ [message]).reverse scan.removedUserCount =
          false := by
        rw [List.reverse_append, List.reverse_singleton, List.singleton_append, canUndoScan,
          if_neg injection, if_pos summary]
      exact ⟨before ++ [message], [],
        { split := (List.append_nil _).symm, memory := (without_nil history).symm, found := rfl
          reach := fun _ no => nomatch no
          enough := fun yes => by rw [stopped] at yes; cases yes
          short := fun _ => ⟨fewer, by simp, fun last mem => by
            rw [List.getLast?_concat] at mem
            cases mem
            exact summary⟩ }⟩
    rw [if_neg summary]
    rw [List.append_assoc, List.singleton_append] at history
    have visible := Bool.eq_false_of_not_eq_true injection
    have ordinary := Bool.eq_false_of_not_eq_true summary
    have history' : (scan.remove before.length message).memory.history = before ++ after := by
      rcases Nat.lt_or_ge before.length scan.memory.tokenCountCoveredMessageCount with lt | le
      · rw [remove_covered history lt]
      · rw [remove_uncovered history le]
    by_cases real : message.isRealUserPrompt = true
    · rw [if_pos real]
      have counted : 1 = [message].countP (·.isRealUserPrompt) := by simp [real]
      have same : (scan.remove before.length message).removedUserCount = scan.removedUserCount :=
        rfl
      rw [same]
      by_cases last : count ≤ ((scan.removedUserCount + 1 : ℕ) : ℤ)
      · rw [if_pos last]
        have enough : canUndoScan count (before ++ [message]).reverse scan.removedUserCount =
            true := by
          rw [List.reverse_append, List.reverse_singleton, List.singleton_append, canUndoScan,
            if_neg injection, if_neg summary, if_pos real, if_pos last]
        have memory : (scan.remove before.length message).memory =
            scan.memory.without before [message] after := by
          have only : (scan.remove (before ++ []).length message).memory.without before [] after =
              scan.memory.without before ([] ++ [message]) after :=
            without_remove (by simpa using history) visible
          rw [List.append_nil, without_nil history'] at only
          exact only
        exact ⟨before, [message],
          { split := rfl, memory, found := congrArg (scan.removedUserCount + ·) counted
            reach := fun other mem => by
              obtain rfl := List.mem_singleton.1 mem
              exact ordinary
            enough := fun _ => ⟨running, by push_cast at last ⊢; omega, message, [], rfl, real⟩
            short := fun no => by rw [enough] at no; cases no }⟩
      · rw [if_neg last]
        obtain ⟨kept, removed, done⟩ := ih after
          { scan.remove before.length message with removedUserCount := scan.removedUserCount + 1 }
          history' running (not_le.1 last)
        refine ⟨kept, removed ++ [message], done_removed counted visible ordinary history done ?_⟩
        rw [canUndoScan, if_neg injection, if_neg summary, if_pos real, if_neg last]
    · rw [if_neg real]
      have counted : 0 = [message].countP (·.isRealUserPrompt) := by simp [real]
      obtain ⟨kept, removed, done⟩ := ih after (scan.remove before.length message) history' running
        fewer
      refine ⟨kept, removed ++ [message], done_removed counted visible ordinary history done ?_⟩
      rw [canUndoScan, if_neg injection, if_neg summary, if_neg real]
      rfl

theorem remove_history (i : ℕ) :
    (scan.remove i message).memory.history = scan.memory.history.eraseIdx i := by
  unfold remove
  dsimp only
  split <;> rfl

theorem loop_congr (count : ℤ) : ∀ (i : ℕ) (scan scan' : UndoScan),
    scan.memory.history = scan'.memory.history →
    scan.removedUserCount = scan'.removedUserCount →
    (loop count i scan).memory.history = (loop count i scan').memory.history
  | 0, _, _, history, _ => history
  | i + 1, scan, scan', history, found => by
    rw [loop, loop, history, found]
    cases scan'.memory.history[i]? with
    | none => exact loop_congr count i _ _ history found
    | some message =>
      have history' : (scan.remove i message).memory.history =
          (scan'.remove i message).memory.history := by
        rw [remove_history, remove_history, history]
      dsimp only
      split
      · exact loop_congr count i _ _ history found
      split
      · exact history
      split
      · have found' : (scan.remove i message).removedUserCount =
            (scan'.remove i message).removedUserCount := found
        rw [found']
        split
        · exact history'
        · exact loop_congr count i _ _ history' rfl
      · exact loop_congr count i _ _ history' found

end UndoScan

/-! ## Undo -/

namespace ContextMemory

variable {memory : ContextMemory} {call : ContextCall} {count : ℤ}

@[simp] theorem logRecord_history (record : ContextRecord) :
    (memory.logRecord call record).history = memory.history := by
  unfold logRecord
  split <;> rfl

theorem undo_done (call : ContextCall) (positive : 0 < count) (nonempty : memory.history ≠ []) :
    ∃ kept removed, memory.history = kept ++ removed ∧
      Undone count (canUndoHistory memory.history count) kept removed ∧
      (memory.undo call count).1 =
        { (memory.logRecord call (.undo count)).without kept removed [] with
          openSteps := [], pendingToolResultIds := [], deferredMessages := []
          cutoff := min (memory.logRecord call (.undo count)).cutoff
            (kept ++ removed.filter (·.isInjection)).length } ∧
      (memory.undo call count).2 =
        if call.restoring = false ∧ canUndoHistory memory.history count = false then
          some
            { message := formatUndoUnavailableMessage count
                (removed.countP (·.isRealUserPrompt) : ℕ) !kept.isEmpty
              requestedCount := count, undoableCount := removed.countP (·.isRealUserPrompt)
              stoppedAtCompaction := !kept.isEmpty }
        else none := by
  obtain ⟨kept, removed, done⟩ := UndoScan.loop_done count memory.history []
    { memory := memory.logRecord call (.undo count) } (by simp) rfl positive
  refine ⟨kept, removed, done.split, ⟨done.reach, ?_, ?_⟩, ?_⟩
  · intro complete
    obtain ⟨-, found, real⟩ := done.enough complete
    rw [done.found, Nat.zero_add] at found
    exact ⟨found, real⟩
  · intro incomplete
    obtain ⟨fewer, -, boundary⟩ := done.short incomplete
    rw [done.found, Nat.zero_add] at fewer
    exact ⟨fewer, boundary⟩
  have found := done.found
  rw [Nat.zero_add] at found
  rw [undo, if_neg (not_le.2 positive), if_neg (by simpa using nonempty)]
  dsimp only
  rw [logRecord_history]
  generalize UndoScan.loop count memory.history.length _ = result at done found ⊢
  rw [done.memory]
  have history : ((memory.logRecord call (.undo count)).without kept removed []).history =
      kept ++ removed.filter (·.isInjection) := List.append_nil _
  cases possible : canUndoHistory memory.history count with
  | true =>
    obtain ⟨running, reached, -⟩ := done.enough possible
    rw [if_neg (by rw [running, reached]; simp), if_neg (by simp), history]
    exact ⟨rfl, rfl⟩
  | false =>
    obtain ⟨fewer, stopped, -⟩ := done.short possible
    have failed : result.stoppedAtBoundary = true ∨ (result.removedUserCount : ℤ) < count :=
      .inr fewer
    by_cases live : call.restoring = false
    · rw [if_pos ⟨live, failed⟩, if_pos ⟨live, rfl⟩, found, stopped, history]
      exact ⟨rfl, rfl⟩
    · rw [if_neg fun both => live both.1, if_neg fun both => live both.1, history]
      exact ⟨rfl, rfl⟩

theorem undo_of_idle (idle : count ≤ 0 ∨ memory.history = []) :
    memory.undo call count = (memory, none) := by
  unfold undo
  split
  · rfl
  case isFalse positive =>
    rcases idle with no | empty
    · exact absurd no positive
    · rw [if_pos (by rw [empty]; rfl)]

/-- The history that an undo leaves does not depend on anything else in the memory. -/
theorem undo_history_congr {memory' : ContextMemory} {call' : ContextCall}
    (same : memory'.history = memory.history) :
    (memory'.undo call' count).1.history = (memory.undo call count).1.history := by
  unfold undo
  rw [same]
  split
  · exact same
  split
  · exact same
  dsimp only
  rw [logRecord_history, logRecord_history, same]
  have congr := UndoScan.loop_congr count memory.history.length
    { memory := memory'.logRecord call' (.undo count) }
    { memory := memory.logRecord call (.undo count) } (by simpa using same) rfl
  split <;> split <;> exact congr

theorem replay_undo {time : ℤ} {replayed : ContextMemory}
    (replay : replayContext memory.records = some replayed)
    (same : replayed.history = memory.history) :
    ∃ replayed', replayContext (memory.undo { time } count).1.records = some replayed' ∧
      replayed'.history = (memory.undo { time } count).1.history := by
  by_cases idle : count ≤ 0 ∨ memory.history = []
  · rw [undo_of_idle idle]
    exact ⟨replayed, replay, same⟩
  · rw [not_or, not_le] at idle
    obtain ⟨kept, removed, -, -, after, -⟩ := undo_done { time } idle.1 idle.2
    have records : (memory.undo { time } count).1.records =
        memory.records ++ [(.undo count, time)] := by
      rw [after]
      rfl
    refine ⟨(replayed.undo { restoring := true, time } count).1, ?_, undo_history_congr same⟩
    rw [records, replayContext, List.foldlM_append, ← replayContext, replay]
    rfl

/-- Through the session service an undo that is refused leaves all as it was. -/
theorem requestUndo_refused
    (refused : (requestUndo memory.history memory call count).2.isSome = true) :
    (requestUndo memory.history memory call count).1 = memory := by
  unfold requestUndo at refused ⊢
  split
  · rfl
  case isFalse possible =>
    rw [if_neg possible] at refused
    by_cases idle : count ≤ 0 ∨ memory.history = []
    · rw [undo_of_idle idle]
    · rw [not_or, not_le] at idle
      obtain ⟨_, _, -, -, -, error⟩ := undo_done call idle.1 idle.2
      rw [if_neg fun both => possible both.2] at error
      dsimp only at refused
      rw [error] at refused
      cases refused

/-- An undo throws exactly if its pre-check says no, and logs its record and removes all that it can
reach in either case; a resume and the session service see the same. -/
theorem undo_spec (memory : ContextMemory) (time count : ℤ) :
    (count ≤ 0 ∨ memory.history = [] → memory.undo { time } count = (memory, none)) ∧
      (0 < count → memory.history ≠ [] → ∃ kept removed,
        memory.history = kept ++ removed ∧
        Undone count (canUndoHistory memory.history count) kept removed ∧
        (memory.undo { time } count).1 =
          { memory.without kept removed [] with
            openSteps := [], pendingToolResultIds := [], deferredMessages := []
            cutoff := min memory.cutoff (kept ++ removed.filter (·.isInjection)).length
            records := memory.records ++ [(.undo count, time)] } ∧
        (memory.undo { time } count).2.isSome = !canUndoHistory memory.history count) ∧
      (∀ replayed, replayContext memory.records = some replayed →
        replayed.history = memory.history →
        ∃ replayed', replayContext (memory.undo { time } count).1.records = some replayed' ∧
          replayed'.history = (memory.undo { time } count).1.history) ∧
      ((requestUndo memory.history memory { time } count).2.isSome = true →
        (requestUndo memory.history memory { time } count).1 = memory) := by
  refine ⟨undo_of_idle, fun positive nonempty => ?_, fun _ => replay_undo, requestUndo_refused⟩
  obtain ⟨kept, removed, split, undone, after, error⟩ :=
    undo_done { time } positive nonempty
  refine ⟨kept, removed, split, undone, after, ?_⟩
  rw [error]
  cases canUndoHistory memory.history count <;> rfl

/-- A history of one prompt, asked to undo two. -/
def onePrompt : ContextMemory where
  history := [{ role := .user, content := [.text "hello"], toolCalls := [] }]

theorem undo_two_of_one : ¬∀ (memory : ContextMemory) (time count : ℤ),
    (memory.undo { time } count).2.isSome = true →
    (memory.undo { time } count).1.history = memory.history ∧
      (memory.undo { time } count).1.records = memory.records := by
  intro all
  have kept := (all onePrompt 0 2 rfl).1
  have length : (onePrompt.undo { time := 0 } 2).1.history.length = 0 := rfl
  rw [kept] at length
  cases length

end ContextMemory

end KimiCli
