import KimiCli.Agent.CanonicalArgs
import KimiCli.Kosong.Message
import KimiCli.Lib.OrderedMap
import Mathlib.Data.Finset.Insert
import Mathlib.Data.Finset.Erase

/-!
# Deduplication of tool calls

`agent-core/src/agent/turn/tool-dedup.ts`.  The calls of a step are registered in order and then
finalized in order, each finalization awaited before the next.  A call that repeats one of its own
step is not executed and gets the result of the first; a call that repeats the calls before it,
across steps, gets a reminder, and after enough repetitions ends the turn.
-/

namespace KimiCli

/-! ## Results and reminders -/

structure ExecutableToolResult where
  output : String ⊕ List ContentPart
  isError : Option Bool := none
  stopTurn : Option Bool := none
  message : Option String := none
  truncated : Option Bool := none

def reminderText1 : String :=
  "\n\n<system-reminder>\n" ++
  "You are repeating the exact same tool call with identical parameters." ++
  " Please carefully analyze the previous result. If the task is not yet complete," ++
  " try a different method or parameters instead of repeating the same call." ++
  "\n</system-reminder>"

def makeReminderText2 (toolName : String) (repeatCount : ℕ) (args : Json) : String :=
  let argsStr := canonicalTelemetryArgs args
  "\n\n<system-reminder>\n" ++
  "You have repeatedly called the same tool with identical parameters many times.\n" ++
  "Repeated tool call detected:\n" ++
  "- tool: " ++ toolName ++ "\n" ++
  "- repeated_times: " ++ toString repeatCount ++ "\n" ++
  "- arguments: " ++ argsStr ++ "\n" ++
  "The previous repeated calls did not make progress." ++
  " Do not call this exact same tool with the exact same arguments again.\n" ++
  "Carefully inspect the latest tool result and choose a different next action," ++
  " different parameters, or finish the task if enough evidence has been gathered." ++
  "\n</system-reminder>"

def reminderText3 : String :=
  "\n\n<system-reminder>\n" ++
  "You are stuck in a dead end" ++
  " and have repeatedly made the same function call without progress.\n" ++
  "Stop all function calls immediately. Do not call any tool in your next response.\n" ++
  "In analysis, review the current execution state and identify why progress is blocked.\n" ++
  "Then return a text-only summary to the user that reports the current problem," ++
  " what has already been tried, and what information or decision is needed next." ++
  "\n</system-reminder>"

def repeatReminder1Start : ℕ := 3
def repeatReminder2Start : ℕ := 5
def repeatReminder3Start : ℕ := 8
def repeatForceStopStreak : ℕ := 12

def makeKey (toolName : String) (args : Json) : String :=
  toolName ++ " " ++ canonicalTelemetryArgs args

/-- The text goes onto the last part if that is a text, else into a part of its own. -/
def appendReminderToParts (parts : List ContentPart) (reminderText : String) : List ContentPart :=
  match parts.getLast? with
  | some (.text text) => parts.dropLast ++ [.text (text ++ reminderText)]
  | _ => parts ++ [.text reminderText]

def appendReminder (result : ExecutableToolResult) (reminderText : String) :
    ExecutableToolResult :=
  { result with
    output :=
      match result.output with
      | .inl text => .inl (text ++ reminderText)
      | .inr parts => .inr (appendReminderToParts parts reminderText) }

def forceStopResult (result : ExecutableToolResult) (reminderText : String) :
    ExecutableToolResult :=
  { appendReminder result reminderText with stopTurn := some true }

def dedupPlaceholderResult : ExecutableToolResult := { output := .inl "" }

inductive RepeatAction
  | none | r1 | r2 | r3 | stop
  deriving DecidableEq

/-- A tracked `tool_call_repeat`. -/
structure ToolCallRepeat where
  toolName : String
  repeatCount : ℕ
  action : RepeatAction

/-- What an original call with this streak returns, and the tier that it falls in. -/
def remind (streak : ℕ) (toolName : String) (args : Json) (result : ExecutableToolResult) :
    ExecutableToolResult × RepeatAction :=
  if repeatForceStopStreak ≤ streak then (forceStopResult result reminderText3, .stop)
  else if repeatReminder3Start ≤ streak then (appendReminder result reminderText3, .r3)
  else if repeatReminder2Start ≤ streak then
    (appendReminder result (makeReminderText2 toolName streak args), .r2)
  else if repeatReminder1Start ≤ streak then (appendReminder result reminderText1, .r1)
  else (result, .none)

/-! ## The deduplicator -/

/-- A promise that is resolved from outside; only the first resolution counts. -/
structure Deferred where
  value : Option ExecutableToolResult := none

def Deferred.resolve (deferred : Deferred) (value : ExecutableToolResult) : Deferred :=
  ⟨deferred.value.or (some value)⟩

/-- What `finalizeResult` returns: a settled promise, or that of the deferred of a key. -/
inductive ResultPromise
  | settled (result : ExecutableToolResult)
  | deferred (key : String)

/-- The key that was counted last, and how many calls in a row had it. -/
structure Consecutive where
  key : Option String := none
  count : ℕ := 0

def Consecutive.next (consecutive : Consecutive) (key : String) : Consecutive :=
  if consecutive.key = some key then { consecutive with count := consecutive.count + 1 }
  else { key := some key, count := 1 }

structure ToolCallDeduplicator where
  stepDeferreds : OrderedMap String Deferred := ∅
  stepCalls : List String := []
  originalCallIndex : OrderedMap String ℕ := ∅
  syntheticCallIds : Finset String := ∅
  callKeyByCallId : OrderedMap String String := ∅
  /-- `consecutiveKey` and `consecutiveCount`. -/
  consecutive : Consecutive := {}

namespace ToolCallDeduplicator

/-- The promises that `beginStep` resolves with the error of a lost result: those that nothing has
resolved before. -/
def lost (dedup : ToolCallDeduplicator) : List String :=
  (dedup.stepDeferreds.entries.filter (·.2.value = none)).map Prod.fst

/-- The books of the step before are cleared. -/
def beginStep (dedup : ToolCallDeduplicator) : ToolCallDeduplicator :=
  { consecutive := dedup.consecutive }

def endStep (dedup : ToolCallDeduplicator) : ToolCallDeduplicator :=
  { dedup with consecutive := dedup.stepCalls.foldl Consecutive.next dedup.consecutive }

def checkSameStep (dedup : ToolCallDeduplicator) (toolCallId toolName : String) (args : Json) :
    Option ExecutableToolResult × ToolCallDeduplicator :=
  let key := makeKey toolName args
  let index := dedup.stepCalls.length
  let dedup := { dedup with
    stepCalls := dedup.stepCalls ++ [key]
    callKeyByCallId := dedup.callKeyByCallId.set toolCallId key }
  match dedup.stepDeferreds.get key with
  | some _ =>
    (some dedupPlaceholderResult,
      { dedup with syntheticCallIds := insert toolCallId dedup.syntheticCallIds })
  | none =>
    (none,
      { dedup with
        stepDeferreds := dedup.stepDeferreds.set key {}
        originalCallIndex := dedup.originalCallIndex.set toolCallId index })

/-- The streak that ends at the call with this index: the carried one, continued by the calls of
the step up to it. -/
def streak (dedup : ToolCallDeduplicator) (index : ℕ) : ℕ :=
  ((dedup.stepCalls.take (index + 1)).foldl Consecutive.next dedup.consecutive).count

/-- `this.stepDeferreds.get(key)?.resolve(result)`. -/
def resolve (dedup : ToolCallDeduplicator) (key : String) (result : ExecutableToolResult) :
    ToolCallDeduplicator :=
  match dedup.stepDeferreds.get key with
  | some deferred =>
    { dedup with stepDeferreds := dedup.stepDeferreds.set key (deferred.resolve result) }
  | none => dedup

/-- A promise, what was tracked, and the deduplicator after the call. -/
structure Finalization where
  promise : ResultPromise
  tracked : Option ToolCallRepeat := none
  dedup : ToolCallDeduplicator

def finalizeResult (dedup : ToolCallDeduplicator) (toolCallId toolName : String) (args : Json)
    (result : ExecutableToolResult) : Finalization :=
  match dedup.callKeyByCallId.get toolCallId with
  | none => { promise := .settled result, dedup }
  | some key =>
    let dedup := { dedup with callKeyByCallId := dedup.callKeyByCallId.delete toolCallId }
    if toolCallId ∈ dedup.syntheticCallIds then
      let dedup := { dedup with syntheticCallIds := dedup.syntheticCallIds.erase toolCallId }
      match dedup.stepDeferreds.get key with
      | none => { promise := .settled result, dedup }
      | some _ => { promise := .deferred key, dedup }
    else
      match dedup.originalCallIndex.get toolCallId with
      | none => { promise := .settled result, dedup }
      | some index =>
        let dedup :=
          { dedup with originalCallIndex := dedup.originalCallIndex.delete toolCallId }
        let streak := dedup.streak index
        let (finalResult, action) := remind streak toolName args result
        { promise := .settled finalResult
          tracked :=
            if 2 ≤ streak then some { toolName, repeatCount := streak, action } else none
          dedup := dedup.resolve key finalResult }

/-! ## A step of a turn -/

/-- What a promise has settled to, if it has. -/
def settledTo (dedup : ToolCallDeduplicator) : ResultPromise → Option ExecutableToolResult
  | .settled result => some result
  | .deferred key => (dedup.stepDeferreds.get key).bind (·.value)

end ToolCallDeduplicator

/-- A tool call of a step: as it is registered, and with the arguments and the result that the loop
has for it when it is finalized. -/
structure DedupCall where
  toolCallId : String
  toolName : String
  args : Json
  finalArgs : Json
  result : ExecutableToolResult

def DedupCall.key (call : DedupCall) : String := makeKey call.toolName call.args

/-- What becomes of a call. -/
structure CallOutcome where
  /-- What `checkSameStep` returned; the tool is executed when this is `null`. -/
  cached : Option ExecutableToolResult
  final : ExecutableToolResult
  tracked : Option ToolCallRepeat

namespace ToolCallDeduplicator

/-- The preparation loop of `runToolCallBatch`. -/
def checkAll (dedup : ToolCallDeduplicator) :
    List DedupCall → List (Option ExecutableToolResult) × ToolCallDeduplicator
  | [] => ([], dedup)
  | call :: calls =>
    let (cached, dedup) := dedup.checkSameStep call.toolCallId call.toolName call.args
    let (rest, dedup) := dedup.checkAll calls
    (cached :: rest, dedup)

/-- The second loop of `runToolCallBatch`, which awaits each promise before it goes on.  Only a
later finalization or the next `beginStep` could resolve a promise that is still pending, so the
loop then waits forever; this is `none`. -/
def finalizeAll (dedup : ToolCallDeduplicator) :
    List DedupCall →
      Option (List (ExecutableToolResult × Option ToolCallRepeat) × ToolCallDeduplicator)
  | [] => some ([], dedup)
  | call :: calls =>
    let finalization :=
      dedup.finalizeResult call.toolCallId call.toolName call.finalArgs call.result
    match finalization.dedup.settledTo finalization.promise with
    | none => none
    | some final =>
      (finalization.dedup.finalizeAll calls).map fun (rest, dedup) =>
        ((final, finalization.tracked) :: rest, dedup)

/-- The deduplicator after the calls of a new step have been registered. -/
def registered (dedup : ToolCallDeduplicator) (calls : List DedupCall) : ToolCallDeduplicator :=
  (dedup.beginStep.checkAll calls).2

def runStep (dedup : ToolCallDeduplicator) (calls : List DedupCall) :
    Option (List CallOutcome × ToolCallDeduplicator) :=
  let cached := (dedup.beginStep.checkAll calls).1
  ((dedup.registered calls).finalizeAll calls).map fun (finals, dedup) =>
    (cached.zipWith (fun cached final => ⟨cached, final.1, final.2⟩) finals, dedup.endStep)

/-- The steps of a turn. -/
def runSteps (dedup : ToolCallDeduplicator) :
    List (List DedupCall) → Option (List (List CallOutcome) × ToolCallDeduplicator)
  | [] => some ([], dedup)
  | calls :: steps =>
    (dedup.runStep calls).bind fun (outcomes, dedup) =>
      (dedup.runSteps steps).map fun (rest, dedup) => (outcomes :: rest, dedup)

end ToolCallDeduplicator

end KimiCli
