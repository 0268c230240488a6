import KimiCli.Context.Memory
import Mathlib.Algebra.Order.Floor.Defs
import Mathlib.Algebra.Order.Monoid.WithTop
import Mathlib.Data.List.Perm.Subperm
import Mathlib.Data.Rat.Floor

/-!
# The default compaction strategy

`agent-core/src/agent/compaction/strategy.ts`.  The strategy chooses how many of the oldest messages
are replaced by a summary.  Its three backward scans share one local test, which counts results; on
a well-formed history the test finds exactly the splits that keep every tool exchange whole.
Numbers are exact rationals, with `⊤` for `Infinity`.
-/

namespace KimiCli

/-! ## The strategy -/

structure CompactionConfig where
  maxRecentMessages : WithTop ℚ := 4
  maxRecentUserMessages : WithTop ℚ := ⊤
  maxRecentSizeRatio : ℚ := 1 / 5
  minOverflowReductionRatio : ℚ := 1 / 20

inductive CompactionSource
  | manual | auto

/-- An assistant message with tool calls. -/
def ContextMessage.callsTools (message : ContextMessage) : Bool :=
  message.role = .assistant && 0 < message.toolCalls.length

/-- The loop of `prefixEndsWithOpenToolExchange`, last message first. -/
def openToolExchange : List ContextMessage → ℕ → Bool
  | [], _ => false
  | message :: earlier, toolResultCount =>
    if message.role = .tool then openToolExchange earlier (toolResultCount + 1)
    else message.role = .assistant && toolResultCount < message.toolCalls.length

def prefixEndsWithOpenToolExchange (messages : List ContextMessage) (index : ℕ) : Bool :=
  if messages[index]?.any (·.role = .tool) then
    openToolExchange (messages.take (index + 1)).reverse 0
  else false

def canSplitAfter (messages : List ContextMessage) (index : ℕ) : Bool :=
  match messages[index]? with
  | none => false
  | some m =>
    if m.role = .user then false
    else if m.callsTools then false
    else if messages[index + 1]?.any (·.role = .tool) then false
    else if prefixEndsWithOpenToolExchange messages index then false
    else true

structure DefaultCompactionStrategy where
  maxSize : ℚ
  config : CompactionConfig := {}

/-- The state of the loop of the automatic rules. -/
structure RecentScan where
  recentMessages : ℕ := 1
  recentUserMessages : ℕ := 0
  recentSize : ℕ := 0
  bestN : Option ℕ := none

/-- The message before which the split would be goes to the recent ones. -/
def RecentScan.next (scan : RecentScan) (messages : List ContextMessage) (splitIndex : ℕ) :
    RecentScan :=
  let m2 := messages[splitIndex + 1]?
  let isUser := m2.any fun m => m.role = .user
  { scan with
    recentUserMessages :=
      if isUser then scan.recentUserMessages + 1 else scan.recentUserMessages
    recentSize := scan.recentSize + m2.elim 0 estimateTokensForMessage
    bestN := if canSplitAfter messages splitIndex then some (splitIndex + 1) else scan.bestN }

namespace DefaultCompactionStrategy

/-- The loop of a manual compaction, from the index `i` down to 1. -/
def manualCount (messages : List ContextMessage) : ℕ → Option ℕ
  | 0 => none
  | i + 1 => if canSplitAfter messages (i + 1) then some (i + 2) else manualCount messages i

def reachesMax (strategy : DefaultCompactionStrategy) (scan : RecentScan) : Bool :=
  strategy.config.maxRecentMessages ≤ ((scan.recentMessages : ℚ) : WithTop ℚ) ||
    strategy.config.maxRecentUserMessages ≤ ((scan.recentUserMessages : ℚ) : WithTop ℚ) ||
    strategy.maxSize * strategy.config.maxRecentSizeRatio ≤ scan.recentSize

/-- The loop of the automatic rules; the argument is `messages.length - recentMessages`, which is
the index of `m2` and one more than `splitIndex`. -/
def autoScan (strategy : DefaultCompactionStrategy) (messages : List ContextMessage) :
    ℕ → RecentScan → Option ℕ
  | 0, scan => scan.bestN
  | splitIndex + 1, scan =>
    let scan := scan.next messages splitIndex
    if strategy.reachesMax scan ∧ scan.bestN.isSome then scan.bestN
    else
      strategy.autoScan messages splitIndex
        { scan with recentMessages := scan.recentMessages + 1 }

/-- The second loop of `fitCompactCountToWindow`, for `n` from the first argument down to 1. -/
def fitScan (strategy : DefaultCompactionStrategy) (messages : List ContextMessage) :
    ℕ → ℤ → Option ℕ → Option ℕ
  | 0, _, bestN => bestN
  | n + 1, compactedSize, bestN =>
    let compactedSize :=
      compactedSize - (messages[n + 1]?.elim 0 estimateTokensForMessage : ℕ)
    if canSplitAfter messages n = false then strategy.fitScan messages n compactedSize bestN
    else if (compactedSize : ℚ) ≤ strategy.maxSize then some (n + 1)
    else strategy.fitScan messages n compactedSize (some (n + 1))

def fitCompactCountToWindow (strategy : DefaultCompactionStrategy)
    (messages : List ContextMessage) (compactedCount : ℕ) : ℕ :=
  if strategy.maxSize ≤ 0 ∨ compactedCount = 0 then compactedCount
  else
    let compactedSize := estimateTokensForMessages (messages.take compactedCount)
    if (compactedSize : ℚ) ≤ strategy.maxSize then compactedCount
    else
      (strategy.fitScan messages (compactedCount - 1) compactedSize none).getD compactedCount

/-- The count that is then fitted to the window. -/
def preferredCount (strategy : DefaultCompactionStrategy) (messages : List ContextMessage) :
    CompactionSource → ℕ
  | .manual => (manualCount messages (messages.length - 1)).getD 0
  | .auto => (strategy.autoScan messages (messages.length - 1) {}).getD 0

def computeCompactCount (strategy : DefaultCompactionStrategy) (messages : List ContextMessage)
    (source : CompactionSource) : ℕ :=
  strategy.fitCompactCountToWindow messages (strategy.preferredCount messages source)

/-- The loop of `reduceCompactOnOverflow`, from the index `i` down to 1. -/
def reduceScan (minReducedSize : ℤ) (messages : List ContextMessage) :
    ℕ → ℕ → Option ℕ → Option ℕ
  | 0, _, bestN => bestN
  | i + 1, reducedSize, bestN =>
    let reducedSize := reducedSize + messages[i + 2]?.elim 0 estimateTokensForMessage
    if canSplitAfter messages (i + 1) then
      if minReducedSize ≤ reducedSize then some (i + 2)
      else reduceScan minReducedSize messages i reducedSize (some (i + 2))
    else reduceScan minReducedSize messages i reducedSize bestN

def reduceCompactOnOverflow (strategy : DefaultCompactionStrategy)
    (messages : List ContextMessage) : ℕ :=
  let minReducedSize := max 1 ⌈strategy.maxSize * strategy.config.minOverflowReductionRatio⌉
  (reduceScan minReducedSize messages (messages.length - 2) 0 none).getD messages.length

end DefaultCompactionStrategy

/-! ## Well-formed histories and safe splits -/

/-- The ids that the results of an exchange answer. -/
def resultIds (results : List ContextMessage) : List (Option String) :=
  results.map (·.toolCallId)

/-- The ids that an assistant message asks results for. -/
def callIds (owner : ContextMessage) : List (Option String) :=
  owner.toolCalls.map fun call => some call.id

/-- `messages` holds the exchange of `owner` and these results, and nothing more of it. -/
structure ExchangeIn (messages before : List ContextMessage) (owner : ContextMessage)
    (results after : List ContextMessage) : Prop where
  split : messages = before ++ owner :: (results ++ after)
  calls : owner.callsTools = true
  results : ∀ result ∈ results, result.role = .tool
  closed : ∀ next ∈ after.head?, next.role ≠ .tool

/-- Tool messages come only directly after their assistant and answer different calls of it, and an
exchange that is not resolved is the end of the history.  An estimate counts at least the role. -/
structure WellFormed (messages : List ContextMessage) : Prop where
  owned : ∀ before tool after, messages = before ++ tool :: after → tool.role = .tool →
    ∃ earlier owner results, before = earlier ++ owner :: results ∧ owner.callsTools = true ∧
      ∀ result ∈ results, result.role = .tool
  matched : ∀ before owner results after, ExchangeIn messages before owner results after →
    (resultIds results).Subperm (callIds owner)
  resolved : ∀ before owner results after, ExchangeIn messages before owner results after →
    after ≠ [] → (resultIds results).Perm (callIds owner)
  counted : ∀ message ∈ messages, message.estimate ≠ some 0

/-- The first `n` messages may be replaced: they do not end in a user message or in tool calls, the
rest does not start with a result, and every call in them has its result in them. -/
structure SafeSplit (messages : List ContextMessage) (n : ℕ) : Prop where
  pos : 0 < n
  le : n ≤ messages.length
  last : ∀ message ∈ (messages.take n).getLast?,
    message.role ≠ .user ∧ message.callsTools = false
  next : ∀ message ∈ (messages.drop n).head?, message.role ≠ .tool
  whole : ∀ before owner results after, ExchangeIn (messages.take n) before owner results after →
    (resultIds results).Perm (callIds owner)

end KimiCli
