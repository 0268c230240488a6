import KimiCli.Context.SafeSplits

/-!
# The strategy with protected messages

`agent-core/src/agent/compaction/smart-strategy.ts`.  From the count of the default strategy the
smart one walks back to a count with no protected message beside it.  It does not ask whether that
count is a safe split, and so can cut through a tool exchange.
-/

namespace KimiCli

/-! ## The strategy -/

/-- `text.includes(part)`. -/
def textIncludes (text part : String) : Bool := decide (part.toList <:+: text.toList)

/-- The texts of the content, joined. -/
def extractText (message : ContextMessage) : String :=
  String.join <| message.content.filterMap fun
    | .text text => some text
    | _ => none

def isProtectedMessage (message : ContextMessage) : Bool :=
  message.origin = some .injection || message.origin = some .systemTrigger ||
    message.origin = some .compactionSummary ||
    message.role = .user &&
      (textIncludes (extractText message) "<system-reminder>" ||
        textIncludes (extractText message) "<system>")

/-- One of the two messages beside the split is protected. -/
def isProtectedPrefix (messages : List ContextMessage) (n : ℕ) : Bool :=
  if n = 0 then false
  else if messages[n - 1]?.any isProtectedMessage then true
  else if messages[n]?.any isProtectedMessage then true
  else false

def findPreviousSafeSplit (messages : List ContextMessage) : ℕ → Option ℕ
  | 0 => none
  | i + 1 =>
    if isProtectedPrefix messages (i + 1) then findPreviousSafeSplit messages i else some (i + 1)

theorem findPreviousSafeSplit_some {messages : List ContextMessage} {i r : ℕ}
    (found : findPreviousSafeSplit messages i = some r) :
    0 < r ∧ r ≤ i ∧ isProtectedPrefix messages r = false ∧
      ∀ k, r < k → k ≤ i → isProtectedPrefix messages k = true := by
  induction i with
  | zero => cases found
  | succ i ih =>
    rw [findPreviousSafeSplit] at found
    split at found
    case isTrue prot =>
      obtain ⟨pos, le, free, above⟩ := ih found
      refine ⟨pos, Nat.le_succ_of_le le, free, fun k lt le => ?_⟩
      rcases Nat.le_succ_iff.1 le with below | rfl
      · exact above k lt below
      · exact prot
    case isFalse free =>
      cases found
      exact ⟨i.succ_pos, le_rfl, Bool.eq_false_iff.2 free, fun k lt le => absurd lt (not_lt.2 le)⟩

/-! ## The counts of the default strategy -/

namespace DefaultCompactionStrategy

variable {messages : List ContextMessage} {n : ℕ}

/-- A split that the default strategy may choose: one that passes its test or, where none inside the
history does, the one behind all of it. -/
def MayChoose (messages : List ContextMessage) (n : ℕ) : Prop :=
  canSplitAfter messages n = true ∨ n + 1 = messages.length ∧
    ∀ k, k + 1 < messages.length → 0 < k → canSplitAfter messages k = false

theorem sizeOf_le (messages : List ContextMessage) (n : ℕ) :
    sizeOf messages n ≤ estimateTokensForMessages messages := by
  calc sizeOf messages n ≤ sizeOf messages n + estimateTokensForMessages (messages.drop n) :=
        Nat.le_add_right _ _
    _ = estimateTokensForMessages (messages.take n ++ messages.drop n) := by
        simp only [estimateTokensForMessages, List.map_append, List.sum_append]
    _ = _ := by rw [List.take_append_drop]

/-- A strategy whose window holds everything and that keeps `recent` messages at most. -/
def keepsRecent (messages : List ContextMessage) (recent : ℕ) : DefaultCompactionStrategy where
  maxSize := estimateTokensForMessages messages + 1
  config := { maxRecentMessages := ((recent : ℚ) : WithTop ℚ), maxRecentSizeRatio := 1 }

theorem keepsRecent_reachesMax (recent : ℕ) {scan : RecentScan}
    (small : scan.recentSize ≤ estimateTokensForMessages messages) :
    (keepsRecent messages recent).reachesMax scan = decide (recent ≤ scan.recentMessages) := by
  have size : ¬((estimateTokensForMessages messages : ℚ) + 1 ≤ scan.recentSize) := by
    have : (scan.recentSize : ℚ) ≤ estimateTokensForMessages messages := by exact_mod_cast small
    linarith
  simp [reachesMax, keepsRecent, size]

theorem autoScan_keepsRecent (can : canSplitAfter messages n = true) {i : ℕ} {scan : RecentScan}
    (lt : n < i) (recent : scan.recentMessages + i = messages.length)
    (size : scan.recentSize + sizeOf messages (i + 1) = estimateTokensForMessages messages) :
    (keepsRecent messages (messages.length - (n + 1))).autoScan messages i scan =
      some (n + 1) := by
  induction i generalizing scan with
  | zero => omega
  | succ i ih =>
    have next : (scan.next messages i).recentSize + sizeOf messages (i + 1) =
        estimateTokensForMessages messages := by
      rw [sizeOf_succ (i + 1)] at size
      simp only [RecentScan.next]
      omega
    have reaches := keepsRecent_reachesMax (messages.length - (n + 1))
      (next ▸ Nat.le_add_right _ _)
    have same : (scan.next messages i).recentMessages = scan.recentMessages := rfl
    rw [autoScan, reaches, same]
    by_cases here : i = n
    · subst here
      rw [if_pos]
      · simp [RecentScan.next, can]
      · simp [RecentScan.next, can]
        omega
    · rw [if_neg]
      · exact ih (by omega) (by simp only; omega) next
      · simp
        omega

/-- Every split that the default strategy may choose is a count of one of the functions. -/
theorem exists_count (chosen : MayChoose messages n) :
    ∃ strategy : DefaultCompactionStrategy,
      (∃ source, strategy.computeCompactCount messages source = n + 1) ∨
        strategy.reduceCompactOnOverflow messages = n + 1 := by
  have fits (recent : ℕ) : (keepsRecent messages recent).fitCompactCountToWindow messages (n + 1) =
      n + 1 := by
    have le : (sizeOf messages (n + 1) : ℚ) ≤ (keepsRecent messages recent).maxSize := by
      have : (sizeOf messages (n + 1) : ℚ) ≤ estimateTokensForMessages messages := by
        exact_mod_cast sizeOf_le messages (n + 1)
      simp only [keepsRecent]
      linarith
    rw [fitCompactCountToWindow]
    split
    · rfl
    · exact if_pos le
  by_cases alone : n + 1 = messages.length ∧
      ∀ k, k + 1 < messages.length → 0 < k → canSplitAfter messages k = false
  · refine ⟨keepsRecent messages 0, .inr ?_⟩
    rw [reduceCompactOnOverflow]
    cases found : reduceScan _ messages (messages.length - 2) 0 none with
    | none => exact alone.1.symm
    | some =>
      rcases reduceScan_some found with no | ⟨k, le, pos, -, can⟩
      · cases no
      · rw [alone.2 k (by omega) pos] at can
        cases can
  · have can := chosen.resolve_right alone
    have lt := lt_length_of_canSplitAfter can
    refine ⟨keepsRecent messages (messages.length - (n + 1)), .inl ?_⟩
    by_cases last : n + 1 = messages.length
    · refine ⟨.manual, ?_⟩
      obtain - | n := n
      · exact absurd ⟨last, fun k inner pos => by omega⟩ alone
      · rw [computeCompactCount, preferredCount, ← last, Nat.add_sub_cancel, manualCount,
          if_pos can]
        exact fits _
    · refine ⟨.auto, ?_⟩
      rw [computeCompactCount, preferredCount, autoScan_keepsRecent can (by omega)]
      · exact fits _
      · simp only
        omega
      · simp only [Nat.zero_add]
        rw [sizeOf, List.take_of_length_le (by omega)]

/-- The counts are 0 or splits that the default strategy may choose. -/
theorem count_cases (strategy : DefaultCompactionStrategy) (messages : List ContextMessage) :
    (∀ source, strategy.computeCompactCount messages source = 0 ∨
      ∃ n, strategy.computeCompactCount messages source = n + 1 ∧ MayChoose messages n) ∧
      (strategy.reduceCompactOnOverflow messages = 0 ∨
        ∃ n, strategy.reduceCompactOnOverflow messages = n + 1 ∧ MayChoose messages n) := by
  refine ⟨fun source => ?_, ?_⟩
  · exact (strategy.computeCompactCount_cases source).imp_right
      fun ⟨n, eq, can, _⟩ => ⟨n, eq, .inl can⟩
  · rw [reduceCompactOnOverflow]
    cases found : reduceScan (max 1 ⌈strategy.maxSize * strategy.config.minOverflowReductionRatio⌉)
        messages (messages.length - 2) 0 none with
    | none =>
      rw [Option.getD_none]
      rcases Nat.eq_zero_or_pos messages.length with zero | pos
      · exact .inl zero
      · refine .inr ⟨messages.length - 1, by omega, .inr ⟨by omega, fun k inner lt => ?_⟩⟩
        by_contra can
        have met : (reduceScan _ messages (messages.length - 2) 0 none).isSome = true :=
          reduceScan_isSome (max 1 ⌈strategy.maxSize * strategy.config.minOverflowReductionRatio⌉)
            0 none (.inr ⟨k, by omega, lt, by simpa using can⟩)
        rw [found] at met
        cases met
    | some r =>
      rcases reduceScan_some found with no | ⟨k, -, -, rfl, can⟩
      · cases no
      · exact .inr ⟨k, rfl, .inl can⟩

end DefaultCompactionStrategy

structure SmartCompactionStrategy extends DefaultCompactionStrategy

namespace SmartCompactionStrategy

open DefaultCompactionStrategy (MayChoose count_cases exists_count)

/-- The loop that both functions end with, from the count of the default strategy. -/
def avoidProtected (messages : List ContextMessage) (safeN : ℕ) : ℕ :=
  if 0 < safeN ∧ isProtectedPrefix messages safeN then
    match _found : findPreviousSafeSplit messages (safeN - 1) with
    | none => 0
    | some prevSafe => avoidProtected messages prevSafe
  else safeN
termination_by safeN
decreasing_by
  have below := (findPreviousSafeSplit_some _found).2.1
  omega

def computeCompactCount (strategy : SmartCompactionStrategy) (messages : List ContextMessage)
    (source : CompactionSource) : ℕ :=
  let defaultN := strategy.toDefaultCompactionStrategy.computeCompactCount messages source
  if defaultN = 0 then 0 else avoidProtected messages defaultN

def reduceCompactOnOverflow (strategy : SmartCompactionStrategy)
    (messages : List ContextMessage) : ℕ :=
  let defaultN := strategy.toDefaultCompactionStrategy.reduceCompactOnOverflow messages
  if defaultN = 0 then 0 else avoidProtected messages defaultN

/-! ## Where the walk ends -/

variable {messages : List ContextMessage} {n count : ℕ}

theorem avoidProtected_of_free (free : isProtectedPrefix messages n = false) :
    avoidProtected messages n = n := by
  rw [avoidProtected, if_neg fun both => Bool.eq_false_iff.1 free both.2]

/-- The walk ends at the last count up to the given one that has no protected neighbour. -/
theorem avoidProtected_eq (messages : List ContextMessage) (n : ℕ) :
    avoidProtected messages n = (findPreviousSafeSplit messages n).getD 0 := by
  cases n with
  | zero => exact avoidProtected_of_free rfl
  | succ i =>
    rw [findPreviousSafeSplit]
    by_cases prot : isProtectedPrefix messages (i + 1) = true
    · rw [avoidProtected, if_pos ⟨i.succ_pos, prot⟩, if_pos prot, Nat.add_sub_cancel]
      split
      case h_1 absent => rw [absent, Option.getD_none]
      case h_2 prev found =>
        rw [found, Option.getD_some]
        exact avoidProtected_of_free (findPreviousSafeSplit_some found).2.2.1
    · rw [if_neg prot, Option.getD_some]
      exact avoidProtected_of_free (Bool.eq_false_iff.2 prot)

theorem ite_avoidProtected (messages : List ContextMessage) (n : ℕ) :
    (if n = 0 then 0 else avoidProtected messages n) =
      (findPreviousSafeSplit messages n).getD 0 := by
  split
  case isTrue zero =>
    rw [zero]
    rfl
  case isFalse => exact avoidProtected_eq messages n

/-- What the strategy is for: nothing is compacted, or the split is safe and both messages beside it
are unprotected. -/
def Protects (messages : List ContextMessage) (n : ℕ) : Prop :=
  n = 0 ∨ SafeSplit messages n ∧
    (∀ message ∈ messages[n - 1]?, isProtectedMessage message = false) ∧
      ∀ message ∈ messages[n]?, isProtectedMessage message = false

/-- What has to be so around the protected messages for the walk to keep tool exchanges whole. -/
structure ApartFromProtected (messages : List ContextMessage) : Prop where
  /-- Of two unprotected messages behind which every split touches a protected one, up to one that
  the default strategy may choose, the first is of no user and calls no tool, and the second is no
  result. -/
  between : ∀ n, MayChoose messages n → ∀ r < n, ∀ a ∈ messages[r]?, ∀ b ∈ messages[r + 1]?,
    isProtectedMessage a = false → isProtectedMessage b = false →
      (∀ k, k ≤ n → r < k → isProtectedPrefix messages (k + 1) = true) →
        a.role ≠ .user ∧ a.callsTools = false ∧ b.role ≠ .tool
  /-- Where only the whole history may be chosen, it does not end in an unprotected message after
  which it must not be split. -/
  last : ∀ n, n + 1 = messages.length → MayChoose messages n →
    (∀ a ∈ messages[n]?, isProtectedMessage a = false) → canSplitAfter messages n = true

theorem isProtectedPrefix_eq_false : isProtectedPrefix messages (n + 1) = false ↔
    (∀ message ∈ messages[n]?, isProtectedMessage message = false) ∧
      ∀ message ∈ messages[n + 1]?, isProtectedMessage message = false := by
  rw [isProtectedPrefix, if_neg n.succ_ne_zero, Nat.add_sub_cancel]
  cases messages[n]? <;> cases messages[n + 1]? <;> simp

theorem canSplitAfter_of_beside (wf : WellFormed messages) {a b : ContextMessage}
    (here : messages[n]? = some a) (next : messages[n + 1]? = some b) (notUser : a.role ≠ .user)
    (noCalls : a.callsTools = false) (notTool : b.role ≠ .tool) :
    canSplitAfter messages n = true := by
  refine canSplitAfter_iff.2 ⟨a, here, notUser, noCalls, ?_, fun tool => ?_⟩
  · rw [next]
    rintro _ ⟨⟩
    exact notTool
  · obtain ⟨earlier, owner, results, eq, calls, tools⟩ := wf.exchange_to here tool
    have after : messages.drop (n + 1) ≠ [] := by
      simpa using (List.getElem?_eq_some_iff.1 next).1
    have part : ExchangeIn messages earlier owner (results ++ [a]) (messages.drop (n + 1)) := by
      refine ⟨?_, calls, tools, ?_⟩
      · calc messages = messages.take (n + 1) ++ messages.drop (n + 1) :=
              (List.take_append_drop ..).symm
          _ = _ := by rw [eq]; simp
      · rw [List.head?_drop, next]
        rintro _ ⟨⟩
        exact notTool
    have length := (wf.resolved _ _ _ _ part after).length_eq
    rw [length_callIds, length_resultIds] at length
    rw [eq, openToolExchange_exchange calls tools, length]
    exact decide_eq_false (lt_irrefl _)

theorem protects_of_apart (wf : WellFormed messages) (apart : ApartFromProtected messages)
    (chosen : MayChoose messages n) :
    Protects messages ((findPreviousSafeSplit messages (n + 1)).getD 0) := by
  cases found : findPreviousSafeSplit messages (n + 1) with
  | none => exact .inl rfl
  | some r =>
    obtain ⟨pos, le, free, above⟩ := findPreviousSafeSplit_some found
    obtain ⟨r, rfl⟩ := Nat.exists_eq_succ_of_ne_zero pos.ne'
    have beside := isProtectedPrefix_eq_false.1 free
    refine .inr ⟨wf.safeSplit ?_, beside⟩
    have within : n < messages.length := by
      rcases chosen with can | ⟨whole, -⟩
      · exact DefaultCompactionStrategy.lt_length_of_canSplitAfter can
      · omega
    rcases Nat.lt_or_ge r n with lt | ge
    · have here := List.getElem?_eq_getElem (l := messages) (i := r) (by omega)
      have next := List.getElem?_eq_getElem (l := messages) (i := r + 1) (by omega)
      obtain ⟨notUser, noCalls, notTool⟩ := apart.between n chosen r lt _ here _ next
        (beside.1 _ here) (beside.2 _ next) fun k upto lt => above (k + 1) (by omega) (by omega)
      exact canSplitAfter_of_beside wf here next notUser noCalls notTool
    · obtain rfl : r = n := by omega
      rcases chosen with can | ⟨whole, inner⟩
      · exact can
      · exact apart.last r whole (.inr ⟨whole, inner⟩) beside.1

/-- The end of the walk, where the messages after it keep it going. -/
theorem findPreviousSafeSplit_eq {r : ℕ} (le : r ≤ n)
    (free : isProtectedPrefix messages (r + 1) = false)
    (above : ∀ k, k ≤ n → r < k → isProtectedPrefix messages (k + 1) = true) :
    findPreviousSafeSplit messages (n + 1) = some (r + 1) := by
  induction n with
  | zero =>
    obtain rfl : r = 0 := by omega
    rw [findPreviousSafeSplit, if_neg (by simp [free])]
  | succ n ih =>
    rw [findPreviousSafeSplit]
    rcases Nat.lt_or_ge n r with gt | le'
    · obtain rfl : r = n + 1 := by omega
      rw [if_neg (by simp [free])]
    · rw [if_pos (above (n + 1) le_rfl (by omega))]
      exact ih le' fun k upto lt => above k (by omega) lt

/-- Both functions keep tool exchanges whole, for every configuration and both sources, exactly when
the messages around the protected ones do not let the walk end inside an exchange. -/
theorem protects_counts_iff (wf : WellFormed messages) :
    (∀ strategy : SmartCompactionStrategy,
      (∀ source, Protects messages (strategy.computeCompactCount messages source)) ∧
        Protects messages (strategy.reduceCompactOnOverflow messages)) ↔
      ApartFromProtected messages := by
  constructor
  · intro always
    have walks (n : ℕ) (chosen : MayChoose messages n) :
        Protects messages ((findPreviousSafeSplit messages (n + 1)).getD 0) := by
      obtain ⟨strategy, ⟨source, eq⟩ | eq⟩ := exists_count chosen
      · have protects := (always ⟨strategy⟩).1 source
        rwa [computeCompactCount, ite_avoidProtected, eq] at protects
      · have protects := (always ⟨strategy⟩).2
        rwa [reduceCompactOnOverflow, ite_avoidProtected, eq] at protects
    refine ⟨fun n chosen r lt a here b next freeA freeB above => ?_, fun n whole chosen free => ?_⟩
    · have safe := walks n chosen
      rw [findPreviousSafeSplit_eq lt.le (isProtectedPrefix_eq_false.2 ⟨?_, ?_⟩) above] at safe
      · obtain no | ⟨safe, -⟩ := safe
        · cases no
        · obtain ⟨a', here', notUser, noCalls, notTool, -⟩ :=
            canSplitAfter_iff.1 (wf.canSplitAfter safe)
          cases here.symm.trans here'
          exact ⟨notUser, noCalls, notTool b next⟩
      · rw [here]
        rintro _ ⟨⟩
        exact freeA
      · rw [next]
        rintro _ ⟨⟩
        exact freeB
    · have safe := walks n chosen
      have noNext : messages[n + 1]? = none := List.getElem?_eq_none (by omega)
      rw [findPreviousSafeSplit_eq le_rfl (isProtectedPrefix_eq_false.2 ⟨free, by simp [noNext]⟩)
        fun k upto lt => by omega] at safe
      obtain no | ⟨safe, -⟩ := safe
      · cases no
      · exact wf.canSplitAfter safe
  · intro apart strategy
    obtain ⟨compute, reduce⟩ := count_cases strategy.toDefaultCompactionStrategy messages
    refine ⟨fun source => ?_, ?_⟩
    · rw [computeCompactCount, ite_avoidProtected]
      rcases compute source with zero | ⟨n, eq, chosen⟩
      · exact .inl (by rw [zero]; rfl)
      · exact eq ▸ protects_of_apart wf apart chosen
    · rw [reduceCompactOnOverflow, ite_avoidProtected]
      rcases reduce with zero | ⟨n, eq, chosen⟩
      · exact .inl (by rw [zero]; rfl)
      · exact eq ▸ protects_of_apart wf apart chosen

/-- A call with its result, and a reminder behind two more messages. -/
def reminded : List ContextMessage :=
  [{ role := .assistant, content := [],
      toolCalls := [{ id := "a", name := "Read", arguments := none }] },
    { role := .tool, content := [.text "result"], toolCalls := [], toolCallId := some "a" },
    { role := .assistant, content := [.text "found"], toolCalls := [] },
    { role := .assistant, content := [.text "answer"], toolCalls := [] },
    { role := .user, content := [.text "plan"], toolCalls := [], origin := some .injection }]

theorem wellFormed_reminded : WellFormed reminded := by
  refine .exchange [_] rfl (by decide) (by decide) (List.Subperm.refl _) (fun _ => .refl _)
    (by decide) ?_
  exact .plain (by decide) rfl (by decide) <| .plain (by decide) rfl (by decide) <|
    .plain (by decide) rfl (by decide) .nil

theorem protects_reminded : ApartFromProtected reminded ∧
    ∀ strategy : SmartCompactionStrategy,
      (∀ source, Protects reminded (strategy.computeCompactCount reminded source)) ∧
        Protects reminded (strategy.reduceCompactOnOverflow reminded) := by
  have short (n : ℕ) (chosen : MayChoose reminded n) : n < 5 := by
    rcases chosen with can | ⟨whole, -⟩
    · exact DefaultCompactionStrategy.lt_length_of_canSplitAfter can
    · exact Nat.lt_of_succ_le (Nat.le_of_eq whole)
  have edges : ∀ r < 4, isProtectedPrefix reminded (r + 2) = true → r = 2 ∨ r = 3 := by
    decide
  suffices apart : ApartFromProtected reminded from
    ⟨apart, (protects_counts_iff wellFormed_reminded).2 apart⟩
  refine ⟨?_, ?_⟩
  · intro n chosen r lt a here b next _ freeB above
    have four : r < 4 := Nat.lt_of_lt_of_le lt (Nat.le_of_lt_succ (short n chosen))
    obtain rfl | rfl := edges r four (above (r + 1) lt r.lt_succ_self)
    · cases here
      cases next
      exact ⟨by decide, rfl, by decide⟩
    · cases next
      exact absurd freeB (by decide)
  · intro n whole _ free
    obtain rfl : n = 4 := Nat.succ.inj whole
    exact absurd (free _ rfl) (by decide)

/-- Two calls in parallel with their results, and an answer between two reminders. -/
def remindedTwice : List ContextMessage :=
  let reminder : ContextMessage :=
    { role := .user, content := [.text "plan"], toolCalls := [], origin := some .injection }
  let result (id : String) : ContextMessage :=
    { role := .tool, content := [.text "result"], toolCalls := [], toolCallId := some id }
  [{ role := .assistant, content := [],
      toolCalls := ["a", "b"].map fun id => { id, name := "Read", arguments := none } },
    result "a", result "b", reminder,
    { role := .assistant, content := [.text "answer"], toolCalls := [] }, reminder]

/-- The walk back from the answer ends between the two results. -/
theorem computeCompactCount_remindedTwice : ¬∀ (strategy : SmartCompactionStrategy)
    (messages : List ContextMessage) (source : CompactionSource), WellFormed messages →
      Protects messages (strategy.computeCompactCount messages source) := by
  intro always
  have count : (SmartCompactionStrategy.mk ⟨0, {}⟩).computeCompactCount remindedTwice .manual =
      2 := by
    rw [computeCompactCount, ite_avoidProtected]
    decide
  have wf : WellFormed remindedTwice := by
    refine .exchange [_, _] rfl (by decide) (by decide) (List.Subperm.refl _) (fun _ => .refl _)
      (by decide) ?_
    exact .plain (by decide) rfl (by decide) <| .plain (by decide) rfl (by decide) <|
      .plain (by decide) rfl (by decide) .nil
  rcases always ⟨⟨0, {}⟩⟩ remindedTwice .manual wf with zero | ⟨safe, -⟩
  · rw [count] at zero
    cases zero
  · rw [count] at safe
    exact absurd (safe.next _ rfl) (by decide)

end SmartCompactionStrategy

end KimiCli
