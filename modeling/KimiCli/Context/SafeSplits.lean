import KimiCli.Context.CompactionStrategy

/-!
# Every split of the default strategy is safe

On a well-formed history the local test of the strategy accepts exactly the safe splits.  So each of
its scans returns a safe split when it returns anything, and finds the ones it looks for.
-/

namespace KimiCli

variable {messages before results after : List ContextMessage} {owner : ContextMessage} {n : ℕ}

/-! ## Building well-formed histories -/

theorem role_of_callsTools (calls : owner.callsTools = true) : owner.role = .assistant :=
  of_decide_eq_true (Bool.and_eq_true_iff.1 calls).1

namespace WellFormed

theorem nil : WellFormed [] where
  owned before tool after split := absurd split.symm (by simp)
  matched before owner results after part := absurd part.split.symm (by simp)
  resolved before owner results after part := absurd part.split.symm (by simp)
  counted _ mem := nomatch mem

theorem plain {m : ContextMessage} (notTool : m.role ≠ .tool) (noCalls : m.callsTools = false)
    (counted : m.estimate ≠ some 0) (wf : WellFormed messages) : WellFormed (m :: messages) := by
  have behind {before results after : List ContextMessage} {owner : ContextMessage}
      (part : ExchangeIn (m :: messages) before owner results after) :
      ∃ before', ExchangeIn messages before' owner results after := by
    rcases before with _ | ⟨first, before⟩
    · obtain rfl := List.head_eq_of_cons_eq part.split
      exact absurd part.calls (by rw [noCalls]; exact nofun)
    · exact ⟨before, List.tail_eq_of_cons_eq part.split, part.calls, part.results, part.closed⟩
  refine ⟨fun before tool after split role => ?_, fun before owner results after part => ?_,
    fun before owner results after part rest => ?_, fun message mem => ?_⟩
  · rcases before with _ | ⟨first, before⟩
    · obtain rfl := List.head_eq_of_cons_eq split
      exact absurd role notTool
    · obtain ⟨earlier, owner, results, rfl, found⟩ :=
        wf.owned before tool after (List.tail_eq_of_cons_eq split) role
      exact ⟨first :: earlier, owner, results, rfl, found⟩
  · obtain ⟨before', part'⟩ := behind part
    exact wf.matched _ _ _ _ part'
  · obtain ⟨before', part'⟩ := behind part
    exact wf.resolved _ _ _ _ part' rest
  · rcases List.mem_cons.1 mem with rfl | inside
    · exact counted
    · exact wf.counted message inside

theorem results_unique {results' after' : List ContextMessage}
    (tools : ∀ result ∈ results, result.role = .tool)
    (closed : ∀ next ∈ after.head?, next.role ≠ .tool)
    (tools' : ∀ result ∈ results', result.role = .tool)
    (closed' : ∀ next ∈ after'.head?, next.role ≠ .tool)
    (same : results ++ after = results' ++ after') : results = results' ∧ after = after' := by
  rcases List.append_eq_append_iff.1 same with ⟨_ | ⟨next, more⟩, eq, rest⟩ |
    ⟨_ | ⟨next, more⟩, eq, rest⟩
  · exact ⟨by rw [eq, List.append_nil], rest⟩
  · exact absurd (tools' next (by rw [eq]; simp)) (closed next (by rw [rest]; rfl))
  · exact ⟨by rw [eq, List.append_nil], rest.symm⟩
  · exact absurd (tools next (by rw [eq]; simp)) (closed' next (by rw [rest]; rfl))

theorem exchange (results : List ContextMessage) (calls : owner.callsTools = true)
    (tools : ∀ result ∈ results, result.role = .tool)
    (closed : ∀ next ∈ messages.head?, next.role ≠ .tool)
    (matched : (resultIds results).Subperm (callIds owner))
    (resolved : messages ≠ [] → (resultIds results).Perm (callIds owner))
    (counted : ∀ message ∈ owner :: results, message.estimate ≠ some 0)
    (wf : WellFormed messages) : WellFormed (owner :: (results ++ messages)) := by
  -- a message behind the first one is a result or one of the rest
  have behind {before after : List ContextMessage} {first m : ContextMessage}
      (split : owner :: (results ++ messages) = first :: before ++ m :: after) :
      first = owner ∧ ((∃ between, results = before ++ m :: between) ∨
        ∃ before', before = results ++ before' ∧ messages = before' ++ m :: after) := by
    refine ⟨(List.head_eq_of_cons_eq split).symm, ?_⟩
    rcases List.append_eq_append_iff.1 (List.tail_eq_of_cons_eq split) with
      ⟨between, eq, rest⟩ | ⟨_ | ⟨next, between⟩, eq, rest⟩
    · exact .inr ⟨between, eq, rest⟩
    · exact .inr ⟨[], by rw [eq, List.append_nil, List.append_nil], rest.symm⟩
    · obtain rfl := List.head_eq_of_cons_eq rest
      exact .inl ⟨between, eq⟩
  have parts {before results' after : List ContextMessage} {owner' : ContextMessage}
      (part : ExchangeIn (owner :: (results ++ messages)) before owner' results' after) :
      owner' = owner ∧ results' = results ∧ after = messages ∨
        ∃ before', ExchangeIn messages before' owner' results' after := by
    have split := part.split
    rcases before with _ | ⟨first, before⟩
    · obtain ⟨rfl, rest⟩ := List.cons_eq_cons.1 split
      obtain ⟨rfl, rfl⟩ := results_unique tools closed part.results part.closed rest
      exact .inl ⟨rfl, rfl, rfl⟩
    · rcases (behind split).2 with ⟨between, eq⟩ | ⟨before', -, rest⟩
      · have tool := tools owner' (by rw [eq]; simp)
        rw [role_of_callsTools part.calls] at tool
        cases tool
      · exact .inr ⟨before', rest, part.calls, part.results, part.closed⟩
  refine ⟨fun before tool after split role => ?_, fun before owner' results' after part => ?_,
    fun before owner' results' after part rest => ?_, fun message mem => ?_⟩
  · rcases before with _ | ⟨first, before⟩
    · obtain rfl := List.head_eq_of_cons_eq split
      rw [role_of_callsTools calls] at role
      cases role
    · obtain ⟨rfl, ⟨between, eq⟩ | ⟨before', rfl, rest⟩⟩ := behind split
      · refine ⟨[], first, before, rfl, calls, fun result mem => tools result ?_⟩
        rw [eq]
        exact List.mem_append_left _ mem
      · obtain ⟨earlier, owner', results', rfl, found⟩ := wf.owned before' tool after rest role
        exact ⟨first :: (results ++ earlier), owner', results', by simp, found⟩
  · rcases parts part with ⟨rfl, rfl, rfl⟩ | ⟨before', part'⟩
    · exact matched
    · exact wf.matched _ _ _ _ part'
  · rcases parts part with ⟨rfl, rfl, rfl⟩ | ⟨before', part'⟩
    · exact resolved rest
    · exact wf.resolved _ _ _ _ part' rest
  · rw [← List.cons_append, List.mem_append] at mem
    rcases mem with inside | inside
    · exact counted message inside
    · exact wf.counted message inside

end WellFormed

/-! ## The local test -/

theorem openToolExchange_append (results earlier : List ContextMessage) (count : ℕ)
    (tools : ∀ result ∈ results, result.role = .tool) :
    openToolExchange (results ++ earlier) count =
      openToolExchange earlier (count + results.length) := by
  induction results generalizing count with
  | nil => rfl
  | cons result results ih =>
    rw [List.cons_append, openToolExchange, if_pos (tools _ List.mem_cons_self),
      ih _ fun other mem => tools other (List.mem_cons_of_mem _ mem), List.length_cons,
      Nat.add_assoc, Nat.add_comm 1]

theorem openToolExchange_exchange (calls : owner.callsTools = true)
    (tools : ∀ result ∈ results, result.role = .tool) :
    openToolExchange (before ++ owner :: results).reverse 0 =
      decide (results.length < owner.toolCalls.length) := by
  have role := role_of_callsTools calls
  rw [List.reverse_append, List.reverse_cons, List.append_assoc,
    openToolExchange_append _ _ _ fun result mem => tools result (List.mem_reverse.1 mem),
    List.singleton_append, openToolExchange, if_neg (by rw [role]; exact nofun), role,
    List.length_reverse, Nat.zero_add]
  simp

/-- What the test asks of the split before the message with index `n + 1`. -/
theorem canSplitAfter_iff : canSplitAfter messages n = true ↔ ∃ m ∈ messages[n]?,
    m.role ≠ .user ∧ m.callsTools = false ∧
      (∀ next ∈ messages[n + 1]?, next.role ≠ .tool) ∧
      (m.role = .tool → openToolExchange (messages.take (n + 1)).reverse 0 = false) := by
  unfold canSplitAfter prefixEndsWithOpenToolExchange
  cases here : messages[n]? with
  | none => simp
  | some m =>
    cases there : messages[n + 1]? <;> by_cases tool : m.role = .tool <;> simp [tool]

theorem take_succ_eq {m : ContextMessage} (here : messages[n]? = some m) :
    messages.take (n + 1) = messages.take n ++ [m] := by
  rw [List.take_add_one, here]
  rfl

theorem WellFormed.exchange_to (wf : WellFormed messages) {m : ContextMessage}
    (here : messages[n]? = some m) (tool : m.role = .tool) : ∃ earlier owner results,
      messages.take (n + 1) = earlier ++ owner :: (results ++ [m]) ∧ owner.callsTools = true ∧
        ∀ result ∈ results ++ [m], result.role = .tool := by
  have split : messages = messages.take n ++ m :: messages.drop (n + 1) := by
    rw [List.append_cons, ← take_succ_eq here, List.take_append_drop]
  obtain ⟨earlier, owner, results, eq, calls, tools⟩ := wf.owned _ _ _ split tool
  refine ⟨earlier, owner, results, ?_, calls, fun result mem => ?_⟩
  · rw [take_succ_eq here, eq, List.append_assoc]
    rfl
  · rcases List.mem_append.1 mem with inside | last
    · exact tools result inside
    · rwa [List.mem_singleton.1 last]

theorem length_callIds (owner : ContextMessage) :
    (callIds owner).length = owner.toolCalls.length := List.length_map ..

theorem length_resultIds (results : List ContextMessage) :
    (resultIds results).length = results.length := List.length_map ..

/-- A split that the local test accepts leaves every exchange of the prefix with all its results. -/
theorem WellFormed.safeSplit (wf : WellFormed messages) (can : canSplitAfter messages n = true) :
    SafeSplit messages (n + 1) := by
  obtain ⟨m, here, notUser, noCalls, next, resolved⟩ := canSplitAfter_iff.1 can
  have lt : n < messages.length := (List.getElem?_eq_some_iff.1 here).1
  refine ⟨n.succ_pos, lt, ?_, ?_, ?_⟩
  · rw [take_succ_eq here, List.getLast?_concat]
    rintro _ ⟨⟩
    exact ⟨notUser, noCalls⟩
  · rw [List.head?_drop]
    exact next
  · intro before owner results after part
    have whole : ExchangeIn messages before owner results (after ++ messages.drop (n + 1)) := by
      refine ⟨?_, part.calls, part.results, ?_⟩
      · calc messages = messages.take (n + 1) ++ messages.drop (n + 1) :=
              (List.take_append_drop ..).symm
          _ = _ := by rw [part.split]; simp
      · rw [List.head?_append]
        cases first : after.head? with
        | none =>
          rw [Option.none_or, List.head?_drop]
          exact next
        | some other =>
          rintro _ ⟨⟩
          exact part.closed other first
    by_cases rest : after ++ messages.drop (n + 1) = []
    · obtain ⟨rfl, atEnd⟩ := List.append_eq_nil_iff.1 rest
      -- the exchange ends the prefix: the test has counted its results
      have split := part.split
      rw [take_succ_eq here, List.append_nil] at split
      refine (wf.matched _ _ _ _ whole).perm_of_length_le ?_
      rw [length_callIds, length_resultIds]
      rcases List.eq_nil_or_concat results with rfl | ⟨earlier, last, rfl⟩
      · obtain rfl := List.head_eq_of_cons_eq (List.append_inj' split rfl).2
        rw [part.calls] at noCalls
        cases noCalls
      · rw [List.concat_eq_append, ← List.cons_append, ← List.append_assoc] at split
        obtain rfl := List.head_eq_of_cons_eq (List.append_inj' split rfl).2
        have counted := resolved (part.results m (by simp))
        rw [part.split, List.append_nil, openToolExchange_exchange part.calls part.results,
          decide_eq_false_iff_not, not_lt] at counted
        exact counted
    · exact wf.resolved _ _ _ _ whole rest

theorem WellFormed.canSplitAfter (wf : WellFormed messages) (safe : SafeSplit messages (n + 1)) :
    canSplitAfter messages n = true := by
  obtain ⟨m, here⟩ : ∃ m, messages[n]? = some m := ⟨_, List.getElem?_eq_getElem safe.le⟩
  obtain ⟨notUser, noCalls⟩ := safe.last m (by rw [take_succ_eq here, List.getLast?_concat]; rfl)
  have next := safe.next
  rw [List.head?_drop] at next
  refine canSplitAfter_iff.2 ⟨m, here, notUser, noCalls, next, fun tool => ?_⟩
  obtain ⟨earlier, owner, results, eq, calls, tools⟩ := wf.exchange_to here tool
  have part : ExchangeIn (messages.take (n + 1)) earlier owner (results ++ [m]) [] :=
    ⟨by rw [List.append_nil, eq], calls, tools, fun _ absent => nomatch absent⟩
  have length := (safe.whole _ _ _ _ part).length_eq
  rw [length_callIds, length_resultIds] at length
  rw [eq, openToolExchange_exchange calls tools, length]
  exact decide_eq_false (lt_irrefl _)

/-! ## Splits of a prefix -/

theorem safeSplit_take {k : ℕ} (lt : k < n) :
    SafeSplit (messages.take n) k ↔ SafeSplit messages k := by
  have front : (messages.take n).take k = messages.take k := by
    rw [List.take_take, Nat.min_eq_left lt.le]
  have back : ((messages.take n).drop k).head? = (messages.drop k).head? := by
    rw [List.head?_drop, List.head?_drop, List.getElem?_take_of_lt lt]
  constructor
  · intro safe
    have le := safe.le
    rw [List.length_take] at le
    exact ⟨safe.pos, le.trans (Nat.min_le_right ..), front ▸ safe.last, back ▸ safe.next,
      front ▸ safe.whole⟩
  · intro safe
    refine ⟨safe.pos, ?_, ?_, ?_, ?_⟩
    · rw [List.length_take]
      exact le_min lt.le safe.le
    · rw [front]
      exact safe.last
    · rw [back]
      exact safe.next
    · rw [front]
      exact safe.whole

theorem canSplitAfter_take {k : ℕ} (lt : k + 1 < n) :
    canSplitAfter (messages.take n) k = canSplitAfter messages k := by
  have front : (messages.take n).take (k + 1) = messages.take (k + 1) := by
    rw [List.take_take, Nat.min_eq_left lt.le]
  unfold KimiCli.canSplitAfter prefixEndsWithOpenToolExchange
  rw [front, List.getElem?_take_of_lt lt, List.getElem?_take_of_lt (Nat.lt_of_succ_lt lt)]

/-! ## The scans -/

namespace DefaultCompactionStrategy

variable {strategy : DefaultCompactionStrategy} {r : ℕ}

theorem manualCount_some {i : ℕ} (found : manualCount messages i = some r) :
    ∃ k ≤ i, r = k + 1 ∧ canSplitAfter messages k = true := by
  induction i with
  | zero => cases found
  | succ i ih =>
    rw [manualCount] at found
    split at found
    case isTrue can => exact ⟨i + 1, le_rfl, (Option.some.inj found).symm, can⟩
    case isFalse =>
      obtain ⟨k, le, rest⟩ := ih found
      exact ⟨k, Nat.le_succ_of_le le, rest⟩

theorem autoScan_some {i : ℕ} {scan : RecentScan}
    (found : strategy.autoScan messages i scan = some r) :
    scan.bestN = some r ∨ ∃ k < i, r = k + 1 ∧ canSplitAfter messages k = true := by
  induction i generalizing scan with
  | zero => exact .inl found
  | succ i ih =>
    have best (met : (scan.next messages i).bestN = some r) :
        scan.bestN = some r ∨ ∃ k < i + 1, r = k + 1 ∧ canSplitAfter messages k = true := by
      rw [RecentScan.next] at met
      dsimp only at met
      split at met
      case isTrue can => exact .inr ⟨i, i.lt_succ_self, (Option.some.inj met).symm, can⟩
      case isFalse => exact .inl met
    rw [autoScan] at found
    split at found
    · exact best found
    · rcases ih found with met | ⟨k, lt, rest⟩
      · exact best met
      · exact .inr ⟨k, Nat.lt_succ_of_lt lt, rest⟩

theorem fitScan_some {i : ℕ} {size : ℤ} {bestN : Option ℕ}
    (found : strategy.fitScan messages i size bestN = some r) :
    bestN = some r ∨ ∃ k < i, r = k + 1 ∧ canSplitAfter messages k = true := by
  induction i generalizing size bestN with
  | zero => exact .inl found
  | succ i ih =>
    have here (can : canSplitAfter messages i = true) (same : some (i + 1) = some r) :
        ∃ k < i + 1, r = k + 1 ∧ canSplitAfter messages k = true :=
      ⟨i, i.lt_succ_self, (Option.some.inj same).symm, can⟩
    have below (rest : ∃ k < i, r = k + 1 ∧ canSplitAfter messages k = true) :
        ∃ k < i + 1, r = k + 1 ∧ canSplitAfter messages k = true :=
      rest.imp fun k rest => ⟨Nat.lt_succ_of_lt rest.1, rest.2⟩
    rw [fitScan] at found
    split at found
    case isTrue => exact (ih found).imp_right below
    case isFalse can =>
      rw [Bool.not_eq_false] at can
      split at found
      · exact .inr (here can found)
      · rcases ih found with met | rest
        · exact .inr (here can met)
        · exact .inr (below rest)

/-- The size of the first messages. -/
abbrev sizeOf (messages : List ContextMessage) (n : ℕ) : ℕ :=
  estimateTokensForMessages (messages.take n)

theorem sizeOf_succ (n : ℕ) : sizeOf messages (n + 1) =
    sizeOf messages n + messages[n]?.elim 0 estimateTokensForMessage := by
  rw [sizeOf, sizeOf, estimateTokensForMessages, List.take_add_one, List.map_append,
    List.sum_append]
  cases messages[n]? <;> simp [estimateTokensForMessages]

theorem fitScan_fits (strategy : DefaultCompactionStrategy) {i : ℕ} (bestN : Option ℕ)
    (fits : ∃ k < i, canSplitAfter messages k = true ∧
      (sizeOf messages (k + 1) : ℚ) ≤ strategy.maxSize) :
    ∃ r, strategy.fitScan messages i (sizeOf messages (i + 1)) bestN = some r ∧
      (sizeOf messages r : ℚ) ≤ strategy.maxSize := by
  induction i generalizing bestN with
  | zero => exact absurd fits.choose_spec.1 (Nat.not_lt_zero _)
  | succ i ih =>
    obtain ⟨k, lt, can, small⟩ := fits
    have size : ((sizeOf messages (i + 1 + 1) : ℕ) : ℤ) -
        (messages[i + 1]?.elim 0 estimateTokensForMessage : ℕ) = (sizeOf messages (i + 1) : ℕ) := by
      rw [sizeOf_succ (i + 1)]
      push_cast
      ring
    rw [fitScan, size]
    split
    case isTrue refused =>
      refine ih _ ⟨k, ?_, can, small⟩
      refine Nat.lt_of_le_of_ne (Nat.le_of_lt_succ lt) ?_
      rintro rfl
      rw [can] at refused
      cases refused
    case isFalse =>
      split
      case isTrue small => exact ⟨i + 1, rfl, by exact_mod_cast small⟩
      case isFalse large =>
        refine ih _ ⟨k, ?_, can, small⟩
        refine Nat.lt_of_le_of_ne (Nat.le_of_lt_succ lt) ?_
        rintro rfl
        exact large (by exact_mod_cast small)

theorem reduceScan_some {minReducedSize : ℤ} {i reducedSize : ℕ} {bestN : Option ℕ}
    (found : reduceScan minReducedSize messages i reducedSize bestN = some r) :
    bestN = some r ∨ ∃ k ≤ i, 0 < k ∧ r = k + 1 ∧ canSplitAfter messages k = true := by
  induction i generalizing reducedSize bestN with
  | zero => exact .inl found
  | succ i ih =>
    have here (can : canSplitAfter messages (i + 1) = true) (same : some (i + 2) = some r) :
        ∃ k ≤ i + 1, 0 < k ∧ r = k + 1 ∧ canSplitAfter messages k = true :=
      ⟨i + 1, le_rfl, i.succ_pos, (Option.some.inj same).symm, can⟩
    have below (rest : ∃ k ≤ i, 0 < k ∧ r = k + 1 ∧ canSplitAfter messages k = true) :
        ∃ k ≤ i + 1, 0 < k ∧ r = k + 1 ∧ canSplitAfter messages k = true :=
      rest.imp fun k rest => ⟨Nat.le_succ_of_le rest.1, rest.2⟩
    rw [reduceScan] at found
    split at found
    case isTrue can =>
      split at found
      · exact .inr (here can found)
      · rcases ih found with met | rest
        · exact .inr (here can met)
        · exact .inr (below rest)
    case isFalse => exact (ih found).imp_right below

theorem reduceScan_isSome (minReducedSize : ℤ) {i : ℕ} (reducedSize : ℕ) (bestN : Option ℕ)
    (met : bestN.isSome = true ∨ ∃ k ≤ i, 0 < k ∧ canSplitAfter messages k = true) :
    (reduceScan minReducedSize messages i reducedSize bestN).isSome = true := by
  induction i generalizing reducedSize bestN with
  | zero =>
    rcases met with met | ⟨k, le, pos, -⟩
    · exact met
    · omega
  | succ i ih =>
    rw [reduceScan]
    split
    case isTrue =>
      split
      · rfl
      · exact ih _ _ (.inl rfl)
    case isFalse refused =>
      refine ih _ _ (met.imp_right fun ⟨k, le, pos, can⟩ => ⟨k, ?_, pos, can⟩)
      refine Nat.le_of_lt_succ (Nat.lt_of_le_of_ne le ?_)
      rintro rfl
      exact refused can

/-! ## The counts -/

theorem lt_length_of_canSplitAfter {k : ℕ} (can : canSplitAfter messages k = true) :
    k < messages.length := by
  obtain ⟨m, here, -⟩ := canSplitAfter_iff.1 can
  exact (List.getElem?_eq_some_iff.1 here).1

theorem preferredCount_cases (strategy : DefaultCompactionStrategy)
    (messages : List ContextMessage) (source : CompactionSource) :
    strategy.preferredCount messages source = 0 ∨
      ∃ k, strategy.preferredCount messages source = k + 1 ∧ canSplitAfter messages k = true ∧
        (source = .auto → k + 1 < messages.length) := by
  cases source with
  | manual =>
    cases found : manualCount messages (messages.length - 1) with
    | none => exact .inl (by rw [preferredCount, found]; rfl)
    | some =>
      obtain ⟨k, -, rfl, can⟩ := manualCount_some found
      exact .inr ⟨k, by rw [preferredCount, found]; rfl, can, nofun⟩
  | auto =>
    cases found : strategy.autoScan messages (messages.length - 1) {} with
    | none => exact .inl (by rw [preferredCount, found]; rfl)
    | some =>
      rcases autoScan_some found with zero | ⟨k, lt, rfl, can⟩
      · cases zero
      · exact .inr ⟨k, by rw [preferredCount, found]; rfl, can, fun _ => by omega⟩

theorem fitCompactCountToWindow_cases (count : ℕ) :
    strategy.fitCompactCountToWindow messages count = count ∨
      ∃ k < count - 1, strategy.fitCompactCountToWindow messages count = k + 1 ∧
        canSplitAfter messages k = true := by
  unfold fitCompactCountToWindow
  split
  · exact .inl rfl
  dsimp only
  split
  · exact .inl rfl
  cases found : strategy.fitScan messages (count - 1)
      (estimateTokensForMessages (messages.take count) : ℕ) none with
  | none => exact .inl rfl
  | some r =>
    rcases fitScan_some found with zero | ⟨k, lt, rfl, can⟩
    · cases zero
    · exact .inr ⟨k, lt, rfl, can⟩

theorem computeCompactCount_cases (source : CompactionSource) :
    strategy.computeCompactCount messages source = 0 ∨
      ∃ k, strategy.computeCompactCount messages source = k + 1 ∧ canSplitAfter messages k = true ∧
        (source = .auto → k + 1 < messages.length) := by
  rw [computeCompactCount]
  rcases strategy.fitCompactCountToWindow_cases (strategy.preferredCount messages source) with
    same | ⟨k, lt, eq, can⟩
  · rw [same]
    exact strategy.preferredCount_cases messages source
  · refine .inr ⟨k, eq, can, fun auto => ?_⟩
    rcases strategy.preferredCount_cases messages source with zero | ⟨k', eq', -, short⟩
    · omega
    · have shorter := short auto
      omega

theorem estimateTokensForMessage_pos {message : ContextMessage}
    (counted : message.estimate ≠ some 0) : 0 < estimateTokensForMessage message := by
  unfold estimateTokensForMessage
  cases cached : message.estimate with
  | none =>
    have role : 0 < estimateTokens message.role.text := by cases message.role <;> decide
    rw [Option.getD_none]
    omega
  | some =>
    rw [cached] at counted
    exact Nat.pos_of_ne_zero fun zero => counted (congrArg some zero)

theorem sizeOf_pos (wf : WellFormed messages) (pos : 0 < n) (le : n ≤ messages.length) :
    0 < sizeOf messages n := by
  obtain ⟨first, rest, rfl⟩ := List.exists_cons_of_length_pos (pos.trans_le le)
  obtain ⟨k, rfl⟩ := Nat.exists_eq_add_of_lt pos
  have counted := estimateTokensForMessage_pos (wf.counted first List.mem_cons_self)
  rw [sizeOf, estimateTokensForMessages, Nat.zero_add, List.take_succ_cons, List.map_cons,
    List.sum_cons]
  omega

theorem fitCompactCountToWindow_fits (wf : WellFormed messages) {count : ℕ}
    (large : strategy.maxSize < sizeOf messages count)
    (fits : ∃ k < count, SafeSplit messages k ∧ (sizeOf messages k : ℚ) ≤ strategy.maxSize) :
    (sizeOf messages (strategy.fitCompactCountToWindow messages count) : ℚ) ≤ strategy.maxSize := by
  obtain ⟨k, lt, safe, small⟩ := fits
  obtain ⟨k, rfl⟩ := Nat.exists_eq_succ_of_ne_zero safe.pos.ne'
  have pos : (0 : ℚ) < sizeOf messages (k + 1) := by
    exact_mod_cast sizeOf_pos wf safe.pos safe.le
  have window : ¬(strategy.maxSize ≤ 0 ∨ count = 0) := by
    rintro (small' | rfl)
    · exact absurd (pos.trans_le small) (not_lt.2 small')
    · exact absurd lt (Nat.not_lt_zero _)
  obtain ⟨r, found, within⟩ := fitScan_fits strategy none
    ⟨k, show k < count - 1 by omega, wf.canSplitAfter safe, small⟩
  rw [Nat.sub_add_cancel (Nat.pos_of_ne_zero fun zero => window (.inr zero))] at found
  rw [fitCompactCountToWindow, if_neg window, if_neg (not_le.2 large), found]
  exact within

theorem computeCompactCount_le (source : CompactionSource) :
    strategy.computeCompactCount messages source ≤ messages.length := by
  rcases strategy.computeCompactCount_cases source with zero | ⟨k, eq, can, -⟩
  · rw [zero]
    exact Nat.zero_le _
  · rw [eq]
    exact lt_length_of_canSplitAfter can

theorem reduceCompactOnOverflow_safe (wf : WellFormed messages) (safe : SafeSplit messages n) :
    SafeSplit messages (strategy.reduceCompactOnOverflow (messages.take n)) ∧
      strategy.reduceCompactOnOverflow (messages.take n) ≤ n ∧
      ((∃ k, 2 ≤ k ∧ k < n ∧ SafeSplit (messages.take n) k) →
        strategy.reduceCompactOnOverflow (messages.take n) < n) := by
  have length : (messages.take n).length = n := by
    rw [List.length_take, Nat.min_eq_left safe.le]
  unfold reduceCompactOnOverflow
  rw [length]
  dsimp only
  cases found : reduceScan (max 1 ⌈strategy.maxSize * strategy.config.minOverflowReductionRatio⌉)
      (messages.take n) (n - 2) 0 none with
  | none =>
    refine ⟨safe, le_rfl, fun ⟨k, two, lt, inner⟩ => ?_⟩
    obtain ⟨k, rfl⟩ := Nat.exists_eq_succ_of_ne_zero inner.pos.ne'
    have can : KimiCli.canSplitAfter (messages.take n) k = true := by
      rw [canSplitAfter_take lt]
      exact wf.canSplitAfter ((safeSplit_take lt).1 inner)
    have met := reduceScan_isSome
      (max 1 ⌈strategy.maxSize * strategy.config.minOverflowReductionRatio⌉) 0 none
      (.inr ⟨k, show k ≤ n - 2 by omega, by omega, can⟩)
    rw [found] at met
    cases met
  | some r =>
    rcases reduceScan_some found with zero | ⟨k, le, pos, rfl, can⟩
    · cases zero
    have shorter : k + 1 < n := by omega
    rw [canSplitAfter_take shorter] at can
    exact ⟨wf.safeSplit can, shorter.le, fun _ => shorter⟩

/-- The counts of the strategy on a well-formed history.  They are 0 or safe splits; a preferred
prefix that does not fit the window is replaced by one that does if there is any; and an overflow
reduces a safe prefix to a safe prefix, to a shorter one if it has a split. -/
theorem computeCompactCount_safe (strategy : DefaultCompactionStrategy)
    (wf : WellFormed messages) (source : CompactionSource) :
    strategy.computeCompactCount messages source ≤ messages.length ∧
      (source = .auto → messages ≠ [] →
        strategy.computeCompactCount messages source < messages.length) ∧
      (0 < strategy.computeCompactCount messages source →
        SafeSplit messages (strategy.computeCompactCount messages source)) ∧
      (strategy.maxSize < sizeOf messages (strategy.preferredCount messages source) →
        (∃ k < strategy.preferredCount messages source, SafeSplit messages k ∧
          (sizeOf messages k : ℚ) ≤ strategy.maxSize) →
        (sizeOf messages (strategy.computeCompactCount messages source) : ℚ) ≤ strategy.maxSize) ∧
      ∀ (later : DefaultCompactionStrategy) (n : ℕ), SafeSplit messages n →
        SafeSplit messages (later.reduceCompactOnOverflow (messages.take n)) ∧
          later.reduceCompactOnOverflow (messages.take n) ≤ n ∧
          ((∃ k, 2 ≤ k ∧ k < n ∧ SafeSplit (messages.take n) k) →
            later.reduceCompactOnOverflow (messages.take n) < n) := by
  refine ⟨computeCompactCount_le source, fun auto nonempty => ?_, fun pos => ?_,
    fitCompactCountToWindow_fits wf, fun later n => reduceCompactOnOverflow_safe wf⟩
  · rcases strategy.computeCompactCount_cases source with zero | ⟨k, eq, -, short⟩
    · rw [zero]
      exact List.length_pos_iff.2 nonempty
    · rw [eq]
      exact short auto
  · rcases strategy.computeCompactCount_cases source with zero | ⟨k, eq, can, -⟩
    · exact absurd zero pos.ne'
    · rw [eq]
      exact wf.safeSplit can

/-- A question, a tool call with its result, and an answer. -/
def answered : List ContextMessage :=
  [{ role := .user, content := [.text "question"], toolCalls := [] },
    { role := .assistant, content := [],
      toolCalls := [{ id := "a", name := "Read", arguments := none }] },
    { role := .tool, content := [.text "result"], toolCalls := [], toolCallId := some "a" },
    { role := .assistant, content := [.text "answer"], toolCalls := [] }]

theorem wellFormed_answered : WellFormed answered := by
  refine .plain (by decide) rfl (by decide) (.exchange [_] rfl (by decide) (by decide)
    (List.Subperm.refl _) (fun _ => .refl _) (by decide) ?_)
  exact .plain (by decide) rfl (by decide) .nil

theorem computeCompactCount_answered :
    let strategy : DefaultCompactionStrategy := ⟨100, {}⟩
    strategy.computeCompactCount answered .auto ≤ 4 ∧
      (CompactionSource.auto = .auto → answered ≠ [] →
        strategy.computeCompactCount answered .auto < 4) ∧
      (0 < strategy.computeCompactCount answered .auto →
        SafeSplit answered (strategy.computeCompactCount answered .auto)) :=
  have safe := computeCompactCount_safe ⟨100, {}⟩ wellFormed_answered .auto
  ⟨safe.1, safe.2.1, safe.2.2.1⟩

example : (⟨0, {}⟩ : DefaultCompactionStrategy).computeCompactCount answered .manual = 4 := by
  decide

/-- An empty history has no message to keep. -/
theorem computeCompactCount_nil : ¬∀ (strategy : DefaultCompactionStrategy)
    (messages : List ContextMessage), WellFormed messages →
      strategy.computeCompactCount messages .auto < messages.length := by
  intro always
  exact absurd (always ⟨0, {}⟩ [] .nil) (by decide)

end DefaultCompactionStrategy

end KimiCli
