import Mathlib.Data.Set.Function
import KimiCli.Kosong.Message
import KimiCli.Js.Text
import KimiCli.Lib.NameSupply
import KimiCli.Lib.OrderedMap

/-!
# Tool call ids for a provider

`kosong/src/providers/tool-call-id.ts`: before a history is sent, its tool call ids are rewritten to
what the provider accepts.  An id that is accepted as it is keeps its text; the others are cut down,
and numbered where the result is taken.
-/

namespace KimiCli

structure ToolCallIdPolicy where
  normalize : String → String
  maxLength : Option ℕ

def emptyToolCallId : String := "tool_call"

/-- What `TOOL_CALL_ID_SAFE_CHARS` does not match: ASCII letters, digits, `_` and `-`. -/
def isSafeIdChar (c : Char) : Bool := c.isAlphanum || c = '_' || c = '-'

/-- `slice(0, n)` by code units; half of a pair of surrogates is left out. -/
def takeUnits : ℕ → List Char → List Char
  | _, [] => []
  | n, c :: cs => if utf16Length [c] ≤ n then c :: takeUnits (n - utf16Length [c]) cs else []

/-- `replace(TOOL_CALL_ID_SAFE_CHARS, '_')`: the pattern matches single code units, so that a pair
of surrogates becomes `__`. -/
def replaceUnsafe (id : List Char) : List Char :=
  id.flatMap fun c => if isSafeIdChar c then [c] else List.replicate (utf16Length [c]) '_'

def sanitizeToolCallId (id : String) (maxLength : Option ℕ) : String :=
  String.ofList (match maxLength with
    | none => replaceUnsafe id.toList
    | some maxLength => takeUnits maxLength (replaceUnsafe id.toList))

def sanitizeOpenAIResponsesCallId (id : String) (maxLength : Option ℕ) : String :=
  sanitizeToolCallId (String.ofList (id.toList.takeWhile (· != '|'))) maxLength

def truncateToolCallId (base : String) (maxLength : Option ℕ) (suffix : String) :
    Except String String :=
  match maxLength with
  | none => .ok (base ++ suffix)
  | some maxLength =>
    let suffixLength := utf16Length suffix.toList
    if maxLength ≤ suffixLength then
      .error s!"Tool call id maxLength {maxLength} is too small for suffix {suffix}."
    else .ok (String.ofList (takeUnits (maxLength - suffixLength) base.toList) ++ suffix)

/-- The number that tells an id from the others that are cut down to the same text. -/
def toolCallIdSuffix (i : ℕ) : String := "_" ++ toString i

theorem toolCallIdSuffix_toList (i : ℕ) :
    (toolCallIdSuffix i).toList = '_' :: Nat.toDigits 10 i := by
  rw [toolCallIdSuffix, String.toList_append, Nat.toString_eq_repr, Nat.toList_repr]
  rfl

variable {suffix id : String} {maxLength : Option ℕ} {j i : ℕ}

theorem truncateToolCallId_eq_ok {base : String}
    (found : truncateToolCallId base maxLength suffix = .ok id) :
    ∃ start, id = start ++ suffix := by
  unfold truncateToolCallId at found
  split at found
  · exact ⟨base, (Except.ok.inj found).symm⟩
  · dsimp only at found
    split at found
    · cases found
    · exact ⟨_, (Except.ok.inj found).symm⟩

theorem append_toolCallIdSuffix_inj {start start' : String}
    (same : start ++ toolCallIdSuffix i = start' ++ toolCallIdSuffix j) : i = j := by
  have lists := congrArg (fun id => (id.toList.reverse).takeWhile (· != '_')) same
  have last (start : String) (i : ℕ) :
      (start ++ toolCallIdSuffix i).toList.reverse.takeWhile (· != '_') =
        (Nat.toDigits 10 i).reverse := by
    rw [String.toList_append, toolCallIdSuffix_toList, List.reverse_append, List.reverse_cons,
      List.append_assoc, List.takeWhile_append_of_pos]
    · simp
    · intro c mem
      have digit := Nat.isDigit_of_mem_toDigits (b := 10) (by decide) (by decide)
        (List.mem_reverse.1 mem)
      rw [bne_iff_ne]
      rintro rfl
      cases digit
  rw [last, last] at lists
  rw [← Nat.ofDigitChars_ten_toDigits (n := i), ← Nat.ofDigitChars_ten_toDigits (n := j),
    List.reverse_injective lists]

/-- The numbered ids that the loop of `makeUniqueToolCallId` tries. -/
def suffixedIds (base : String) (maxLength : Option ℕ) : NameSupply String String where
  candidate i := truncateToolCallId base maxLength (toolCallIdSuffix i)
  distinct i j id first second := by
    obtain ⟨start, rfl⟩ := truncateToolCallId_eq_ok first
    obtain ⟨start', same⟩ := truncateToolCallId_eq_ok second
    exact append_toolCallIdSuffix_inj same

def makeUniqueToolCallId (normalized : String) (usedIds : List String) (maxLength : Option ℕ) :
    Except String String := do
  let base := if 0 < normalized.length then normalized else emptyToolCallId
  let candidate ← truncateToolCallId base maxLength ""
  if candidate ∉ usedIds then return candidate
  (suffixedIds base maxLength).fresh usedIds 2

structure ToolCallIdMap where
  mappedIds : OrderedMap String String := ∅
  usedIds : List String := []

def ToolCallIdMap.add (m : ToolCallIdMap) (rawId id : String) : ToolCallIdMap where
  mappedIds := m.mappedIds.set rawId id
  usedIds := m.usedIds.insert id

/-- The first pass: an id that is its own normal form keeps it. -/
def keepToolCallId (policy : ToolCallIdPolicy) (m : ToolCallIdMap) (rawId : String) :
    ToolCallIdMap :=
  let normalized := policy.normalize rawId
  if normalized = rawId ∧ 0 < normalized.length then m.add rawId normalized else m

/-- The second pass: every other id gets one that is not in use. -/
def assignToolCallId (policy : ToolCallIdPolicy) (m : ToolCallIdMap) (rawId : String) :
    Except String ToolCallIdMap :=
  if rawId ∈ m.mappedIds.keys then .ok m
  else do
    let unique ← makeUniqueToolCallId (policy.normalize rawId) m.usedIds policy.maxLength
    return m.add rawId unique

def buildToolCallIdMap (rawIds : List String) (policy : ToolCallIdPolicy) :
    Except String (OrderedMap String String) := do
  let kept := rawIds.foldl (keepToolCallId policy) {}
  let assigned ← rawIds.foldlM (assignToolCallId policy) kept
  return assigned.mappedIds

def Message.toolCallIds (message : Message) : List String :=
  message.toolCalls.map (·.id) ++ message.toolCallId.toList

/-- The ids of a history, each once, in the order of their first place. -/
def collectToolCallIds (messages : List Message) : List String :=
  (messages.flatMap Message.toolCallIds).foldl
    (fun ids id => if id ∈ ids then ids else ids ++ [id]) []

/-- The flags of the source only save the copying of what has not changed. -/
def normalizeToolCallIdsForProvider (messages : List Message) (policy : ToolCallIdPolicy) :
    Except String (List Message) := do
  let rawIds := collectToolCallIds messages
  if rawIds.isEmpty then return messages
  let mappedIds ← buildToolCallIdMap rawIds policy
  return messages.map fun message =>
    { message with
      toolCalls := message.toolCalls.map fun toolCall =>
        match mappedIds.get toolCall.id with
        | none => toolCall
        | some mappedId => { toolCall with id := mappedId }
      toolCallId := match message.toolCallId with
        | none => none
        | some id => some ((mappedIds.get id).getD id) }

/-! ## Accepted ids -/

/-- The ids that a provider takes as they are. -/
structure AcceptedToolCallId (maxLength : Option ℕ) (id : String) : Prop where
  nonempty : id ≠ ""
  safe : ∀ c ∈ id.toList, isSafeIdChar c = true
  short : ∀ n ∈ maxLength, id.length ≤ n

theorem isSafeIdChar_width {c : Char} (safe : isSafeIdChar c = true) : utf16Length [c] = 1 := by
  have small : c.toNat < 0x10000 := by
    simp only [isSafeIdChar, Bool.or_eq_true, decide_eq_true_eq] at safe
    rcases safe with (alnum | rfl) | rfl
    · exact Nat.lt_of_le_of_lt (isAlphanum_range alnum).2 (by decide)
    · decide
    · decide
  rw [utf16Length, List.map_singleton, if_pos small, List.sum_singleton]

theorem takeUnits_eq_take : ∀ (n : ℕ) {cs : List Char},
    (∀ c ∈ cs, isSafeIdChar c = true) → takeUnits n cs = cs.take n
  | n, [], _ => by rw [takeUnits, List.take_nil]
  | 0, c :: cs, safe => by
    rw [takeUnits, isSafeIdChar_width (safe c List.mem_cons_self), if_neg (by decide),
      List.take_zero]
  | n + 1, c :: cs, safe => by
    rw [takeUnits, isSafeIdChar_width (safe c List.mem_cons_self), if_pos (Nat.le_add_left 1 n),
      Nat.add_sub_cancel, takeUnits_eq_take n fun c mem => safe c (List.mem_cons_of_mem _ mem),
      List.take_succ_cons]

theorem replaceUnsafe_safe (id : List Char) : ∀ c ∈ replaceUnsafe id, isSafeIdChar c = true := by
  intro c mem
  obtain ⟨d, -, mem⟩ := List.mem_flatMap.1 mem
  split at mem
  case isTrue safe => exact List.mem_singleton.1 mem ▸ safe
  case isFalse => exact List.eq_of_mem_replicate mem ▸ rfl

theorem replaceUnsafe_eq {id : List Char} (safe : ∀ c ∈ id, isSafeIdChar c = true) :
    replaceUnsafe id = id := by
  rw [replaceUnsafe, List.flatMap_congr fun c mem => if_pos (safe c mem), List.flatMap_singleton']

theorem sanitizeToolCallId_safe (id : String) (maxLength : Option ℕ) :
    ∀ c ∈ (sanitizeToolCallId id maxLength).toList, isSafeIdChar c = true := by
  rcases maxLength with - | n
  · rw [sanitizeToolCallId, String.toList_ofList]
    exact replaceUnsafe_safe _
  · rw [sanitizeToolCallId, String.toList_ofList, takeUnits_eq_take n (replaceUnsafe_safe _)]
    exact fun c mem => replaceUnsafe_safe _ c (List.mem_of_mem_take mem)

theorem sanitizeToolCallId_accepted (accepted : AcceptedToolCallId maxLength id) :
    sanitizeToolCallId id maxLength = id := by
  rcases maxLength with - | n
  · rw [sanitizeToolCallId, replaceUnsafe_eq accepted.safe, String.ofList_toList]
  · rw [sanitizeToolCallId, replaceUnsafe_eq accepted.safe, takeUnits_eq_take n accepted.safe,
      List.take_of_length_le (accepted.short n rfl), String.ofList_toList]

theorem sanitizeOpenAIResponsesCallId_accepted (accepted : AcceptedToolCallId maxLength id) :
    sanitizeOpenAIResponsesCallId id maxLength = id := by
  have whole : id.toList.takeWhile (· != '|') = id.toList :=
    List.takeWhile_eq_self_iff.2 fun c mem => by
      have safe := accepted.safe c mem
      rw [bne_iff_ne]
      rintro rfl
      cases safe
  rw [sanitizeOpenAIResponsesCallId, whole, String.ofList_toList,
    sanitizeToolCallId_accepted accepted]

theorem utf16Length_safe : ∀ {cs : List Char}, (∀ c ∈ cs, isSafeIdChar c = true) →
    utf16Length cs = cs.length
  | [], _ => rfl
  | c :: cs, safe => by
    have first := isSafeIdChar_width (safe c List.mem_cons_self)
    have rest := utf16Length_safe fun d mem => safe d (List.mem_cons_of_mem c mem)
    have split : utf16Length (c :: cs) = utf16Length [c] + utf16Length cs := by
      rw [utf16Length, utf16Length, utf16Length, List.map_cons, List.sum_cons, List.map_singleton,
        List.sum_singleton]
    rw [split, first, rest, List.length_cons, Nat.add_comm]

theorem toolCallIdSuffix_safe (i : ℕ) :
    ∀ c ∈ (toolCallIdSuffix i).toList, isSafeIdChar c = true := by
  rw [toolCallIdSuffix_toList]
  refine List.forall_mem_cons.2 ⟨rfl, fun c mem => ?_⟩
  have digit := Nat.isDigit_of_mem_toDigits (b := 10) (by decide) (by decide) mem
  rw [isSafeIdChar, Char.isAlphanum, digit, Bool.or_true]
  rfl

theorem truncateToolCallId_accepted {base : String} (nonempty : base ≠ "")
    (safe : ∀ c ∈ base.toList, isSafeIdChar c = true)
    (safeSuffix : ∀ c ∈ suffix.toList, isSafeIdChar c = true)
    (found : truncateToolCallId base maxLength suffix = .ok id) :
    AcceptedToolCallId maxLength id := by
  rcases maxLength with - | n
  · obtain rfl := Except.ok.inj found
    refine ⟨?_, ?_, nofun⟩
    · exact fun empty => nonempty (String.append_eq_empty_iff.1 empty).1
    · rw [String.toList_append]
      exact List.forall_mem_append.2 ⟨safe, safeSuffix⟩
  · rw [truncateToolCallId, utf16Length_safe safeSuffix, takeUnits_eq_take _ safe] at found
    split at found
    case isTrue => cases found
    case isFalse room =>
      obtain rfl := Except.ok.inj found
      refine ⟨fun empty => ?_, ?_, ?_⟩
      · have := congrArg String.length (String.append_eq_empty_iff.1 empty).1
        rw [String.length_ofList, List.length_take] at this
        have some := String.length_eq_zero_iff.not.2 nonempty
        rw [← String.length_toList] at some
        change min _ _ = 0 at this
        omega
      · rw [String.toList_append, String.toList_ofList]
        exact List.forall_mem_append.2 ⟨fun c mem => safe c (List.mem_of_mem_take mem), safeSuffix⟩
      · rintro _ ⟨⟩
        rw [String.length_append, String.length_ofList, List.length_take, ← String.length_toList]
        omega

theorem exists_truncateToolCallId (base : String)
    (safeSuffix : ∀ c ∈ suffix.toList, isSafeIdChar c = true)
    (room : ∀ n ∈ maxLength, suffix.length < n) :
    ∃ id, truncateToolCallId base maxLength suffix = .ok id := by
  rcases maxLength with - | n
  · exact ⟨_, rfl⟩
  · rw [truncateToolCallId, utf16Length_safe safeSuffix, String.length_toList]
    exact ⟨_, if_neg (Nat.not_le_of_lt (room n rfl))⟩

theorem toolCallIdSuffix_length_le (le : i ≤ j) :
    (toolCallIdSuffix i).length ≤ (toolCallIdSuffix j).length := by
  rw [← String.length_toList, ← String.length_toList, toolCallIdSuffix_toList,
    toolCallIdSuffix_toList, List.length_cons, List.length_cons]
  refine Nat.succ_le_succ ?_
  rw [Nat.length_toDigits_le_iff (by decide) Nat.length_toDigits_pos]
  exact Nat.lt_of_le_of_lt le
    ((Nat.length_toDigits_le_iff (by decide) Nat.length_toDigits_pos).1 (Nat.le_refl _))

/-- There is room for the number `i` and for a part of the id in front of it. -/
def FitsSuffix (maxLength : Option ℕ) (i : ℕ) : Prop :=
  ∀ n ∈ maxLength, (toolCallIdSuffix i).length < n

theorem FitsSuffix.mono (fits : FitsSuffix maxLength j) (le : i ≤ j) : FitsSuffix maxLength i :=
  fun n mem => Nat.lt_of_le_of_lt (toolCallIdSuffix_length_le le) (fits n mem)

section Unique

variable {normalized : String} {usedIds : List String} {maxLength : Option ℕ}

theorem toolCallIdBase (safe : ∀ c ∈ normalized.toList, isSafeIdChar c = true) :
    let base := if 0 < normalized.length then normalized else emptyToolCallId
    base ≠ "" ∧ ∀ c ∈ base.toList, isSafeIdChar c = true := by
  split
  case isTrue some => exact ⟨String.length_eq_zero_iff.not.1 (Nat.ne_of_gt some), safe⟩
  case isFalse => exact ⟨by decide, List.all_eq_true.1 (by decide)⟩

theorem makeUniqueToolCallId_spec {id : String}
    (safe : ∀ c ∈ normalized.toList, isSafeIdChar c = true)
    (found : makeUniqueToolCallId normalized usedIds maxLength = .ok id) :
    id ∉ usedIds ∧ AcceptedToolCallId maxLength id := by
  obtain ⟨nonempty, safeBase⟩ := toolCallIdBase safe
  rw [makeUniqueToolCallId] at found
  generalize (if 0 < normalized.length then normalized else emptyToolCallId) = base at *
  rcases cut : truncateToolCallId base maxLength "" with e | candidate
  · rw [cut] at found
    cases found
  · rw [cut] at found
    change (if candidate ∉ usedIds then _ else _) = _ at found
    split at found
    case isTrue free =>
      obtain rfl := Except.ok.inj found
      exact ⟨free, truncateToolCallId_accepted nonempty safeBase (by simp) cut⟩
    case isFalse =>
      obtain ⟨free, i, -, offered⟩ := NameSupply.fresh_eq_ok found
      exact ⟨free, truncateToolCallId_accepted nonempty safeBase (toolCallIdSuffix_safe i) offered⟩

theorem exists_makeUniqueToolCallId (normalized : String)
    (fits : FitsSuffix maxLength (usedIds.length + 2)) :
    ∃ id, makeUniqueToolCallId normalized usedIds maxLength = .ok id := by
  rw [makeUniqueToolCallId]
  generalize (if 0 < normalized.length then normalized else emptyToolCallId) = base
  obtain ⟨candidate, cut⟩ : ∃ id, truncateToolCallId base maxLength "" = .ok id :=
    exists_truncateToolCallId base (by simp) fun n mem =>
      Nat.lt_of_le_of_lt (Nat.zero_le _) (fits n mem)
  rw [cut]
  change ∃ id, (if candidate ∉ usedIds then _ else _) = _
  split
  case isTrue => exact ⟨candidate, rfl⟩
  case isFalse =>
    refine NameSupply.exists_fresh fun j _ le => ?_
    exact exists_truncateToolCallId base (toolCallIdSuffix_safe j)
      (fits.mono (by omega))

end Unique

/-! ## The map -/

/-- What holds of the map of the ids `rawIds` after each of them. -/
structure ToolCallIdMap.Consistent (rawIds : List String) (maxLength : Option ℕ)
    (m : ToolCallIdMap) : Prop where
  inside : ∀ {rawId id}, m.mappedIds.get rawId = some id → rawId ∈ rawIds
  used : ∀ {id}, id ∈ m.usedIds ↔ ∃ rawId, m.mappedIds.get rawId = some id
  distinct : ∀ {rawId rawId' id}, m.mappedIds.get rawId = some id →
    m.mappedIds.get rawId' = some id → rawId = rawId'
  accepted : ∀ {rawId id}, m.mappedIds.get rawId = some id → AcceptedToolCallId maxLength id
  few : m.usedIds.length ≤ m.mappedIds.keys.length

namespace ToolCallIdMap

variable {rawIds : List String} {maxLength : Option ℕ} {m : ToolCallIdMap} {rawId id : String}

theorem consistent_empty : Consistent rawIds maxLength {} where
  inside := nofun
  used := iff_of_false nofun fun ⟨_, found⟩ => nomatch found
  distinct := nofun
  accepted := nofun
  few := Nat.le_refl 0

theorem get_add (raw : String) :
    (m.add rawId id).mappedIds.get raw = if raw = rawId then some id else m.mappedIds.get raw := by
  rw [add]
  split
  case isTrue same => rw [same, OrderedMap.get_set_self]
  case isFalse ne => exact OrderedMap.get_set_ne _ _ ne

theorem get_of_add {raw new : String} (found : (m.add rawId id).mappedIds.get raw = some new) :
    raw = rawId ∧ new = id ∨ m.mappedIds.get raw = some new := by
  rw [get_add] at found
  split at found
  case isTrue same => exact .inl ⟨same, (Option.some.inj found).symm⟩
  case isFalse => exact .inr found

theorem get_add_of_get {raw new : String} (fresh : rawId ∉ m.mappedIds.keys)
    (found : m.mappedIds.get raw = some new) : (m.add rawId id).mappedIds.get raw = some new := by
  rw [get_add, if_neg, found]
  rintro rfl
  exact fresh (OrderedMap.mem_keys.2 ⟨new, found⟩)

namespace Consistent

theorem add (consistent : Consistent rawIds maxLength m) (mem : rawId ∈ rawIds)
    (fresh : rawId ∉ m.mappedIds.keys) (free : id ∉ m.usedIds)
    (accepted : AcceptedToolCallId maxLength id) :
    Consistent rawIds maxLength (m.add rawId id) where
  inside found := by
    rcases get_of_add found with ⟨rfl, -⟩ | was
    · exact mem
    · exact consistent.inside was
  used {new} := by
    rw [ToolCallIdMap.add, List.mem_insert_iff]
    constructor
    · rintro (rfl | inUse)
      · exact ⟨rawId, OrderedMap.get_set_self _ _ _⟩
      · obtain ⟨raw, found⟩ := consistent.used.1 inUse
        exact ⟨raw, get_add_of_get fresh found⟩
    · rintro ⟨raw, found⟩
      rcases get_of_add found with ⟨-, rfl⟩ | was
      · exact .inl rfl
      · exact .inr (consistent.used.2 ⟨raw, was⟩)
  distinct first second := by
    rcases get_of_add first with ⟨rfl, rfl⟩ | was
    · rcases get_of_add second with ⟨rfl, -⟩ | was'
      · rfl
      · exact absurd (consistent.used.2 ⟨_, was'⟩) free
    · rcases get_of_add second with ⟨-, rfl⟩ | was'
      · exact absurd (consistent.used.2 ⟨_, was⟩) free
      · exact consistent.distinct was was'
  accepted found := by
    rcases get_of_add found with ⟨-, rfl⟩ | was
    · exact accepted
    · exact consistent.accepted was
  few := by
    have keys : (m.mappedIds.set rawId id).keys.length = m.mappedIds.keys.length + 1 := by
      rw [OrderedMap.keys, OrderedMap.entries_set_of_not_mem fresh, List.map_append,
        List.length_append]
      rfl
    rw [ToolCallIdMap.add, keys, List.length_insert_of_not_mem free]
    exact Nat.succ_le_succ consistent.few

theorem usedIds_length_lt (consistent : Consistent rawIds maxLength m) (mem : rawId ∈ rawIds)
    (fresh : rawId ∉ m.mappedIds.keys) : m.usedIds.length < rawIds.length := by
  have nodup : (rawId :: m.mappedIds.keys).Nodup := List.nodup_cons.2 ⟨fresh, m.mappedIds.nodup⟩
  have inside : rawId :: m.mappedIds.keys ⊆ rawIds := by
    refine List.cons_subset.2 ⟨mem, fun raw isKey => ?_⟩
    obtain ⟨id, found⟩ := OrderedMap.mem_keys.1 isKey
    exact consistent.inside found
  exact Nat.lt_of_le_of_lt consistent.few (nodup.subperm inside).length_le

end Consistent

end ToolCallIdMap

/-- What the normal forms of both policies have in common. -/
structure ToolCallIdPolicy.Sanitizes (policy : ToolCallIdPolicy) : Prop where
  safe : ∀ id, ∀ c ∈ (policy.normalize id).toList, isSafeIdChar c = true
  keeps : ∀ id, policy.normalize id = id ∧ 0 < (policy.normalize id).length ↔
    AcceptedToolCallId policy.maxLength id

theorem sanitizeToolCallId_length_le (id : String) {n : ℕ} :
    (sanitizeToolCallId id (some n)).length ≤ n := by
  rw [sanitizeToolCallId, takeUnits_eq_take n (replaceUnsafe_safe _), String.length_ofList]
  exact List.length_take_le _ _

theorem sanitizes_of_sanitizeToolCallId {part : String → String}
    (whole : ∀ id, AcceptedToolCallId maxLength id → sanitizeToolCallId (part id) maxLength = id) :
    ToolCallIdPolicy.Sanitizes ⟨fun id => sanitizeToolCallId (part id) maxLength, maxLength⟩ where
  safe id := sanitizeToolCallId_safe (part id) maxLength
  keeps id := by
    constructor
    · rintro ⟨same, some⟩
      dsimp only at same some
      refine ⟨?_, ?_, ?_⟩
      · exact String.length_eq_zero_iff.not.1 (Nat.ne_of_gt (same ▸ some))
      · exact same ▸ sanitizeToolCallId_safe (part id) maxLength
      · rintro n ⟨⟩
        exact same ▸ sanitizeToolCallId_length_le (part id)
    · intro accepted
      refine ⟨whole id accepted, Nat.pos_of_ne_zero ?_⟩
      dsimp only
      rw [whole id accepted]
      exact String.length_eq_zero_iff.not.2 accepted.nonempty

section Passes

open ToolCallIdMap

variable {policy : ToolCallIdPolicy} {rawIds : List String}

theorem keepToolCallId_spec (sanitizes : policy.Sanitizes) : ∀ (rest : List String)
    {m : ToolCallIdMap}, rest ⊆ rawIds → Consistent rawIds policy.maxLength m →
    (∀ {rawId id}, m.mappedIds.get rawId = some id → id = rawId) →
    ∃ kept, rest.foldl (keepToolCallId policy) m = kept ∧
      Consistent rawIds policy.maxLength kept ∧
      (∀ {rawId id}, kept.mappedIds.get rawId = some id → id = rawId) ∧
      (∀ {rawId id}, m.mappedIds.get rawId = some id → kept.mappedIds.get rawId = some id) ∧
      ∀ rawId ∈ rest, AcceptedToolCallId policy.maxLength rawId →
        kept.mappedIds.get rawId = some rawId
  | [], m, _, consistent, same => ⟨m, rfl, consistent, same, id, nofun⟩
  | rawId :: rest, m, sub, consistent, same => by
    obtain ⟨mem, sub'⟩ := List.cons_subset.1 sub
    rw [List.foldl_cons, keepToolCallId]
    split
    case isFalse no =>
      obtain ⟨kept, run, result, same, extends_, here⟩ :=
        keepToolCallId_spec sanitizes rest sub' consistent same
      refine ⟨kept, run, result, same, extends_, List.forall_mem_cons.2 ⟨fun accepted => ?_, here⟩⟩
      exact absurd ((sanitizes.keeps rawId).2 accepted) no
    case isTrue keeps =>
      have accepted := (sanitizes.keeps rawId).1 keeps
      rw [keeps.1]
      by_cases isKey : rawId ∈ m.mappedIds.keys
      · -- the id has been there before
        obtain ⟨id, found⟩ := OrderedMap.mem_keys.1 isKey
        obtain rfl := same found
        rw [add, OrderedMap.set_of_get found, List.insert_of_mem (consistent.used.2 ⟨_, found⟩)]
        obtain ⟨kept, run, result, same, extends_, here⟩ :=
          keepToolCallId_spec sanitizes rest sub' consistent same
        exact ⟨kept, run, result, same, extends_,
          List.forall_mem_cons.2 ⟨fun _ => extends_ found, here⟩⟩
      · have free : rawId ∉ m.usedIds := by
          rintro inUse
          obtain ⟨raw, found⟩ := consistent.used.1 inUse
          obtain rfl := same found
          exact isKey (OrderedMap.mem_keys.2 ⟨_, found⟩)
        obtain ⟨kept, run, result, same, extends_, here⟩ :=
          keepToolCallId_spec sanitizes rest sub' (consistent.add mem isKey free accepted)
            fun found => by
              rcases get_of_add found with ⟨rfl, rfl⟩ | was
              · rfl
              · exact same was
        refine ⟨kept, run, result, same, fun found => extends_ (get_add_of_get isKey found),
          List.forall_mem_cons.2 ⟨fun _ => extends_ ?_, here⟩⟩
        rw [get_add, if_pos rfl]

theorem assignToolCallId_spec (sanitizes : policy.Sanitizes) : ∀ (rest : List String)
    {m assigned : ToolCallIdMap}, rest ⊆ rawIds → Consistent rawIds policy.maxLength m →
    rest.foldlM (assignToolCallId policy) m = .ok assigned →
    Consistent rawIds policy.maxLength assigned ∧
      (∀ {rawId id}, m.mappedIds.get rawId = some id →
        assigned.mappedIds.get rawId = some id) ∧
      ∀ rawId ∈ rest, ∃ id, assigned.mappedIds.get rawId = some id
  | [], m, _, _, consistent, run => by
    obtain rfl := Except.ok.inj run
    exact ⟨consistent, id, nofun⟩
  | rawId :: rest, m, _, sub, consistent, run => by
    obtain ⟨mem, sub⟩ := List.cons_subset.1 sub
    rw [List.foldlM_cons, assignToolCallId] at run
    split at run
    case isTrue isKey =>
      obtain ⟨result, extends_, here⟩ := assignToolCallId_spec sanitizes rest sub consistent run
      obtain ⟨id, found⟩ := OrderedMap.mem_keys.1 isKey
      exact ⟨result, extends_, List.forall_mem_cons.2 ⟨⟨id, extends_ found⟩, here⟩⟩
    case isFalse isKey =>
      rcases found : makeUniqueToolCallId (policy.normalize rawId) m.usedIds policy.maxLength
        with e | unique
      · rw [found] at run
        cases run
      · rw [found] at run
        obtain ⟨free, accepted⟩ := makeUniqueToolCallId_spec (sanitizes.safe rawId) found
        obtain ⟨result, extends_, here⟩ :=
          assignToolCallId_spec sanitizes rest sub (consistent.add mem isKey free accepted) run
        refine ⟨result, fun found => extends_ (get_add_of_get isKey found),
          List.forall_mem_cons.2 ⟨⟨unique, extends_ ?_⟩, here⟩⟩
        rw [get_add, if_pos rfl]

/-- With room for the numbers every id gets one. -/
theorem exists_assignToolCallId (sanitizes : policy.Sanitizes)
    (fits : FitsSuffix policy.maxLength (rawIds.length + 1)) : ∀ (rest : List String)
    {m : ToolCallIdMap}, rest ⊆ rawIds → Consistent rawIds policy.maxLength m →
    ∃ assigned, rest.foldlM (assignToolCallId policy) m = .ok assigned
  | [], m, _, _ => ⟨m, rfl⟩
  | rawId :: rest, m, sub, consistent => by
    obtain ⟨mem, sub⟩ := List.cons_subset.1 sub
    rw [List.foldlM_cons, assignToolCallId]
    split
    case isTrue => exact exists_assignToolCallId sanitizes fits rest sub consistent
    case isFalse isKey =>
      have few := consistent.usedIds_length_lt mem isKey
      obtain ⟨unique, found⟩ := exists_makeUniqueToolCallId (policy.normalize rawId)
        (fits.mono (Nat.succ_le_succ few))
      obtain ⟨free, accepted⟩ := makeUniqueToolCallId_spec (sanitizes.safe rawId) found
      rw [found]
      exact exists_assignToolCallId sanitizes fits rest sub
        (consistent.add mem isKey free accepted)

theorem assignToolCallId_of_mapped {m : ToolCallIdMap} : ∀ {rest : List String},
    (∀ rawId ∈ rest, rawId ∈ m.mappedIds.keys) →
    rest.foldlM (assignToolCallId policy) m = .ok m
  | [], _ => rfl
  | rawId :: rest, mapped => by
    obtain ⟨first, mapped⟩ := List.forall_mem_cons.1 mapped
    rw [List.foldlM_cons, assignToolCallId, if_pos first]
    exact assignToolCallId_of_mapped mapped

end Passes

/-! ## The history -/

section History

variable {policy : ToolCallIdPolicy} {messages : List Message}

/-- A history under a change of its tool call ids. -/
def Message.renameToolCallIds (rename : String → String) (message : Message) : Message :=
  { message with
    toolCalls := message.toolCalls.map fun toolCall => { toolCall with id := rename toolCall.id }
    toolCallId := message.toolCallId.map rename }

/-- The ids present in a history. -/
def toolCallIdsOf (messages : List Message) : Set String :=
  {id | ∃ message ∈ messages, (∃ toolCall ∈ message.toolCalls, toolCall.id = id) ∨
    message.toolCallId = some id}

theorem mem_collectToolCallIds {id : String} :
    id ∈ collectToolCallIds messages ↔ id ∈ toolCallIdsOf messages := by
  have each (ids : List String) : ∀ seen : List String,
      id ∈ ids.foldl (fun seen id => if id ∈ seen then seen else seen ++ [id]) seen ↔
        id ∈ seen ∨ id ∈ ids := by
    induction ids with
    | nil => exact fun seen => (or_iff_left List.not_mem_nil).symm
    | cons first ids ih =>
      intro seen
      rw [List.foldl_cons, ih, List.mem_cons, ← or_assoc]
      refine or_congr_left ?_
      split
      case isTrue mem =>
        exact ⟨.inl, fun inside => inside.elim (fun seen => seen) fun same => same ▸ mem⟩
      case isFalse => rw [List.mem_append, List.mem_singleton]
  rw [collectToolCallIds, each, or_iff_right List.not_mem_nil, List.mem_flatMap]
  refine exists_congr fun message => and_congr_right fun _ => ?_
  rw [Message.toolCallIds, List.mem_append, List.mem_map, Option.mem_toList]

variable {rename : String → String}

theorem Message.renameToolCallIds_eq {message : Message}
    (same : ∀ id ∈ message.toolCallIds, rename id = id) :
    message.renameToolCallIds rename = message := by
  obtain ⟨calls, result⟩ := List.forall_mem_append.1 same
  have toolCalls : (message.toolCalls.map fun toolCall =>
      { toolCall with id := rename toolCall.id }) = message.toolCalls := by
    conv_rhs => rw [← List.map_id message.toolCalls]
    refine List.map_congr_left fun toolCall mem => ?_
    rw [calls toolCall.id (List.mem_map_of_mem mem)]
    rfl
  have toolCallId : message.toolCallId.map rename = message.toolCallId := by
    rcases found : message.toolCallId with - | id
    · rfl
    · exact congrArg some (result id (Option.mem_toList.2 found))
  rw [renameToolCallIds, toolCalls, toolCallId]

/-- A renaming of a history that changes none of its ids changes nothing. -/
theorem map_renameToolCallIds_eq (same : ∀ id ∈ toolCallIdsOf messages, rename id = id) :
    messages.map (Message.renameToolCallIds rename) = messages := by
  conv_rhs => rw [← List.map_id messages]
  refine List.map_congr_left fun message mem => Message.renameToolCallIds_eq fun id inside => ?_
  rw [Message.toolCallIds, List.mem_append, List.mem_map, Option.mem_toList] at inside
  exact same id ⟨message, mem, inside⟩

theorem normalizeToolCallIdsForProvider_eq (messages : List Message)
    (policy : ToolCallIdPolicy) :
    normalizeToolCallIdsForProvider messages policy =
      (buildToolCallIdMap (collectToolCallIds messages) policy).map fun mappedIds =>
        messages.map (Message.renameToolCallIds fun id => (mappedIds.get id).getD id) := by
  rw [normalizeToolCallIdsForProvider]
  split
  case isTrue none =>
    have noId {id : String} : id ∉ toolCallIdsOf messages := by
      rw [← mem_collectToolCallIds, List.isEmpty_iff.1 none]
      exact List.not_mem_nil
    rw [List.isEmpty_iff.1 none]
    exact congrArg Except.ok (map_renameToolCallIds_eq fun id mem => absurd mem noId).symm
  case isFalse =>
    rcases buildToolCallIdMap (collectToolCallIds messages) policy with e | mappedIds
    · rfl
    · refine congrArg Except.ok (List.map_congr_left fun message _ => ?_)
      rw [Message.renameToolCallIds]
      congr 1
      · refine List.map_congr_left fun toolCall _ => ?_
        cases mappedIds.get toolCall.id <;> rfl
      · cases message.toolCallId <;> rfl

theorem normalizeToolCallIdsForProvider_accepted (sanitizes : policy.Sanitizes)
    (accepted : ∀ id ∈ toolCallIdsOf messages, AcceptedToolCallId policy.maxLength id) :
    normalizeToolCallIdsForProvider messages policy = .ok messages := by
  obtain ⟨kept, run, -, same, -, here⟩ := keepToolCallId_spec sanitizes
    (collectToolCallIds messages) (List.Subset.refl _) ToolCallIdMap.consistent_empty nofun
  have built : buildToolCallIdMap (collectToolCallIds messages) policy = .ok kept.mappedIds := by
    rw [buildToolCallIdMap, run, assignToolCallId_of_mapped fun rawId mem =>
      OrderedMap.mem_keys.2 ⟨rawId, here rawId mem (accepted rawId (mem_collectToolCallIds.1 mem))⟩]
    rfl
  rw [normalizeToolCallIdsForProvider_eq, built]
  refine congrArg Except.ok (map_renameToolCallIds_eq fun id mem => ?_)
  rw [here id (mem_collectToolCallIds.2 mem) (accepted id mem)]
  rfl

theorem mem_toolCallIdsOf_map {id : String}
    (mem : id ∈ toolCallIdsOf (messages.map (Message.renameToolCallIds rename))) :
    ∃ old ∈ toolCallIdsOf messages, rename old = id := by
  obtain ⟨_, inside, here⟩ := mem
  obtain ⟨message, old, rfl⟩ := List.mem_map.1 inside
  rcases here with ⟨_, isCall, rfl⟩ | result
  · obtain ⟨toolCall, call, rfl⟩ := List.mem_map.1 isCall
    exact ⟨toolCall.id, ⟨message, old, .inl ⟨toolCall, call, rfl⟩⟩, rfl⟩
  · obtain ⟨oldId, found, rfl⟩ := Option.map_eq_some_iff.1 result
    exact ⟨oldId, ⟨message, old, .inr found⟩, rfl⟩

/-- With room for the numbers a result is given, and every result is a renaming of the ids. -/
theorem normalizeToolCallIdsForProvider_spec (sanitizes : policy.Sanitizes)
    (messages : List Message) :
    (FitsSuffix policy.maxLength ((collectToolCallIds messages).length + 1) →
      ∃ out, normalizeToolCallIdsForProvider messages policy = .ok out) ∧
    ∀ out, normalizeToolCallIdsForProvider messages policy = .ok out →
      normalizeToolCallIdsForProvider out policy = .ok out ∧
      ∃ rename : String → String, out = messages.map (Message.renameToolCallIds rename) ∧
        Set.InjOn rename (toolCallIdsOf messages) ∧
        (∀ id ∈ toolCallIdsOf messages, AcceptedToolCallId policy.maxLength (rename id)) ∧
        ∀ id ∈ toolCallIdsOf messages, AcceptedToolCallId policy.maxLength id →
          rename id = id := by
  obtain ⟨kept, keeps, consistent, -, -, here⟩ := keepToolCallId_spec sanitizes
    (collectToolCallIds messages) (List.Subset.refl _) ToolCallIdMap.consistent_empty nofun
  rw [normalizeToolCallIdsForProvider_eq, buildToolCallIdMap, keeps]
  refine ⟨fun fits => ?_, fun out found => ?_⟩
  · obtain ⟨assigned, run⟩ := exists_assignToolCallId sanitizes fits
      (collectToolCallIds messages) (List.Subset.refl _) consistent
    rw [run]
    exact ⟨_, rfl⟩
  rcases run : (collectToolCallIds messages).foldlM (assignToolCallId policy) kept
    with e | assigned
  · rw [run] at found
    cases found
  rw [run] at found
  obtain rfl := Except.ok.inj found
  obtain ⟨consistent, extends_, all⟩ := assignToolCallId_spec sanitizes _
    (List.Subset.refl _) consistent run
  have mapped : ∀ id ∈ toolCallIdsOf messages, ∃ new, assigned.mappedIds.get id = some new ∧
      (assigned.mappedIds.get id).getD id = new := by
    intro id mem
    obtain ⟨new, found⟩ := all id (mem_collectToolCallIds.2 mem)
    exact ⟨new, found, by rw [found]; rfl⟩
  have accepted : ∀ id ∈ toolCallIdsOf messages,
      AcceptedToolCallId policy.maxLength ((assigned.mappedIds.get id).getD id) := by
    intro id mem
    obtain ⟨new, found, eq⟩ := mapped id mem
    exact eq ▸ consistent.accepted found
  refine ⟨?_, fun id => (assigned.mappedIds.get id).getD id, rfl, ?_, accepted, ?_⟩
  · refine normalizeToolCallIdsForProvider_accepted sanitizes fun id mem => ?_
    obtain ⟨old, inside, rfl⟩ := mem_toolCallIdsOf_map mem
    exact accepted old inside
  · intro id mem id' mem' same
    obtain ⟨new, found, eq⟩ := mapped id mem
    obtain ⟨new', found', eq'⟩ := mapped id' mem'
    obtain rfl : new = new' := eq.symm.trans (same.trans eq')
    exact consistent.distinct found found'
  · intro id mem fine
    dsimp only
    rw [extends_ (here id (mem_collectToolCallIds.2 mem) fine)]
    rfl

/-- With room for the numbers a result is given.  In every result the ids have gone over into
accepted ones, different ids into different ones, by one map that leaves accepted ids alone; nothing
else of the history has changed, and nothing at all changes when it is done again. -/
theorem normalizeToolCallIdsForProvider_renames {sanitize : String → Option ℕ → String}
    (known : sanitize = sanitizeToolCallId ∨ sanitize = sanitizeOpenAIResponsesCallId)
    (maxLength : Option ℕ) (messages : List Message) :
    let policy : ToolCallIdPolicy := ⟨fun id => sanitize id maxLength, maxLength⟩
    (FitsSuffix maxLength ((collectToolCallIds messages).length + 1) →
      ∃ out, normalizeToolCallIdsForProvider messages policy = .ok out) ∧
    ∀ out, normalizeToolCallIdsForProvider messages policy = .ok out →
      normalizeToolCallIdsForProvider out policy = .ok out ∧
      ∃ rename : String → String, out = messages.map (Message.renameToolCallIds rename) ∧
        Set.InjOn rename (toolCallIdsOf messages) ∧
        (∀ id ∈ toolCallIdsOf messages, AcceptedToolCallId maxLength (rename id)) ∧
        ∀ id ∈ toolCallIdsOf messages, AcceptedToolCallId maxLength id → rename id = id := by
  intro policy
  have sanitizes : policy.Sanitizes := by
    rcases known with rfl | rfl
    · exact sanitizes_of_sanitizeToolCallId fun _ => sanitizeToolCallId_accepted
    · exact sanitizes_of_sanitizeToolCallId fun _ => sanitizeOpenAIResponsesCallId_accepted
  exact normalizeToolCallIdsForProvider_spec sanitizes messages

/-- Two ids that become the same text are told apart. -/
theorem collidingIds_renamed :
    let messages : List Message :=
      [createToolMessage "a b" (.inl ""), createToolMessage "a|b" (.inl "")]
    ∃ out rename, normalizeToolCallIdsForProvider messages
        ⟨fun id => sanitizeToolCallId id (some 64), some 64⟩ = .ok out ∧
      out = messages.map (Message.renameToolCallIds rename) ∧ rename "a b" ≠ rename "a|b" := by
  intro messages
  obtain ⟨returns, results⟩ := normalizeToolCallIdsForProvider_renames (.inl rfl) (some 64) messages
  obtain ⟨out, found⟩ := returns fun n mem => by
    cases mem
    decide
  obtain ⟨-, rename, isMap, injOn, -, -⟩ := results out found
  refine ⟨out, rename, found, isMap, fun same => ?_⟩
  have := injOn ⟨_, List.mem_cons_self, .inr rfl⟩
    ⟨_, List.mem_cons_of_mem _ List.mem_cons_self, .inr rfl⟩ same
  exact absurd this (by decide)

end History

end KimiCli
