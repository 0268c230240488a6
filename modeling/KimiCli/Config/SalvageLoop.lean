import KimiCli.Config.Removals

/-!
# The loop that salvages a config

Every issue of a round is about something invalid in the table of that round, and leads to its
removal unless that has happened.  So the loop ends with a config, and has removed nothing that is
valid.
-/

namespace KimiCli.Salvage

variable {V C : Type*} {schema : Schema V} {table : Table V} {removals : List Removal}
  {name : String}

/-! ## One round -/

theorem Schema.Due.not_whole {fields : PlainObject V} (keyed : name ∈ ENTRY_KEYED_SECTIONS)
    (found : table.own.get name = some (.object fields)) :
    ¬ schema.Due table (.wholeSection name) := by
  rintro ⟨value, found', -, whole⟩
  rw [found] at found'
  cases found'
  exact whole fields keyed rfl

namespace Walk

/-- What a removal does to the walk. -/
def remove (walk : Walk V) (removal : Removal) : Walk V where
  transformed := without walk.transformed removal
  dropped := walk.dropped ++ [removal.report]
  deletedAny := true

theorem deleteEntry_eq {walk : Walk V} {fields : PlainObject V} {entry : String}
    (found : walk.transformed.own.get name = some (.object fields)) :
    walk.deleteEntry name fields entry = walk.remove (.oneEntry name entry) := by
  simp only [deleteEntry, remove, without, found]
  rfl

/-- An issue is skipped only after something was removed. -/
theorem drop_spec {walk : Walk V} {issue : Issue}
    (so : walk.transformed = withoutAll table removals)
    (due : ∀ removal ∈ removals, schema.Due table removal)
    (offends : schema.Offends table issue.path) :
    walk.drop issue = walk ∧ removals ≠ [] ∨
      ∃ removal, walk.drop issue = walk.remove removal ∧ schema.Due table removal ∧
        issue.At removal := by
  obtain ⟨name, rest, value, path, found, invalid, inner⟩ := offends
  simp only [drop, path]
  split
  case isFalse gone =>
    refine .inl ⟨rfl, ?_⟩
    rintro rfl
    rw [so] at gone
    exact gone (has_of_get found)
  case isTrue =>
    have whole (notEntries : ∀ fields, name ∈ ENTRY_KEYED_SECTIONS → value ≠ .object fields) :
        ∃ removal, walk.deleteSection name = walk.remove removal ∧ schema.Due table removal ∧
          issue.At removal :=
      ⟨.wholeSection name, rfl, ⟨value, found, invalid, notEntries⟩, rest, path⟩
    split
    case h_1 fields entry rest' present =>
      have within : Within walk.transformed table := by
        rw [so]
        exact within_withoutAll due
      obtain ⟨old, found', left⟩ := within name _ present
      rw [found] at found'
      cases found'
      by_cases keyed : name ∈ ENTRY_KEYED_SECTIONS
      · rw [if_pos keyed]
        obtain ⟨old', rfl⟩ : ∃ old', value = .object old' := by
          rcases left with rfl | ⟨-, _, old', -, rfl, -⟩
          · exact ⟨fields, rfl⟩
          · exact ⟨old', rfl⟩
        obtain ⟨entry', rest'', v, same, inside, bad⟩ := inner old' keyed rfl
        cases same
        split
        case isTrue =>
          refine .inr ⟨.oneEntry name entry, deleteEntry_eq present, ?_, rest', path⟩
          exact ⟨keyed, old', v, found, inside, bad⟩
        case isFalse gone =>
          refine .inl ⟨rfl, ?_⟩
          rintro rfl
          rw [so] at present
          have same := Option.some.inj (found.symm.trans present)
          cases same
          rw [PlainObject.has, Bool.or_eq_true, decide_eq_true_eq, not_or] at gone
          exact gone.1 (OrderedMap.mem_keys.2 ⟨v, inside⟩)
      · rw [if_neg keyed]
        exact .inr (whole fun _ keyed' => absurd keyed' keyed)
    case h_2 odd =>
      refine .inr (whole ?_)
      rintro old keyed rfl
      obtain ⟨entry, rest', v, rfl, -, -⟩ := inner old keyed rfl
      obtain ⟨fields, present, -⟩ := withoutAll_keeps_entries
        (fun mem => Schema.Due.not_whole keyed found (due _ mem)) found
      rw [← so] at present
      exact odd fields entry rest' present rfl

theorem foldl_spec {issues : List Issue}
    (offends : ∀ issue ∈ issues, schema.Offends table issue.path) :
    ∀ {walk : Walk V} {removals : List Removal}, walk.transformed = withoutAll table removals →
      (∀ removal ∈ removals, schema.Due table removal) →
      ∃ more, issues.foldl drop walk =
          { transformed := withoutAll table (removals ++ more)
            dropped := walk.dropped ++ more.map Removal.report
            deletedAny := walk.deletedAny || !more.isEmpty } ∧
        (∀ removal ∈ more, schema.Due table removal ∧ ∃ issue ∈ issues, issue.At removal) ∧
        (removals = [] → issues ≠ [] → more ≠ []) := by
  induction issues with
  | nil =>
    intro walk removals so _
    refine ⟨[], ?_, List.forall_mem_nil _, fun _ any => absurd rfl any⟩
    rw [List.append_nil, ← so, List.map_nil, List.append_nil, List.isEmpty_nil, Bool.not_true,
      Bool.or_false]
    rfl
  | cons issue issues ih =>
    intro walk removals so due
    have rest := List.forall_mem_cons.1 offends
    rw [List.foldl_cons]
    rcases drop_spec so due rest.1 with ⟨skipped, after⟩ | ⟨removal, dropped, here, named⟩
    · rw [skipped]
      obtain ⟨more, result, fine, -⟩ := ih rest.2 so due
      refine ⟨more, result, fun removal mem => ?_, fun none => absurd none after⟩
      obtain ⟨here, issue', inside, named⟩ := fine removal mem
      exact ⟨here, issue', .tail _ inside, named⟩
    · rw [dropped]
      have so' : (walk.remove removal).transformed = withoutAll table (removals ++ [removal]) := by
        rw [withoutAll_append, ← so]
        rfl
      obtain ⟨more, result, fine, -⟩ :=
        ih rest.2 so' (List.forall_mem_append.2 ⟨due, List.forall_mem_singleton.2 here⟩)
      refine ⟨removal :: more, ?_, ?_, fun _ _ => List.cons_ne_nil _ _⟩
      · rw [result, List.append_assoc]
        simp only [remove, List.append_assoc, List.singleton_append, List.map_cons, Bool.true_or,
          List.isEmpty_cons, Bool.not_false, Bool.or_true]
      · refine List.forall_mem_cons.2 ⟨⟨here, issue, List.mem_cons_self, named⟩, fun r mem => ?_⟩
        obtain ⟨here', issue', inside, named'⟩ := fine r mem
        exact ⟨here', issue', .tail _ inside, named'⟩

end Walk

/-- A rejected table loses something, and the loop goes on. -/
theorem salvageRound_error {safeParse : Table V → Except (List Issue) C}
    (validates : Validates schema safeParse) {issues : List Issue}
    (rejected : safeParse table = .error issues) (dropped : List String) :
    ∃ removals, removals ≠ [] ∧ salvageRound safeParse (table, dropped) =
        .inl (withoutAll table removals, dropped ++ removals.map Removal.report) ∧
      ∀ removal ∈ removals, schema.Due table removal ∧ ∃ issue ∈ issues, issue.At removal := by
  have any : issues ≠ [] := by
    rintro rfl
    have refused : ¬ ∃ config, safeParse table = .ok config := by
      rintro ⟨config, accepted⟩
      rw [rejected] at accepted
      cases accepted
    rw [validates.accepts] at refused
    push Not at refused
    obtain ⟨name, value, found, invalid⟩ := refused
    obtain ⟨issue, inside, -⟩ := validates.reports table [] rejected name value found invalid
    cases inside
  let start : Walk V := { transformed := table, dropped }
  have so : start.transformed = withoutAll table [] := rfl
  obtain ⟨removals, result, fine, more⟩ :=
    Walk.foldl_spec (validates.located table issues rejected) so (List.forall_mem_nil _)
  have more := more rfl any
  refine ⟨removals, more, ?_, fine⟩
  simp only [salvageRound, rejected]
  rw [result, if_pos (by simpa [start] using more), List.nil_append]

/-! ## The whole loop -/

/-- Some round of the loop has an issue of the section, or of the entry. -/
def Reported (safeParse : Table V → Except (List Issue) C) (table : Table V) (removal : Removal) :
    Prop :=
  ∃ state issues, Rounds.Reaches (salvageRound safeParse) (table, []) state ∧
    safeParse state.1 = .error issues ∧ ∃ issue ∈ issues, issue.At removal

/-- What the loop promises of the removals and of the config that it returns. -/
structure Salvaged (schema : Schema V) (safeParse : Table V → Except (List Issue) C)
    (table : Table V) (config : C) (removals : List Removal) : Prop where
  parsed : safeParse (withoutAll table removals) = .ok config
  strict : ∀ config', safeParse table = .ok config' → config' = config ∧ removals = []
  reported : ∀ removal ∈ removals, Reported safeParse table removal
  invalid : ∀ removal ∈ removals, schema.Due table removal
  entries : ∀ name fields entry v, name ∈ ENTRY_KEYED_SECTIONS →
    table.own.get name = some (.object fields) → fields.own.get entry = some v →
    ¬ Reported safeParse table (.oneEntry name entry) →
    ∃ fields', (withoutAll table removals).own.get name = some (.object fields') ∧
      fields'.own.get entry = some v
  sections : ∀ name value, table.own.get name = some value → schema.SectionOk name value →
    (withoutAll table removals).own.get name = some value

/-- What holds at the start of every round. -/
def Sound (schema : Schema V) (safeParse : Table V → Except (List Issue) C) (table : Table V)
    (state : Table V × List String) : Prop :=
  Rounds.Reaches (salvageRound safeParse) (table, []) state ∧
    ∃ removals, state = (withoutAll table removals, removals.map Removal.report) ∧
      ∀ removal ∈ removals, Reported safeParse table removal ∧ schema.Due table removal

section Loop

variable {safeParse : Table V → Except (List Issue) C}

theorem sound_start : Sound schema safeParse table (table, []) :=
  ⟨.refl, [], rfl, List.forall_mem_nil _⟩

/-- Each round that goes on keeps the invariant and makes the table smaller. -/
theorem salvageRound_spec (validates : Validates schema safeParse)
    {state next : Table V × List String} (sound : Sound schema safeParse table state)
    (round : salvageRound safeParse state = .inl next) :
    Sound schema safeParse table next ∧ size next.1 < size state.1 := by
  obtain ⟨reached, removals, rfl, fine⟩ := sound
  rcases parsed : safeParse (withoutAll table removals) with issues | config
  · obtain ⟨more, any, result, due⟩ :=
      salvageRound_error validates parsed (removals.map Removal.report)
    rw [result] at round
    obtain rfl := Sum.inl.inj round
    refine ⟨⟨.tail reached result, removals ++ more, ?_, fun removal mem => ?_⟩, ?_⟩
    · rw [withoutAll_append, List.map_append]
    · rcases List.mem_append.1 mem with mem | mem
      · exact fine removal mem
      · obtain ⟨here, named⟩ := due removal mem
        refine ⟨⟨_, issues, reached, parsed, named⟩, here.of_within ?_⟩
        exact within_withoutAll fun r mem => (fine r mem).2
    · obtain ⟨removal, rest, rfl⟩ := List.exists_cons_of_ne_nil any
      have less : size (withoutAll (without (withoutAll table removals) removal) rest) ≤ _ :=
        size_withoutAll_le
      exact less.trans_lt (size_without_lt (due removal List.mem_cons_self).1)
  · rw [salvageRound] at round
    simp only [parsed] at round
    cases round

/-- The loop ends with a config, whatever the number of rounds it is given beyond the size of the
table. -/
theorem salvageConfigData_spec (validates : Validates schema safeParse) (table : Table V) :
    ∃ config removals,
      (∀ fuel, size table < fuel → salvageConfigData safeParse fuel table =
        some { config := some config, dropped := removals.map Removal.report }) ∧
      Salvaged schema safeParse table config removals := by
  obtain ⟨state, result, reached, done, ends⟩ :=
    Rounds.loop_ends (size ∘ Prod.fst) (Sound schema safeParse table)
      (fun _ _ sound round => (salvageRound_spec validates sound round).1)
      (fun _ _ sound round => (salvageRound_spec validates sound round).2) sound_start
  obtain ⟨-, removals, rfl, fine⟩ := reached.invariant (Sound schema safeParse table)
    (fun _ _ sound round => (salvageRound_spec validates sound round).1) sound_start
  rcases parsed : safeParse (withoutAll table removals) with issues | config
  · obtain ⟨more, -, round, -⟩ :=
      salvageRound_error validates parsed (removals.map Removal.report)
    rw [done] at round
    cases round
  simp only [salvageRound, parsed] at done
  cases done
  refine ⟨config, removals, ends, parsed, fun config' accepted => ?_, fun r mem => (fine r mem).1,
    fun r mem => (fine r mem).2, fun name fields entry v keyed found inside silent => ?_,
    fun name value found valid => ?_⟩
  · have finished : salvageRound safeParse (table, []) =
        .inr { config := some config', dropped := [] } := by
      simp only [salvageRound, accepted]
    rcases ends (size table + 1) (Nat.lt_succ_self _) with whole
    rw [Rounds.loop_inr finished] at whole
    cases removals with
    | nil => exact ⟨Option.some.inj (congrArg SalvageResult.config (Option.some.inj whole)), rfl⟩
    | cons => cases congrArg SalvageResult.dropped (Option.some.inj whole)
  · obtain ⟨fields', found', kept⟩ := withoutAll_keeps_entries
      (fun mem => Schema.Due.not_whole keyed found (fine _ mem).2) found
    refine ⟨fields', found', ?_⟩
    rw [kept entry fun mem => silent (fine _ mem).1, inside]
  · rw [withoutAll_keeps_section, found]
    · intro mem
      obtain ⟨value', found', invalid, -⟩ := (fine _ mem).2
      rw [found] at found'
      cases found'
      exact invalid valid
    · intro entry mem
      obtain ⟨keyed, fields, v, found', inside, invalid⟩ := (fine _ mem).2
      rw [found] at found'
      cases found'
      rw [Schema.SectionOk, if_pos keyed] at valid
      exact invalid (valid entry v inside)

end Loop

/-- A provider is given by its type, and any other value by its text. -/
def sampleChecks : Checks String where
  entry _ type :=
    if type ∈ ["anthropic", "openai", "kimi", "google-genai", "openai_responses", "vertexai"] then
      []
    else [[.key "type"]]
  value _ value :=
    match value with
    | .other "true" => []
    | .other "false" => []
    | _ => [[]]

def sampleTable : Table String where
  own := ⟨[("providers", .object ⟨⟨[("mine", "kimi"), ("old", "palm")], by decide⟩, ["toString"]⟩),
    ("telemetry", .other "maybe"), ("yolo", .other "true")], by decide⟩

theorem sampleTable_salvaged : ∃ config removals,
    (∀ fuel, size sampleTable < fuel → salvageConfigData sampleChecks.safeParse fuel sampleTable =
      some { config := some config, dropped := removals.map Removal.report }) ∧
    Salvaged sampleChecks.toSchema sampleChecks.safeParse sampleTable config removals :=
  salvageConfigData_spec sampleChecks.safeParse_validates sampleTable

example : (salvageConfigData sampleChecks.safeParse 6 sampleTable).map SalvageResult.dropped =
    some ["providers.old", "telemetry"] := by decide +kernel

end KimiCli.Salvage
