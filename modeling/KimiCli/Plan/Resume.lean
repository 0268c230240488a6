import KimiCli.Plan.Tracker

/-!
# The tracked plan after a resume

Restoring a `plan_mode.cancel` record runs `PlanTracker.clear` again, which empties the file of a
plan that was approved later.
-/

namespace KimiCli

/-! ## What is read back -/

/-- The plans that `ExitPlanMode` has put into the tracker. -/
def approvedPlans (labels : List PlanLabel) : List PlanTrackerData :=
  labels.filterMap fun
    | .approve stamp planText title => some (stamp.data planText title)
    | _ => none

/-- What the tracker relies on `JSON.parse` for. -/
structure ParsesPlans (parse : String → Option Json) (plans : List PlanTrackerData) : Prop where
  roundTrip : ∀ data ∈ plans, parse data.toJson.stringifyIndented = some data.toJson
  cleared : parse "{}" = some (.object [])
  empty : parse "" = none

variable {parse : String → Option Json} {plans : List PlanTrackerData}

theorem isValid_toJson (data : PlanTrackerData) : isValidPlanTrackerData data.toJson = true := by
  obtain ⟨id, title, createdAt, tasks, currentTaskId⟩ := data
  cases currentTaskId <;> rfl

namespace PlanResume

theorem holds_plan {data : PlanTrackerData} (parses : ParsesPlans parse plans)
    (mem : data ∈ plans) :
    holds parse (some data.toJson.stringifyIndented) = some data.toJson := by
  rw [holds, Option.bind_some, parses.roundTrip data mem, Option.filter_some,
    if_pos (isValid_toJson data)]

theorem holds_cleared (parses : ParsesPlans parse plans) : holds parse (some "{}") = none := by
  rw [holds, Option.bind_some, parses.cleared]
  rfl

theorem holds_empty (parses : ParsesPlans parse plans) : holds parse (some "") = none := by
  rw [holds, Option.bind_some, parses.empty]
  rfl

end PlanResume

/-! ## Live runs -/

namespace PlanAgent

/-- The file holds the plan of the tracker. -/
def Tracked (parse : String → Option Json) (agent : PlanAgent) : Prop :=
  ∀ value, agent.data = some value → PlanResume.holds parse agent.file = some value

variable {agent agent' initial : PlanAgent}

theorem tracked_of_none (none : agent.data = none) : agent.Tracked parse := by
  intro value eq
  rw [none] at eq
  cases eq

theorem Tracked.of_same (tracked : agent.Tracked parse) (data : agent'.data = agent.data)
    (file : agent'.file = agent.file) : agent'.Tracked parse := by
  intro value eq
  rw [file]
  exact tracked value (data.symm.trans eq)

theorem Tracked.step {label : PlanLabel} (tracked : agent.Tracked parse)
    (parses : ParsesPlans parse (approvedPlans [label])) (next : agent.step label = some agent') :
    agent'.Tracked parse := by
  cases label with
  | enter id failure =>
    cases next
    unfold PlanAgent.enter
    split
    · exact tracked
    · cases failure with
      | none => exact tracked_of_none rfl
      | some failure => cases failure <;> exact tracked_of_none rfl
  | exit | record =>
    cases next
    exact tracked.of_same rfl rfl
  | cancel =>
    cases next
    exact tracked_of_none rfl
  | approve =>
    rw [PlanAgent.step] at next
    split at next
    · cases next
      intro value eq
      cases eq
      exact PlanResume.holds_plan parses (List.mem_singleton_self _)
    · cases next

theorem tracked_of_run {labels : List PlanLabel} (tracked : initial.Tracked parse)
    (run : Transition.Run PlanAgent.step Transition.Always initial labels agent)
    (parses : ParsesPlans parse (approvedPlans labels)) : agent.Tracked parse := by
  refine run.invariant_labels (fun labels agent =>
    ParsesPlans parse (approvedPlans labels) → agent.Tracked parse) (fun _ => tracked)
    (fun labels agent label agent' known _ next parses => ?_) parses
  have parts : ∀ part, (∀ data ∈ approvedPlans part, data ∈ approvedPlans (labels ++ [label])) →
      ParsesPlans parse (approvedPlans part) := fun part sub =>
    { parses with roundTrip := fun data mem => parses.roundTrip data (sub data mem) }
  unfold approvedPlans at parts
  rw [List.filterMap_append] at parts
  exact (known (parts _ fun _ mem => List.mem_append_left _ mem)).step
    (parts _ fun _ mem => List.mem_append_right _ mem) next

end PlanAgent

/-! ## Resumes -/

namespace PlanResume

/-- The agent that is resumed from these. -/
def resumed (file : Option String) (records : List PlanRecord) : PlanResume := { file, records }

/-- A resume of this file and these records. -/
structure Resuming (parse : String → Option Json) (file : Option String)
    (records : List PlanRecord) (resume : PlanResume) : Prop where
  count : resume.clears.length + resume.records.countP (·.isCancel) = records.countP (·.isCancel)
  untouched : (∀ phase ∈ resume.clears, phase = .making) → resume.file = file
  cleared : (∀ phase ∈ resume.clears, phase ≠ .truncated) → .done ∈ resume.clears →
    resume.file = some "{}"
  contents : resume.file = file ∨ resume.file = some "" ∨ resume.file = some "{}"
  fresh : resume.loaded = false → resume.data = none
  loaded : resume.loaded = true → resume.records = [] ∧
    (resume.data = none ∨ resume.data = holds parse file) ∧
    (records.countP (·.isCancel) = 0 → resume.data = holds parse file)

variable {file : Option String} {records : List PlanRecord} {resume resume' : PlanResume}

theorem resuming_start : (resumed file records).Resuming parse file records :=
  ⟨Nat.zero_add _, fun _ => rfl, fun _ no => (nomatch no), .inl rfl, fun _ => rfl,
    fun no => nomatch no⟩

theorem Resuming.restore {record : PlanRecord} {rest : List PlanRecord}
    (inv : resume.Resuming parse file records) (pending : resume.records = record :: rest) :
    ({ resume with records := rest }.restoreAgentRecord record).Resuming parse file records := by
  have waiting : resume.loaded = false := by
    refine Bool.eq_false_iff.2 fun loaded => ?_
    have none := (inv.loaded loaded).1
    rw [pending] at none
    cases none
  have count := inv.count
  rw [pending, List.countP_cons] at count
  have same (quiet : record.isCancel = false) (planMode : PlanMode) :
      ({ resume with records := rest, planMode } : PlanResume).Resuming parse file records := by
    rw [quiet] at count
    exact { inv with
      count := count
      loaded := fun loaded => absurd loaded (Bool.eq_false_iff.1 waiting) }
  cases record with
  | planModeEnter | planModeExit | other => exact same rfl _
  | planModeCancel id =>
    refine ⟨?_, fun making => inv.untouched fun phase mem => making phase ?_,
      fun settled done => inv.cleared (fun phase mem => settled phase ?_) ?_, inv.contents,
      fun _ => rfl, fun loaded => absurd loaded (Bool.eq_false_iff.1 waiting)⟩
    · change (resume.clears ++ [ClearPhase.making]).length + rest.countP (·.isCancel) = _
      rw [show (PlanRecord.planModeCancel id).isCancel = true from rfl, if_pos rfl] at count
      rw [List.length_append, List.length_singleton, ← count]
      omega
    · exact List.mem_append_left _ mem
    · exact List.mem_append_left _ mem
    · rcases List.mem_append.1 done with mem | new
      · exact mem
      · cases List.mem_singleton.1 new

theorem Resuming.clear {i : ℕ} (inv : resume.Resuming parse file records)
    (next : resume.step parse (.clear i) = some resume') :
    resume'.Resuming parse file records := by
  rw [step] at next
  have self : ∀ {old new : ClearPhase}, resume.clears[i]? = some old →
      new ∈ resume.clears.set i new := fun found =>
    List.mem_set (List.getElem?_eq_some_iff.1 found).1 _
  split at next
  case h_1 found =>
    cases next
    refine { inv with
      count := by rw [List.length_set]; exact inv.count
      untouched := fun making => nomatch making _ (self found)
      cleared := fun settled _ => absurd rfl (settled _ (self found))
      contents := .inr (.inl rfl) }
  case h_2 found =>
    cases next
    refine { inv with
      count := by rw [List.length_set]; exact inv.count
      untouched := fun making => nomatch making _ (self found)
      cleared := fun _ _ => rfl
      contents := .inr (.inr rfl) }
  case h_3 => cases next

theorem Resuming.load (parses : ParsesPlans parse plans)
    (inv : resume.Resuming parse file records) (restored : resume.records = [])
    (waiting : resume.loaded = false) : (resume.load parse).Resuming parse file records := by
  have data : (resume.load parse).data = holds parse resume.file := by
    change (holds parse resume.file <|> resume.data) = _
    rw [inv.fresh waiting]
    cases holds parse resume.file <;> rfl
  refine { inv with
    fresh := fun no => nomatch no
    loaded := fun _ => ⟨restored, ?_, fun none => ?_⟩ }
  · rw [data]
    rcases inv.contents with same | eq | eq
    · exact .inr (congrArg _ same)
    · exact .inl (eq ▸ holds_empty parses)
    · exact .inl (eq ▸ holds_cleared parses)
  · have count := inv.count
    rw [none] at count
    have noClears : resume.clears = [] := List.length_eq_zero_iff.1 (by omega)
    rw [data, inv.untouched fun phase mem => by rw [noClears] at mem; cases mem]

theorem resuming_of_run {labels : List ResumeLabel} (parses : ParsesPlans parse plans)
    (run : Transition.Run (step parse) Transition.Always (resumed file records) labels resume) :
    resume.Resuming parse file records := by
  refine run.invariant (Resuming parse file records) resuming_start
    fun resume label resume' inv _ next => ?_
  cases label with
  | restore =>
    rw [step] at next
    split at next
    · cases next
    · next record rest pending =>
      cases next
      exact inv.restore pending
  | clear => exact inv.clear next
  | load =>
    rw [step] at next
    split at next
    · next ready =>
      cases next
      exact inv.load parses ready.1 (by simpa using ready.2)
    · cases next

theorem countP_eq_zero : records.countP (·.isCancel) = 0 ↔
    ∀ record ∈ records, record.isCancel = false := by
  simp [List.countP_eq_zero]

theorem Resuming.settled_file (inv : resume.Resuming parse file records)
    (settled : resume.Settled) :
    resume.file = if records.countP (·.isCancel) = 0 then file else some "{}" := by
  obtain ⟨restored, -, done⟩ := settled
  have count := inv.count
  rw [restored, List.countP_nil, Nat.add_zero] at count
  split
  · next none =>
    have noClears : resume.clears = [] := List.length_eq_zero_iff.1 (count.trans none)
    exact inv.untouched fun phase mem => by rw [noClears] at mem; cases mem
  · next some =>
    obtain ⟨phase, mem⟩ := List.exists_mem_of_length_pos
      (Nat.pos_of_ne_zero fun zero => some (count.symm.trans zero))
    refine inv.cleared (fun phase mem truncated => ?_) (done phase mem ▸ mem)
    rw [done phase mem] at truncated
    cases truncated

/-- Every resume can settle. -/
theorem can_settle (parse : String → Option Json) (resume : PlanResume)
    (waiting : resume.loaded = false) (done : ∀ phase ∈ resume.clears, phase = .done) :
    ∃ labels settled, Transition.Run (step parse) Transition.Always resume labels settled ∧
      settled.Settled := by
  obtain ⟨planMode, data, file, records, clears, loaded⟩ := resume
  obtain rfl : loaded = false := waiting
  induction records generalizing planMode data file clears with
  | nil => exact ⟨[.load], _, .snoc .nil trivial rfl, rfl, rfl, done⟩
  | cons record records ih =>
    have restores (resume : PlanResume)
        (eq : resume = (PlanResume.mk planMode data file records clears
          false).restoreAgentRecord record) :
        step parse (PlanResume.mk planMode data file (record :: records) clears false) .restore =
          some resume := eq ▸ rfl
    cases record with
    | planModeCancel =>
      let begun : PlanResume :=
        { file, records, clears := clears ++ [.making] }
      have first : begun.step parse (.clear clears.length) =
          some { begun with file := some "", clears := clears ++ [.truncated] } := by
        simp [step, begun]
      have second : ({ begun with file := some "", clears := clears ++ [.truncated] } :
          PlanResume).step parse (.clear clears.length) =
            some { begun with file := some "{}", clears := clears ++ [.done] } := by
        simp [step]
      have all : ∀ phase ∈ clears ++ [ClearPhase.done], phase = .done := fun phase mem =>
        (List.mem_append.1 mem).elim (done phase) List.mem_singleton.1
      obtain ⟨labels, settled, run, ok⟩ := ih {} none (some "{}") (clears ++ [.done]) all
      exact ⟨_, settled, .cons trivial (restores _ rfl) (.cons trivial first
        (.cons trivial second run)), ok⟩
    | planModeEnter id =>
      obtain ⟨labels, settled, run, ok⟩ :=
        ih { isActive := true, planId := some id } data file clears done
      exact ⟨_, settled, .cons trivial (restores _ rfl) run, ok⟩
    | planModeExit =>
      obtain ⟨labels, settled, run, ok⟩ := ih {} data file clears done
      exact ⟨_, settled, .cons trivial (restores _ rfl) run, ok⟩
    | other =>
      obtain ⟨labels, settled, run, ok⟩ := ih planMode data file clears done
      exact ⟨_, settled, .cons trivial (restores _ rfl) run, ok⟩

/-! ## When nothing is lost -/

/-- Every settled resume leaves the file as it was. -/
def KeepsFile (parse : String → Option Json) (file : Option String) (records : List PlanRecord) :
    Prop :=
  ∀ labels resume, Transition.Run (step parse) Transition.Always (resumed file records) labels
    resume → resume.Settled → resume.file = file

/-- No plan was cancelled, or the tracker file is the cleared one. -/
def Harmless (file : Option String) (records : List PlanRecord) : Prop :=
  (∀ record ∈ records, record.isCancel = false) ∨ file = some "{}"

theorem keepsFile_iff (parses : ParsesPlans parse plans) :
    KeepsFile parse file records ↔ Harmless file records := by
  constructor
  · intro keeps
    obtain ⟨labels, resume, run, settled⟩ := can_settle parse
      (resumed file records) rfl (fun _ no => nomatch no)
    have kept := (resuming_of_run parses run).settled_file settled
    rw [keeps labels resume run settled] at kept
    split at kept
    · next none => exact .inl (countP_eq_zero.1 none)
    · exact .inr kept
  · intro harmless labels resume run settled
    rw [(resuming_of_run parses run).settled_file settled]
    split
    · rfl
    · next some =>
      exact (harmless.resolve_left fun quiet => some (countP_eq_zero.2 quiet)).symm

/-- Every settled resume of the agent gives back its tracker. -/
def Keeps (parse : String → Option Json) (agent : PlanAgent) : Prop :=
  ∀ labels resume, Transition.Run (step parse) Transition.Always
    (resumed agent.file agent.records) labels resume → resume.Settled →
      resume.data = agent.data ∧ resume.file = agent.file

theorem keeps_iff {agent : PlanAgent} (parses : ParsesPlans parse plans)
    (tracked : agent.Tracked parse) :
    Keeps parse agent ↔ Harmless agent.file agent.records ∧
      (agent.data = none → holds parse agent.file = none) := by
  constructor
  · intro keeps
    have harmless := (keepsFile_iff parses).1 fun labels resume run settled =>
      (keeps labels resume run settled).2
    refine ⟨harmless, fun untracked => ?_⟩
    rcases harmless with quiet | cleared
    · obtain ⟨labels, resume, run, settled⟩ := can_settle parse
        (resumed agent.file agent.records) rfl (fun _ no => nomatch no)
      have data := ((resuming_of_run parses run).loaded settled.2.1).2.2 (countP_eq_zero.2 quiet)
      rw [← data, (keeps labels resume run settled).1, untracked]
    · rw [cleared, holds_cleared parses]
  · rintro ⟨harmless, untracked⟩ labels resume run settled
    refine ⟨?_, (keepsFile_iff parses).2 harmless labels resume run settled⟩
    obtain ⟨-, data, unchanged⟩ := (resuming_of_run parses run).loaded settled.2.1
    have read : holds parse agent.file = agent.data := by
      cases known : agent.data with
      | none => exact untracked known
      | some value => exact tracked value known
    rcases harmless with quiet | cleared
    · exact (unchanged (countP_eq_zero.2 quiet)).trans read
    · have none : agent.data = none := by rw [← read, cleared, holds_cleared parses]
      rw [read, none, or_self] at data
      rw [data, none]

end PlanResume

/-- After every live run: each resume that settles gives back the tracker and its file exactly when
no plan was cancelled or the tracker was cleared last, and a tracker without a plan has not found
one in its file.  Restoring a log changes the file exactly when it holds a cancelled plan and the
file is not the cleared one. -/
theorem resume_keeps_iff (parse : String → Option Json) :
    (∀ initial labels agent, initial.Tracked parse →
      Transition.Run PlanAgent.step Transition.Always initial labels agent →
      ParsesPlans parse (approvedPlans labels) →
      (PlanResume.Keeps parse agent ↔ PlanResume.Harmless agent.file agent.records ∧
        (agent.data = none → PlanResume.holds parse agent.file = none))) ∧
    ∀ file records, ParsesPlans parse [] →
      (PlanResume.KeepsFile parse file records ↔ PlanResume.Harmless file records) :=
  ⟨fun _ _ _ tracked run parses =>
      PlanResume.keeps_iff parses (PlanAgent.tracked_of_run tracked run parses),
    fun _ _ parses => PlanResume.keepsFile_iff parses⟩

/-! ## Sample runs -/

def sampleStamp : PlanStamp :=
  { planId := "1", taskId := toString, createdAt := "2026-01-01T00:00:00.000Z" }

/-- Reads the cleared file and the plan of the sample. -/
def sampleParse (text : String) : Option Json :=
  if text = "{}" then some (.object [])
  else
    let data := sampleStamp.data "- [ ] Ship it" "ship"
    if text = data.toJson.stringifyIndented then some data.toJson else none

/-- A plan is cancelled, and the next one approved. -/
def cancelledThenApproved : List PlanLabel :=
  [.enter "draft" none, .cancel none, .enter "ship" none,
    .approve sampleStamp "- [ ] Ship it" "ship"]

theorem sampleParse_parses {plans : List PlanTrackerData}
    (known : ∀ data ∈ plans, data = sampleStamp.data "- [ ] Ship it" "ship") :
    ParsesPlans sampleParse plans where
  roundTrip data mem := by
    rw [known data mem, sampleParse, if_neg (by decide +kernel)]
    exact if_pos rfl
  cleared := if_pos rfl
  empty := (if_neg (by decide)).trans (if_neg (by decide +kernel))

theorem resume_keeps_approved : ∃ agent,
    Transition.Run PlanAgent.step Transition.Always {}
      [.enter "ship" none, .approve sampleStamp "- [ ] Ship it" "ship"] agent ∧
    PlanResume.Keeps sampleParse agent ∧ PlanResume.KeepsFile sampleParse agent.file [] := by
  obtain ⟨agent, run, data, records⟩ : ∃ agent,
      Transition.Run PlanAgent.step Transition.Always {}
        [.enter "ship" none, .approve sampleStamp "- [ ] Ship it" "ship"] agent ∧
      agent.data = some (sampleStamp.data "- [ ] Ship it" "ship").toJson ∧
      agent.records = [.planModeEnter "ship", .planModeExit none] :=
    ⟨_, .cons trivial rfl (.cons trivial rfl .nil), rfl, rfl⟩
  obtain ⟨live, restoring⟩ := resume_keeps_iff sampleParse
  refine ⟨agent, run, (live {} _ agent ?_ run ?_).2 ⟨.inl ?_, ?_⟩,
    (restoring agent.file [] (sampleParse_parses fun _ no => nomatch no)).2 (.inl ?_)⟩
  · exact PlanAgent.tracked_of_none rfl
  · exact sampleParse_parses fun data mem => List.mem_singleton.1 mem
  · rw [records]
    decide
  · rw [data]
    exact fun no => nomatch no
  · exact fun _ no => nomatch no

/-- The clear of the cancelled plan settles before the tracker is loaded: the approved plan is
lost. -/
theorem plan_lost : ∃ agent resume,
    Transition.Run PlanAgent.step Transition.Always {} cancelledThenApproved agent ∧
    agent.data = some (sampleStamp.data "- [ ] Ship it" "ship").toJson ∧
    agent.file = some (sampleStamp.data "- [ ] Ship it" "ship").toJson.stringifyIndented ∧
    Transition.Run (PlanResume.step sampleParse) Transition.Always
      (PlanResume.resumed agent.file agent.records)
      [.restore, .restore, .clear 0, .clear 0, .restore, .restore, .load] resume ∧
    resume.Settled ∧ resume.data = none ∧ resume.file = some "{}" := by
  have parses : ParsesPlans sampleParse [] := sampleParse_parses fun _ no => nomatch no
  refine ⟨_, _, .cons trivial rfl (.cons trivial rfl (.cons trivial rfl (.cons trivial rfl .nil))),
    rfl, rfl, .cons trivial rfl (.cons trivial rfl (.cons trivial rfl (.cons trivial rfl
      (.cons trivial rfl (.cons trivial rfl (.cons trivial rfl .nil)))))), ⟨rfl, rfl, ?_⟩, ?_, rfl⟩
  · exact fun phase mem => List.mem_singleton.1 mem
  · exact PlanResume.holds_cleared parses

end KimiCli
