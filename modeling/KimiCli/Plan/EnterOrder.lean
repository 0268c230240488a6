import KimiCli.Plan.Tracker

/-!
# Calls of `enter` that overlap

`agent/plan/index.ts`: `enter` sets the state, waits for the plan directory and logs only then,
while `cancel` and `exit` set and log at once.  Between the two, other calls run.
-/

namespace KimiCli

/-- What a call of `enter` waits for. -/
inductive EnterStage
  /-- `planTracker.clear()` -/
  | clearing
  /-- the plan directory -/
  | directory
  /-- the directory again, in `writeEmptyPlanFile` -/
  | fileDirectory
  /-- the empty plan file -/
  | file
  | settled
  deriving DecidableEq

structure EnterCall where
  id : String
  createFile : Bool
  stage : EnterStage := .clearing
  deriving DecidableEq

structure PlanCalls where
  planMode : PlanMode := {}
  records : List PlanRecord := []
  /-- The calls of `enter` in their order. -/
  calls : List EnterCall := []
  deriving DecidableEq

inductive PlanCallLabel
  | enter (id : String) (createFile : Bool)
  /-- What the call waits for has succeeded or failed. -/
  | resume (call : ℕ) (succeeds : Bool)
  | cancel (id : Option String)
  | exit (id : Option String)

namespace PlanCalls

variable (s : PlanCalls)

def logRecord (record : PlanRecord) : PlanCalls := { s with records := s.records ++ [record] }

def cancel (id : Option String) : PlanCalls :=
  { s.logRecord (.planModeCancel id) with planMode := {} }

def exit (id : Option String) : PlanCalls :=
  { s.logRecord (.planModeExit id) with planMode := {} }

def setStage (i : ℕ) (call : EnterCall) (stage : EnterStage) : PlanCalls :=
  { s with calls := s.calls.set i { call with stage } }

/-- `enter` up to its first wait; it throws where plan mode is active. -/
def enter (id : String) (createFile : Bool) : PlanCalls :=
  if s.planMode.isActive then s else { s with calls := s.calls ++ [{ id, createFile }] }

/-- `enter` from one wait to the next. -/
def resume (i : ℕ) (call : EnterCall) (succeeds : Bool) : Option PlanCalls :=
  match call.stage, succeeds with
  | .clearing, true =>
    some { s.setStage i call .directory with
      planMode := { isActive := true, planId := some call.id } }
  | .clearing, false => some (s.setStage i call .settled)
  | .directory, true =>
    some ((s.logRecord (.planModeEnter call.id)).setStage i call
      (if call.createFile then .fileDirectory else .settled))
  | .directory, false => some { s.setStage i call .settled with planMode := {} }
  | .fileDirectory, true => some (s.setStage i call .file)
  | .file, true => some (s.setStage i call .settled)
  | .fileDirectory, false | .file, false =>
    some ((s.cancel (some call.id)).setStage i call .settled)
  | .settled, _ => none

def step : PlanCallLabel → Option PlanCalls
  | .enter id createFile => some (s.enter id createFile)
  | .resume i succeeds => s.calls[i]?.bind fun call => s.resume i call succeeds
  | .cancel id => some (s.cancel id)
  | .exit id => some (s.exit id)

/-- Plan mode after a restart that restores these records. -/
def restored (records : List PlanRecord) : PlanMode :=
  (records.foldl PlanResume.restoreAgentRecord { file := none, records := [] }).planMode

/-- A restart would give the plan mode of the live agent. -/
def Replays : Prop := restored s.records = s.planMode

/-- All calls have settled. -/
def Settled : Prop := ∀ call ∈ s.calls, call.stage = .settled

/-- The steps after which the log tells what plan mode is: all that log, and a directory that cannot
be made. -/
def Decisive : PlanCallLabel → Prop
  | .enter _ _ => False
  | .resume i succeeds => ∃ call, s.calls[i]? = some call ∧
    (call.stage = .directory ∨
      succeeds = false ∧ (call.stage = .fileDirectory ∨ call.stage = .file))
  | .cancel _ | .exit _ => True

/-- Where a call has waited for its directory, nothing has come between: on success its plan is
still the plan, and on failure the last record is not that of another call. -/
def InOrder : PlanCallLabel → Prop
  | .resume i succeeds => ∀ call, s.calls[i]? = some call → call.stage = .directory →
    if succeeds then s.planMode = { isActive := true, planId := some call.id }
    else ∀ id, s.records.getLast? ≠ some (.planModeEnter id)
  | _ => True

variable {s} {t : PlanCalls} {i : ℕ} {call : EnterCall}

theorem restored_concat (records : List PlanRecord) (record : PlanRecord) :
    restored (records ++ [record]) = match record with
      | .planModeEnter id => { isActive := true, planId := some id }
      | .planModeCancel _ | .planModeExit _ => {}
      | .other _ => restored records := by
  rw [restored, List.foldl_append]
  cases record <;> rfl

/-- Only records of plan mode have been logged. -/
def LogsPlanMode (s : PlanCalls) : Prop := ∀ type, .other type ∉ s.records

theorem restored_eq_iff (logs : s.LogsPlanMode) :
    restored s.records = {} ↔ ∀ id, s.records.getLast? ≠ some (.planModeEnter id) := by
  rcases List.eq_nil_or_concat s.records with none | ⟨records, record, eq⟩
  · rw [none]
    exact iff_of_true rfl fun _ => nofun
  · rw [List.concat_eq_append] at eq
    rw [eq, restored_concat, List.getLast?_concat]
    cases record with
    | planModeEnter id => exact iff_of_false nofun fun no => no id rfl
    | planModeCancel | planModeExit => exact iff_of_true rfl fun _ => nofun
    | other type =>
      exact absurd (eq ▸ List.mem_append_right records (List.mem_singleton_self _)) (logs type)

/-- Some call waits for its directory. -/
def Entering (s : PlanCalls) : Prop := ∃ call ∈ s.calls, call.stage = .directory

variable {label : PlanCallLabel}

/-- After a decisive step a restart gives the plan mode exactly if the step was in order. -/
theorem replays_iff_of_decisive (logs : s.LogsPlanMode) (decisive : s.Decisive label)
    (next : s.step label = some t) :
    t.Replays ↔ s.InOrder label := by
  cases label with
  | enter => exact decisive.elim
  | cancel | exit =>
    cases next
    exact iff_of_true (restored_concat _ _) trivial
  | resume i succeeds =>
    obtain ⟨call, found, stage⟩ := decisive
    rw [step, found, Option.bind_some] at next
    unfold resume at next
    have inOrder : s.InOrder (.resume i succeeds) ↔ (call.stage = .directory →
        if succeeds then s.planMode = { isActive := true, planId := some call.id }
        else ∀ id, s.records.getLast? ≠ some (.planModeEnter id)) := by
      constructor
      · exact fun all => all call found
      · intro one other found'
        cases found.symm.trans found'
        exact one
    rw [inOrder]
    rcases stage with stage | ⟨rfl, stage⟩
    · rw [stage] at next
      rw [forall_prop_of_true stage]
      cases succeeds with
      | true =>
        cases next
        rw [Replays, setStage, logRecord, restored_concat]
        exact eq_comm
      | false =>
        cases next
        exact restored_eq_iff logs
    · have failed : t.planMode = {} ∧
          t.records = s.records ++ [.planModeCancel (some call.id)] := by
        rcases stage with stage | stage <;> rw [stage] at next <;>
          obtain rfl := Option.some.inj next <;> exact ⟨rfl, rfl⟩
      refine iff_of_true ?_ fun isDirectory => ?_
      · rw [Replays, failed.1, failed.2, restored_concat]
      · rcases stage with stage | stage <;> cases isDirectory.symm.trans stage

/-! ## The other steps -/

theorem entering_setStage {stage : EnterStage} (found : s.calls[i]? = some call)
    (not : call.stage ≠ .directory) (entering : s.Entering) :
    (s.setStage i call stage).Entering := by
  obtain ⟨other, mem, here⟩ := entering
  obtain ⟨j, lt, rfl⟩ := List.getElem_of_mem mem
  refine ⟨s.calls[j], ?_, here⟩
  have ne : i ≠ j := by
    rintro rfl
    rw [List.getElem?_eq_getElem lt] at found
    cases found
    exact not here
  rw [setStage, List.mem_iff_getElem?]
  exact ⟨j, by rw [List.getElem?_set_ne ne, List.getElem?_eq_getElem lt]⟩

/-- Any other step begins a wait for a directory, or keeps the plan mode and the log. -/
theorem quiet_step (quiet : ¬ s.Decisive label) (next : s.step label = some t) :
    (s.Entering → t.Entering) ∧
      (t.Entering ∨ t.planMode = s.planMode ∧ t.records = s.records) := by
  cases label with
  | cancel => exact absurd trivial quiet
  | exit => exact absurd trivial quiet
  | enter =>
    cases next
    rw [enter]
    split
    · exact ⟨fun entering => entering, .inr ⟨rfl, rfl⟩⟩
    · exact ⟨fun ⟨call, mem, here⟩ => ⟨call, List.mem_append_left _ mem, here⟩, .inr ⟨rfl, rfl⟩⟩
  | resume i succeeds =>
    obtain ⟨call, found, resumed⟩ := Option.bind_eq_some_iff.1 next
    have notDirectory : call.stage ≠ .directory := fun here => quiet ⟨call, found, .inl here⟩
    have kept {stage : EnterStage} : s.Entering → (s.setStage i call stage).Entering :=
      entering_setStage found notDirectory
    unfold resume at resumed
    cases stage : call.stage with
    | directory => exact absurd stage notDirectory
    | settled =>
      rw [stage] at resumed
      cases resumed
    | clearing =>
      rw [stage] at resumed
      cases succeeds with
      | true =>
        cases resumed
        have lt := (List.getElem?_eq_some_iff.1 found).1
        have entering : (s.setStage i call .directory).Entering :=
          ⟨_, List.mem_of_getElem? (List.getElem?_set_self lt), rfl⟩
        exact ⟨fun _ => entering, .inl entering⟩
      | false =>
        cases resumed
        exact ⟨kept, .inr ⟨rfl, rfl⟩⟩
    | fileDirectory =>
      cases succeeds with
      | true =>
        rw [stage] at resumed
        cases resumed
        exact ⟨kept, .inr ⟨rfl, rfl⟩⟩
      | false => exact absurd ⟨call, found, .inr ⟨rfl, .inl stage⟩⟩ quiet
    | file =>
      cases succeeds with
      | true =>
        rw [stage] at resumed
        cases resumed
        exact ⟨kept, .inr ⟨rfl, rfl⟩⟩
      | false => exact absurd ⟨call, found, .inr ⟨rfl, .inr stage⟩⟩ quiet

theorem Settled.not_entering (settled : s.Settled) : ¬ s.Entering := by
  rintro ⟨call, mem, here⟩
  exact nomatch here.symm.trans (settled call mem)

/-! ## Runs -/

variable {labels : List PlanCallLabel}

theorem replays_congr (planMode : t.planMode = s.planMode) (records : t.records = s.records) :
    t.Replays ↔ s.Replays := by
  rw [Replays, Replays, planMode, records]

theorem LogsPlanMode.concat {planMode : PlanMode} {calls : List EnterCall} {record : PlanRecord}
    (logs : s.LogsPlanMode) (isPlanMode : ∀ type, record ≠ .other type) :
    LogsPlanMode { planMode, records := s.records ++ [record], calls } := by
  intro type mem
  rcases List.mem_append.1 mem with mem | mem
  · exact logs type mem
  · exact isPlanMode type (List.mem_singleton.1 mem).symm

theorem LogsPlanMode.step (logs : s.LogsPlanMode) (next : s.step label = some t) :
    t.LogsPlanMode := by
  cases label with
  | cancel | exit =>
    cases next
    exact logs.concat nofun
  | enter =>
    cases next
    rw [enter]
    split
    · exact logs
    · exact logs
  | resume =>
    obtain ⟨call, -, resumed⟩ := Option.bind_eq_some_iff.1 next
    unfold resume at resumed
    split at resumed
    case h_3 => exact Option.some.inj resumed ▸ logs.concat nofun
    case h_7 => exact Option.some.inj resumed ▸ logs.concat nofun
    case h_8 => exact Option.some.inj resumed ▸ logs.concat nofun
    case h_9 => cases resumed
    all_goals exact Option.some.inj resumed ▸ logs

theorem logsPlanMode_of_run {ok : PlanCalls → PlanCallLabel → Prop}
    (run : Transition.Run step ok {} labels s) : s.LogsPlanMode :=
  run.invariant LogsPlanMode (fun _ => List.not_mem_nil) fun _ _ _ logs _ next => logs.step next

theorem entering_or_replays (run : Transition.Run step InOrder {} labels s) :
    s.Entering ∨ s.Replays := by
  refine (run.invariant (fun s => s.LogsPlanMode ∧ (s.Entering ∨ s.Replays))
    ⟨fun _ => List.not_mem_nil, .inr rfl⟩ ?_).2
  intro s label t ⟨logs, known⟩ inOrder next
  refine ⟨logs.step next, ?_⟩
  by_cases decisive : s.Decisive label
  · exact .inr ((replays_iff_of_decisive logs decisive next).2 inOrder)
  · obtain ⟨kept, entering | ⟨planMode, records⟩⟩ := quiet_step decisive next
    · exact .inl entering
    · exact known.imp kept (replays_congr planMode records).2

theorem replays_iff_of_quiet {u : PlanCalls}
    (run : Transition.Run step (fun s label => ¬ s.Decisive label) t labels u)
    (settled : u.Settled) : u.Replays ↔ t.Replays := by
  have known := run.invariant
    (fun u => u.Entering ∨ u.planMode = t.planMode ∧ u.records = t.records) (.inr ⟨rfl, rfl⟩)
    fun s label u known quiet next => by
      obtain ⟨kept, entering | ⟨planMode, records⟩⟩ := quiet_step quiet next
      · exact .inl entering
      · exact known.imp kept fun same => ⟨planMode.trans same.1, records.trans same.2⟩
  obtain ⟨planMode, records⟩ := known.resolve_left settled.not_entering
  exact replays_congr planMode records

/-- After a run whose steps are all in order, once all calls have settled, a restart gives the plan
mode of the live agent; and in any run the last decisive step tells whether it does. -/
theorem replays_of_inOrder (labels : List PlanCallLabel) (s : PlanCalls) :
    (Transition.Run step InOrder {} labels s → s.Settled → s.Replays) ∧
    ∀ label t after u, Transition.Run step Transition.Always {} labels s →
      s.Decisive label → s.step label = some t →
      Transition.Run step (fun s label => ¬ s.Decisive label) t after u → u.Settled →
      (u.Replays ↔ s.InOrder label) := by
  refine ⟨fun run settled => (entering_or_replays run).resolve_left settled.not_entering, ?_⟩
  intro label t after u run decisive next rest settled
  exact (replays_iff_of_quiet rest settled).trans
    (replays_iff_of_decisive (logsPlanMode_of_run run) decisive next)

/-- A call that nothing comes between replays, and one that is cancelled while it waits for its
directory does not. -/
theorem enter_replays_or_not :
    (∃ s, Transition.Run step InOrder {} [.enter "a" false, .resume 0 true, .resume 0 true] s ∧
      s.Settled ∧ s.Replays) ∧
    ∃ s, Transition.Run step Transition.Always {}
        [.enter "a" false, .resume 0 true, .cancel none, .resume 0 true] s ∧
      s.Settled ∧ ¬ s.Replays := by
  constructor
  · obtain ⟨s, run, settled⟩ : ∃ s, Transition.Run step InOrder {}
        [.enter "a" false, .resume 0 true, .resume 0 true] s ∧ s.Settled := by
      refine ⟨_, .cons trivial rfl <| .cons ?_ rfl <| .cons ?_ rfl .nil,
        List.forall_mem_singleton.2 rfl⟩
      · intro call found waits
        cases found
        cases waits
      · intro call found _
        cases found
        rfl
    exact ⟨s, run, settled, (replays_of_inOrder _ s).1 run settled⟩
  · obtain ⟨s, run, plan, waits⟩ : ∃ s, Transition.Run step Transition.Always {}
        [.enter "a" false, .resume 0 true, .cancel none] s ∧ s.planMode = {} ∧
          s.calls = [{ id := "a", createFile := false, stage := .directory }] :=
      ⟨_, .cons trivial rfl <| .cons trivial rfl <| .cons trivial rfl .nil, rfl, rfl⟩
    have found : s.calls[0]? = some { id := "a", createFile := false, stage := .directory } := by
      rw [waits]
      rfl
    obtain ⟨t, next, settled⟩ : ∃ t, s.step (.resume 0 true) = some t ∧ t.Settled := by
      rw [step, found]
      refine ⟨_, rfl, ?_⟩
      rw [Settled, setStage, logRecord, waits]
      exact List.forall_mem_singleton.2 rfl
    have decides := (replays_of_inOrder _ s).2 (.resume 0 true) t [] t run ⟨_, found, .inl rfl⟩ next
      .nil settled
    refine ⟨t, run.trans (.cons trivial next .nil), settled, fun same => ?_⟩
    have active : s.planMode = { isActive := true, planId := some "a" } :=
      decides.1 same _ found rfl
    rw [plan] at active
    cases active

/-- A call is cancelled while it waits for its directory, and logs afterwards. -/
theorem cancelledEnter_replayed :
    ∃ s, Transition.Run step Transition.Always {}
        [.enter "a" false, .resume 0 true, .cancel none, .resume 0 true] s ∧
      s.Settled ∧ s.planMode = {} ∧
      restored s.records = { isActive := true, planId := some "a" } := by
  have run : Transition.exec (Transition.guarded step Transition.Always) {}
      [.enter "a" false, .resume 0 true, .cancel none, .resume 0 true] =
      some { records := [.planModeCancel none, .planModeEnter "a"],
             calls := [{ id := "a", createFile := false, stage := .settled }] } := by
    decide
  exact ⟨_, .of_exec run, List.forall_mem_singleton.2 rfl, rfl, rfl⟩

end PlanCalls

end KimiCli
