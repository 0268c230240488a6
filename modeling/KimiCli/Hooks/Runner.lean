import KimiCli.Hooks.Registry
import KimiCli.Js.Json
import KimiCli.Js.Text

/-!
# Hook processes

A trigger of a `HookEngine` (`session/hooks/engine.ts`): one process for each matching hook
(`session/hooks/runner.ts`), whose events come in any order, and the decision made of their results.
`parse` is `JSON.parse`, with `none` where it throws.
-/

namespace KimiCli

inductive HookAction
  | allow | block
  deriving DecidableEq

structure HookResult where
  action : HookAction := .allow
  message : Option String := none
  reason : Option String := none
  stdout : String
  stderr : String
  exitCode : Option ℤ := none
  timedOut : Option Bool := none
  structuredOutput : Option Bool := none

/-! ## Structured output -/

/-- `OptionalStringSchema`, for the value of a property. -/
def optionalString : Option Json → Option String
  | some (.string value) => some value
  | some (.number token) => some (String.ofList token.chars)
  | some (.bool value) => some (toString value)
  | _ => none

/-- `HookSpecificOutputSchema`: what is no record counts as missing. -/
def hookSpecificOutput (parsed : Json) : Option Json :=
  match parsed.property "hookSpecificOutput" with
  | some (.object members) => some (.object members)
  | _ => none

structure StructuredOutput where
  block : Bool := false
  reason : Option String := none
  message : Option String

/-- The output of the schemas for a parsed text. -/
def structuredOutput (parse : String → Option Json) (stdout : String) : Option StructuredOutput :=
  let text := trim stdout
  if text = "" then none
  else
    match parse text with
    | some (.object members) =>
      let parsed := Json.object members
      let specific := hookSpecificOutput parsed
      let message := optionalString (parsed.property "message") <|>
        specific.bind fun specific => optionalString (specific.property "message")
      match specific with
      | none => some { message }
      | some specific =>
        match specific.property "permissionDecision" with
        | some (.string "deny") =>
          some { block := true
                 message
                 reason := optionalString (specific.property "permissionDecisionReason") }
        | _ => some { message }
    | _ => none

def resultFromExitCode (parse : String → Option Json) (exitCode : ℤ) (stdout stderr : String) :
    HookResult :=
  if exitCode = 2 then
    let message := trim stderr
    { action := .block, message := some message, reason := some message, stdout, stderr
      exitCode := some exitCode }
  else
    match if exitCode = 0 then structuredOutput parse stdout else none with
    | none => { stdout, stderr, exitCode := some exitCode }
    | some structured =>
      if structured.block then
        { action := .block
          message := structured.message <|> structured.reason
          reason := structured.reason
          stdout, stderr
          exitCode := some exitCode
          structuredOutput := some true }
      else
        { message := structured.message, stdout, stderr, exitCode := some exitCode
          structuredOutput := some true }

/-! ## One process -/

inductive ChildEvent
  | stdout (chunk : String)
  | stderr (chunk : String)
  | error (message : String)
  /-- The process has ended, with an exit code or by a signal. -/
  | close (code : Option ℤ)
  | timeout
  | abort

/-- How the call of `runHook` starts. -/
inductive Spawn
  | started
  /-- `spawn` throws. -/
  | throws (message : String)
  /-- The signal was aborted before. -/
  | aborted
  deriving DecidableEq

/-- The state of `runHook`: what was read so far, and the result it has settled with. -/
structure Child where
  stdout : String := ""
  stderr : String := ""
  settled : Option HookResult := none

namespace Child

def settle (child : Child) (result : HookResult) : Child :=
  if child.settled.isSome then child else { child with settled := some result }

def start : Spawn → Child
  | .started => {}
  | .throws message => Child.settle {} { stdout := "", stderr := message }
  | .aborted => Child.settle {} { stdout := "", stderr := "" }

def handle (parse : String → Option Json) (child : Child) : ChildEvent → Child
  | .stdout chunk => { child with stdout := child.stdout ++ chunk }
  | .stderr chunk => { child with stderr := child.stderr ++ chunk }
  | .error message => child.settle { stdout := child.stdout, stderr := child.stderr ++ message }
  | .close code => child.settle (resultFromExitCode parse (code.getD 0) child.stdout child.stderr)
  | .timeout =>
    child.settle { stdout := child.stdout, stderr := child.stderr, timedOut := some true }
  | .abort => child.settle { stdout := child.stdout, stderr := child.stderr }

end Child

/-! ## A trigger -/

structure HookBlockDecision where
  reason : String
  deriving DecidableEq

/-- The reason that a decision states. -/
def blockReason (event : String) (reason : Option String) : String :=
  match reason.map trim with
  | none | some "" => s!"Blocked by {event} hook"
  | some reason => reason

def blockDecision (event : String) (results : List HookResult) : Option HookBlockDecision :=
  (results.find? (·.action = .block)).map fun block => ⟨blockReason event block.reason⟩

/-- The events of the processes, each with the number of its hook. -/
def runHooks (parse : String → Option Json) (children : List Child)
    (events : List (ℕ × ChildEvent)) : List Child :=
  events.foldl (fun children (i, event) => children.modify i (·.handle parse event)) children

/-- `Promise.all`: the results in the order of the hooks, once all of them have settled. -/
def allSettled (children : List Child) : Option (List HookResult) := children.mapM (·.settled)

/-- `trigger` once all hooks have settled. `onTriggered` and `onResolved` cannot change it; an
exception of `onOrchestrationEvent`, which is called when there is a user hook, makes it empty. -/
def trigger (orchestrationThrows : Bool) (matched : List HookDef) (results : List HookResult) :
    List HookResult :=
  if matched = [] then []
  else if (matched.any fun hook => hook.system ≠ some true) && orchestrationThrows then []
  else results

/-- A call of `triggerBlock`: how the matching hooks start, what happens to them, and the observer.
There is no answer as long as a hook runs. -/
structure TriggerCall where
  event : String
  /-- The matching hooks, with how their processes start. -/
  hooks : List (HookDef × Spawn)
  events : List (ℕ × ChildEvent)
  orchestrationThrows : Bool

namespace TriggerCall

variable (call : TriggerCall) (parse : String → Option Json)

def children : List Child :=
  runHooks parse (call.hooks.map fun (_, spawn) => Child.start spawn) call.events

def triggerBlock : Option (Option HookBlockDecision) :=
  (allSettled (call.children parse)).map fun results =>
    blockDecision call.event (trigger call.orchestrationThrows (call.hooks.map (·.1)) results)

end TriggerCall

/-! ## What a hook has decided -/

/-- The end of a process before its timeout and the abort. -/
structure HookExit where
  code : Option ℤ
  stdout : String
  stderr : String
  deriving DecidableEq

/-- The end of the process that has these events, after the given output. -/
def HookExit.after (stdout stderr : String) : List ChildEvent → Option HookExit
  | [] => none
  | .stdout chunk :: events => HookExit.after (stdout ++ chunk) stderr events
  | .stderr chunk :: events => HookExit.after stdout (stderr ++ chunk) events
  | .close code :: _ => some ⟨code, stdout, stderr⟩
  | .error _ :: _ | .timeout :: _ | .abort :: _ => none

/-- The denial that a text contains as a JSON object, with its reason. -/
def denial (parse : String → Option Json) (stdout : String) : Option (Option String) :=
  if trim stdout = "" then none
  else
    match parse (trim stdout) with
    | some (.object members) =>
      (hookSpecificOutput (.object members)).bind fun specific =>
        match specific.property "permissionDecision" with
        | some (.string "deny") =>
          some (optionalString (specific.property "permissionDecisionReason"))
        | _ => none
    | _ => none

/-- The process has exited with code 2, or with code 0 after it printed a denial. -/
def HookExit.denies (parse : String → Option Json) (exit : HookExit) : Option (Option String) :=
  if exit.code = some 2 then some (some (trim exit.stderr))
  else if exit.code = some 0 then denial parse exit.stdout
  else none

/-- The process was ended by a signal after it printed a denial. -/
def HookExit.killed (parse : String → Option Json) (exit : HookExit) : Option (Option String) :=
  if exit.code = none then denial parse exit.stdout else none

namespace TriggerCall

variable (call : TriggerCall) (parse : String → Option Json)

/-- The events of one hook. -/
def ownEvents (i : ℕ) : List ChildEvent :=
  call.events.filterMap fun (j, event) => if j = i then some event else none

/-- The ends of the processes, in the order of registration. -/
def exits : List (Option HookExit) :=
  call.hooks.zipIdx.map fun ((_, spawn), i) =>
    if spawn = .started then HookExit.after "" "" (call.ownEvents i) else none

/-- The reasons of the hooks that deny, in the order of registration. -/
def denials : List (Option String) := (call.exits).filterMap (·.bind (·.denies parse))

/-- The observer throws, and it is called. -/
def Silenced : Prop :=
  call.orchestrationThrows = true ∧ ∃ hook ∈ call.hooks, hook.1.system ≠ some true

end TriggerCall

/-- Before any hook that denies there is none that was killed after it printed a denial, unless
that one states the same reason. -/
def KilledHarmless (parse : String → Option Json) (event : String) : List (Option HookExit) → Prop
  | [] => True
  | exit :: exits =>
    if (exit.bind (·.denies parse)).isSome then True
    else
      match exit.bind (·.killed parse) with
      | none => KilledHarmless parse event exits
      | some reason =>
        ((exits.filterMap (·.bind (·.denies parse))).head?.map (blockReason event)) =
          some (blockReason event reason)

/-! ## Results -/

/-- The reason of a result that blocks. -/
def HookResult.denies (result : HookResult) : Option (Option String) :=
  if result.action = .block then some result.reason else none

/-- What the end of a process makes of a trigger. -/
def HookExit.verdict (parse : String → Option Json) (exit : HookExit) : Option (Option String) :=
  exit.denies parse <|> exit.killed parse

section

variable {parse : String → Option Json}

theorem structuredOutput_denial (stdout : String) :
    ((structuredOutput parse stdout).bind fun structured =>
      if structured.block then some structured.reason else none) = denial parse stdout := by
  unfold structuredOutput denial
  dsimp only
  split
  · rfl
  · split
    case h_1 members eq =>
      cases hookSpecificOutput (.object members) with
      | none => rfl
      | some =>
        simp only [Option.bind_some]
        split <;> rfl
    case h_2 => rfl

theorem denies_resultFromExitCode (exit : HookExit) :
    (resultFromExitCode parse (exit.code.getD 0) exit.stdout exit.stderr).denies =
      exit.verdict parse := by
  have zero : (resultFromExitCode parse 0 exit.stdout exit.stderr).denies =
      denial parse exit.stdout := by
    rw [← structuredOutput_denial]
    unfold resultFromExitCode
    rw [if_neg (show ¬ (0 : ℤ) = 2 by decide), if_pos (rfl : (0 : ℤ) = 0)]
    cases structuredOutput parse exit.stdout with
    | none => rfl
    | some structured =>
      dsimp only
      rw [Option.bind_some]
      cases structured.block <;> rfl
  unfold HookExit.verdict HookExit.denies HookExit.killed
  cases code : exit.code with
  | none => simpa using zero
  | some n =>
    simp only [Option.getD_some, Option.some.injEq, reduceCtorEq, if_false]
    by_cases two : n = 2
    · rw [two, if_pos rfl]
      rfl
    · rw [if_neg two]
      by_cases none : n = 0
      · rw [none, zero, if_pos rfl]
        cases denial parse exit.stdout <;> rfl
      · rw [if_neg none]
        unfold resultFromExitCode HookResult.denies
        rw [if_neg two, if_neg none]
        rfl

theorem handle_settled {child : Child} {result : HookResult} (settled : child.settled = some result)
    (events : List ChildEvent) :
    (events.foldl (Child.handle parse) child).settled = some result := by
  induction events generalizing child with
  | nil => exact settled
  | cons event events ih =>
    refine ih ?_
    cases event <;> simp [Child.handle, Child.settle, settled]

theorem handle_unsettled {child : Child} {result : HookResult} {events : List ChildEvent}
    (unsettled : child.settled = none)
    (settled : (events.foldl (Child.handle parse) child).settled = some result) :
    result.denies =
      (HookExit.after child.stdout child.stderr events).bind (·.verdict parse) := by
  induction events generalizing child with
  | nil =>
    rw [List.foldl_nil, unsettled] at settled
    cases settled
  | cons event events ih =>
    rw [List.foldl_cons] at settled
    cases event with
    | stdout chunk =>
      have still : (child.handle parse (.stdout chunk)).settled = none := unsettled
      exact ih still settled
    | stderr chunk =>
      have still : (child.handle parse (.stderr chunk)).settled = none := unsettled
      exact ih still settled
    | close =>
      rw [handle_settled (by rw [Child.handle, Child.settle, unsettled]; rfl)] at settled
      cases settled
      rw [HookExit.after, Option.bind_some, ← denies_resultFromExitCode]
    | error | timeout | abort =>
      rw [handle_settled (by rw [Child.handle, Child.settle, unsettled]; rfl)] at settled
      cases settled
      rfl

theorem getElem?_runHooks (children : List Child) (events : List (ℕ × ChildEvent)) (i : ℕ) :
    (runHooks parse children events)[i]? = children[i]?.map fun child =>
      (events.filterMap fun (j, event) => if j = i then some event else none).foldl
        (Child.handle parse) child := by
  unfold runHooks
  induction events generalizing children with
  | nil => simp
  | cons labelled events ih =>
    obtain ⟨j, event⟩ := labelled
    rw [List.foldl_cons, ih, List.getElem?_modify, List.filterMap_cons]
    by_cases same : j = i
    · simp only [if_pos same, Option.map_eq_map, Option.map_map, List.foldl_cons]
      rfl
    · simp [same]

/-- The results that block, each with its reason. -/
theorem blockDecision_eq (event : String) (results : List HookResult) :
    blockDecision event results =
      (results.filterMap (·.denies)).head?.map fun reason => ⟨blockReason event reason⟩ := by
  unfold blockDecision
  induction results with
  | nil => rfl
  | cons result results ih =>
    rw [List.find?_cons, List.filterMap_cons]
    by_cases blocks : result.action = .block
    · simp [HookResult.denies, blocks]
    · simpa [HookResult.denies, blocks] using ih

/-- Counting those that were killed makes no difference exactly when it is harmless. -/
theorem killedHarmless_iff (event : String) (exits : List (Option HookExit)) :
    ((exits.filterMap (·.bind (·.verdict parse))).head?.map (blockReason event) =
      (exits.filterMap (·.bind (·.denies parse))).head?.map (blockReason event)) ↔
        KilledHarmless parse event exits := by
  induction exits with
  | nil => simp [KilledHarmless]
  | cons exit exits ih =>
    rw [KilledHarmless, List.filterMap_cons, List.filterMap_cons]
    cases exit with
    | none => simpa using ih
    | some exit =>
      simp only [Option.bind_some]
      cases denies : exit.denies parse with
      | some => simp [HookExit.verdict, denies]
      | none =>
        cases killed : exit.killed parse with
        | none => simpa [HookExit.verdict, denies, killed] using ih
        | some =>
          simp only [HookExit.verdict, denies, killed]
          simp [eq_comm]

end

namespace TriggerCall

variable {call : TriggerCall} {parse : String → Option Json} {results : List HookResult}

theorem getElem?_children (i : ℕ) : (call.children parse)[i]? =
    call.hooks[i]?.map fun (_, spawn) =>
      (call.ownEvents i).foldl (Child.handle parse) (Child.start spawn) := by
  unfold children
  rw [getElem?_runHooks, List.getElem?_map, Option.map_map]
  rfl

theorem map_settled {children : List Child} (settled : allSettled children = some results) :
    children.map (·.settled) = results.map some := by
  unfold allSettled at settled
  induction children generalizing results with
  | nil =>
    cases settled
    rfl
  | cons child children ih =>
    rw [List.mapM_cons] at settled
    obtain ⟨result, own, settled⟩ := Option.bind_eq_some_iff.1 settled
    obtain ⟨rest, others, settled⟩ := Option.bind_eq_some_iff.1 settled
    cases settled
    rw [List.map_cons, List.map_cons, own, ih others]

theorem denies_results (settled : allSettled (call.children parse) = some results) :
    results.map (·.denies) = call.exits.map (·.bind (·.verdict parse)) := by
  refine List.ext_getElem? fun i => ?_
  have same := congrArg (·[i]?) (map_settled settled)
  simp only [List.getElem?_map, getElem?_children] at same
  rw [exits, List.map_map, List.getElem?_map, List.getElem?_map, List.getElem?_zipIdx]
  cases hook : call.hooks[i]? with
  | none =>
    cases result : results[i]? with
    | none => rfl
    | some result => simp [hook, result] at same
  | some entry =>
    obtain ⟨hook, spawn⟩ := entry
    cases result : results[i]? with
    | none => simp [hook, result] at same
    | some result =>
      rw [hook, result] at same
      simp only [Option.map_some, Option.some.injEq, Function.comp_apply, Nat.zero_add] at same ⊢
      cases spawn with
      | started => exact handle_unsettled rfl same
      | throws | aborted =>
        rw [handle_settled (by rfl)] at same
        cases same
        rfl

instance : Decidable call.Silenced :=
  inferInstanceAs (Decidable (call.orchestrationThrows = true ∧ _))

theorem silenced_iff : ((call.hooks.map (·.1)).any fun hook => hook.system ≠ some true) = true ∧
    call.orchestrationThrows = true ↔ call.Silenced := by
  rw [List.any_map, List.any_eq_true, Silenced, and_comm]
  refine and_congr Iff.rfl (exists_congr fun hook => and_congr Iff.rfl ?_)
  exact decide_eq_true_iff

theorem trigger_eq : trigger call.orchestrationThrows (call.hooks.map (·.1)) results =
    if call.hooks = [] ∨ call.Silenced then [] else results := by
  unfold trigger
  simp only [Bool.and_eq_true, silenced_iff, List.map_eq_nil_iff]
  by_cases none : call.hooks = [] <;> simp [none]

/-- Of two hooks the second one to be registered ends first, with code 2. -/
def guarded (orchestrationThrows : Bool) : TriggerCall :=
  { event := "PreToolUse"
    hooks := [({ event := "PreToolUse", command := "audit" }, .started),
      ({ event := "PreToolUse", command := "guard" }, .started)]
    events := [(1, .stderr "no writes\n"), (1, .close (some 2)), (0, .close (some 0))]
    orchestrationThrows }

end TriggerCall

end KimiCli
