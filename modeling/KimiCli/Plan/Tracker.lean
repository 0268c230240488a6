import KimiCli.Js.Json
import KimiCli.Js.Text
import KimiCli.Lib.Run

/-!
# Plan mode and its tracker

`agent/plan`: plan mode, the tracker of the approved plan with its file, the records that plan mode
logs, and a resume of the agent, whose file steps come in any order.  A text that `readFile` gives
is parsed by `parse`, which is `JSON.parse` with `none` where it throws.
-/

namespace KimiCli

/-! ## Indented JSON -/

namespace Json

def indentation (depth : ℕ) : List Char := List.replicate (2 * depth) ' '

mutual

def renderIndented (depth : ℕ) : Json → List Char
  | .array items =>
    if items.isEmpty then ['[', ']']
    else
      '[' :: '\n' :: (renderIndentedItems (depth + 1) items ++ '\n' :: indentation depth ++ [']'])
  | .object members =>
    if members.isEmpty then ['{', '}']
    else
      '{' :: '\n' ::
        (renderIndentedMembers (depth + 1) members ++ '\n' :: indentation depth ++ ['}'])
  | value => value.render

def renderIndentedItems (depth : ℕ) : List Json → List Char
  | [] => []
  | [item] => indentation depth ++ item.renderIndented depth
  | item :: items =>
    indentation depth ++ item.renderIndented depth ++ ',' :: '\n' :: renderIndentedItems depth items

def renderIndentedMembers (depth : ℕ) : List (String × Json) → List Char
  | [] => []
  | [(key, value)] => indentation depth ++ quote key ++ ':' :: ' ' :: value.renderIndented depth
  | (key, value) :: members =>
    indentation depth ++ quote key ++ ':' :: ' ' :: value.renderIndented depth ++
      ',' :: '\n' :: renderIndentedMembers depth members

end

/-- `JSON.stringify(value, null, 2)`. -/
def stringifyIndented (value : Json) : String := String.ofList (value.renderIndented 0)

end Json

/-! ## The tracked plan -/

inductive PlanTaskStatus
  | pending | in_progress | done | blocked | skipped
  deriving DecidableEq

def PlanTaskStatus.text : PlanTaskStatus → String
  | .pending => "pending"
  | .in_progress => "in_progress"
  | .done => "done"
  | .blocked => "blocked"
  | .skipped => "skipped"

structure PlanTask where
  id : String
  title : String
  description : Option String := none
  status : PlanTaskStatus

structure PlanTrackerData where
  id : String
  title : String
  createdAt : String
  tasks : List PlanTask
  currentTaskId : Option String := none

/-- A property that may be `undefined`, which `JSON.stringify` leaves out. -/
def optionalMember (key : String) (value : Option String) : List (String × Json) :=
  (value.map fun value => (key, Json.string value)).toList

def PlanTask.toJson (task : PlanTask) : Json :=
  .object ([("id", .string task.id), ("title", .string task.title)] ++
    optionalMember "description" task.description ++ [("status", .string task.status.text)])

def PlanTrackerData.toJson (data : PlanTrackerData) : Json :=
  .object ([("id", .string data.id), ("title", .string data.title),
      ("createdAt", .string data.createdAt), ("tasks", .array (data.tasks.map PlanTask.toJson))] ++
    optionalMember "currentTaskId" data.currentTaskId)

def isValidPlanTrackerData (value : Json) : Bool :=
  (match value.property "id" with
    | some (.string _) => true
    | _ => false) &&
  (match value.property "title" with
    | some (.string _) => true
    | _ => false) &&
  (match value.property "tasks" with
    | some (.array _) => true
    | _ => false)

/-! ## Plans in Markdown -/

/-- The text behind `/^#{2,4}\s+/`. -/
def planHeading (line : List Char) : Option (List Char) :=
  let hashes := (line.takeWhile (· = '#')).length
  let rest := line.drop hashes
  if 2 ≤ hashes ∧ hashes ≤ 4 ∧ rest.head?.any isJsSpace then some (trimStartChars rest) else none

/-- The text behind `/^(?:[-*]|\d+\.)\s+/`. -/
def planListItem (line : List Char) : Option (List Char) :=
  let behind :=
    match line with
    | '-' :: rest | '*' :: rest => some rest
    | _ =>
      match line.takeWhile Char.isDigit, line.dropWhile Char.isDigit with
      | _ :: _, '.' :: rest => some rest
      | _, _ => none
  behind.bind fun rest => if rest.head?.any isJsSpace then some (trimStartChars rest) else none

/-- The dot of a regular expression matches all of the text. -/
def oneLine (text : List Char) : Bool :=
  text.all fun c => c ≠ '\n' && c ≠ '\r' && c.toNat ≠ 0x2028 && c.toNat ≠ 0x2029

/-- The mark and the title of `/^(?:[-*]|\d+\.)\s+\[([ xX~])\]\s+(.*)$/`. -/
def planCheckedItem (line : List Char) : Option (Char × List Char) :=
  match planListItem line with
  | some ('[' :: check :: ']' :: rest) =>
    let title := trimStartChars rest
    if check ∈ [' ', 'x', 'X', '~'] ∧ rest.head?.any isJsSpace ∧ oneLine title then
      some (check, trimEndChars title)
    else none
  | _ => none

/-- One line of the plan, after the heading and the tasks of the lines before it. -/
def parsePlanLine (taskId : ℕ → String) (parsed : List Char × List PlanTask) (rawLine : List Char) :
    List Char × List PlanTask :=
  let (currentHeading, tasks) := parsed
  let line := trimEndChars (trimStartChars rawLine)
  let description :=
    if currentHeading = [] then none else some s!"Group: {String.ofList currentHeading}"
  let id := s!"task_{taskId tasks.length}"
  if line = [] then parsed
  else
    match planHeading line with
    | some heading => (trimEndChars heading, tasks)
    | none =>
      match planCheckedItem line with
      | some (check, title) =>
        let status := if check = 'x' ∨ check = 'X' then .done
          else if check = '~' then .skipped else .pending
        (currentHeading, tasks ++ [{ id, title := String.ofList title, description, status }])
      | none =>
        match planListItem line with
        | some rest =>
          let title := trimEndChars rest
          if oneLine rest ∧ '[' ∉ line ∧ 0 < utf16Length title ∧ utf16Length title < 200 then
            (currentHeading,
              tasks ++ [{ id, title := String.ofList title, description, status := .pending }])
          else parsed
        | none => parsed

def parsePlanMarkdown (taskId : ℕ → String) (text : String) : List PlanTask :=
  ((text.toList.splitOn '\n').foldl (parsePlanLine taskId) ([], [])).2

example : (parsePlanMarkdown toString "## Setup\n- [x] install\n1. run it\nand look").map
    (fun task => (task.title, task.status)) = [("install", .done), ("run it", .pending)] := by
  decide +kernel

/-- What a plan is given from outside: random identifiers and the time. -/
structure PlanStamp where
  planId : String
  taskId : ℕ → String
  createdAt : String

def PlanStamp.data (stamp : PlanStamp) (planText title : String) : PlanTrackerData :=
  let tasks := parsePlanMarkdown stamp.taskId planText
  { id := s!"plan_{stamp.planId}"
    title := if title = "" then "Approved Plan" else title
    createdAt := stamp.createdAt
    tasks
    currentTaskId := (tasks.find? (·.status = .pending)).map (·.id) }

/-! ## A live agent -/

/-- The records of an agent; those that plan mode does not log are `other`. -/
inductive PlanRecord
  | planModeEnter (id : String)
  | planModeCancel (id : Option String)
  | planModeExit (id : Option String)
  | other (type : String)
  deriving DecidableEq

def PlanRecord.isCancel : PlanRecord → Bool
  | .planModeCancel _ => true
  | _ => false

structure PlanMode where
  isActive : Bool := false
  planId : Option String := none
  deriving DecidableEq

structure PlanAgent where
  planMode : PlanMode := {}
  /-- `PlanTracker.data`. -/
  data : Option Json := none
  /-- The content of `plan-tracker.json`. -/
  file : Option String := none
  records : List PlanRecord := []

/-- Where `enter` fails. -/
inductive EnterFailure
  | planDirectory | planFile

inductive PlanLabel
  | enter (id : String) (failure : Option EnterFailure)
  | exit (id : Option String)
  | cancel (id : Option String)
  /-- `ExitPlanMode` exits and initializes the tracker. -/
  | approve (stamp : PlanStamp) (planText title : String)
  | record (type : String)

namespace PlanAgent

variable (agent : PlanAgent)

/-- `PlanTracker.clear`. -/
def clear : PlanAgent := { agent with data := none, file := some "{}" }

def logRecord (record : PlanRecord) : PlanAgent :=
  { agent with records := agent.records ++ [record] }

def exit (id : Option String) : PlanAgent :=
  { agent with planMode := {} }.logRecord (.planModeExit id)

def cancel (id : Option String) : PlanAgent :=
  ({ agent with planMode := {} }.logRecord (.planModeCancel id)).clear

def initializeFromPlan (data : PlanTrackerData) : PlanAgent :=
  { agent with data := some data.toJson, file := some data.toJson.stringifyIndented }

def enter (id : String) (failure : Option EnterFailure) : PlanAgent :=
  if agent.planMode.isActive then agent
  else
    let entered := { agent.clear with planMode := { isActive := true, planId := some id } }
    match failure with
    | none => entered.logRecord (.planModeEnter id)
    | some .planDirectory => agent.clear
    | some .planFile => (entered.logRecord (.planModeEnter id)).cancel (some id)

/-- A step of a live agent, with all its writes. -/
def step : PlanLabel → Option PlanAgent
  | .enter id failure => some (agent.enter id failure)
  | .exit id => some (agent.exit id)
  | .cancel id => some (agent.cancel id)
  | .approve stamp planText title =>
    if agent.planMode.isActive then
      some ((agent.exit none).initializeFromPlan (stamp.data planText title))
    else none
  | .record type => some (agent.logRecord (.other type))

end PlanAgent

/-! ## Resume -/

/-- How far a `clear` has come: before and after `writeFile` has emptied the file. -/
inductive ClearPhase
  | making | truncated | done

structure PlanResume where
  planMode : PlanMode := {}
  data : Option Json := none
  file : Option String
  /-- The records that are still to be restored. -/
  records : List PlanRecord
  /-- The calls of `clear` that nobody waits for. -/
  clears : List ClearPhase := []
  loaded : Bool := false

inductive ResumeLabel
  | restore
  | clear (i : ℕ)
  | load

namespace PlanResume

variable (parse : String → Option Json)

/-- The valid plan of a file. -/
def holds (file : Option String) : Option Json :=
  (file.bind parse).filter isValidPlanTrackerData

def restoreAgentRecord (resume : PlanResume) : PlanRecord → PlanResume
  | .planModeEnter id => { resume with planMode := { isActive := true, planId := some id } }
  | .planModeCancel _ =>
    { resume with planMode := {}, data := none, clears := resume.clears ++ [.making] }
  | .planModeExit _ => { resume with planMode := {} }
  | .other _ => resume

/-- `PlanTracker.load`. -/
def load (resume : PlanResume) : PlanResume :=
  { resume with data := holds parse resume.file <|> resume.data, loaded := true }

def step (resume : PlanResume) : ResumeLabel → Option PlanResume
  | .restore =>
    match resume.records with
    | [] => none
    | record :: records => some ({ resume with records }.restoreAgentRecord record)
  | .clear i =>
    match resume.clears[i]? with
    | some .making => some { resume with file := some "", clears := resume.clears.set i .truncated }
    | some .truncated => some { resume with file := some "{}", clears := resume.clears.set i .done }
    | _ => none
  | .load =>
    if resume.records = [] ∧ !resume.loaded then some (resume.load parse) else none

/-- The log has been restored, the tracker loaded and every write has settled. -/
def Settled (resume : PlanResume) : Prop :=
  resume.records = [] ∧ resume.loaded = true ∧ ∀ phase ∈ resume.clears, phase = .done

end PlanResume

end KimiCli
