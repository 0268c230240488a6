import KimiCli.Js.Text
import KimiCli.Kosong.Message

/-!
# Reading a legacy `context.jsonl`

`migration-legacy/src/sessions/translator.ts` and `content-part.ts`: the rows of a kimi-cli session,
translated into messages of the new wire log.  `parse` is `JSON.parse`, with `none` where it throws.
-/

namespace KimiCli

/-- `JSON.parse` and the file system. -/
structure MigrationHost where
  parse : String → Option Json
  existsSync : String → Bool

/-- The roles of messages that are kept. -/
inductive NormalizedRole
  | user | assistant | tool
  deriving DecidableEq

/-- A tool call of a row. -/
structure NormalizedToolCall where
  id : String
  name : String
  arguments : String

/-- A message that a row gives. -/
structure NormalizedMessage where
  role : NormalizedRole
  content : List ContentPart
  toolCalls : List NormalizedToolCall
  toolCallId : Option String := none

/-! ## Content parts -/

/-- `coerceToString`: what is not a string becomes its JSON text, and nothing the empty text. -/
def coerceToString : Option Json → String
  | some (.string text) => text
  | none | some .null => ""
  | some value => value.stringify

/-- `/^[a-z]+:\/\//i`. -/
def hasScheme (url : List Char) : Bool :=
  let rest := url.dropWhile Char.isAlpha
  rest.length < url.length && [':', '/', '/'].isPrefixOf rest

/-- The kinds of media of a part. -/
inductive MediaKind
  | image | audio | video

/-- The kind as placeholders name it. -/
def MediaKind.name : MediaKind → String
  | image => "image"
  | audio => "audio"
  | video => "video"

/-- The part of this kind. -/
def MediaKind.part : MediaKind → MediaUrl → ContentPart
  | image => .imageUrl
  | audio => .audioUrl
  | video => .videoUrl

/-- A placeholder stands for a missing address and for a file that is gone. -/
def convertMediaPart (host : MigrationHost) (kind : MediaKind) (part : Json) : ContentPart :=
  match part.property "url" with
  | some (.string url) =>
    if url.length = 0 then .text s!"[{kind.name} missing url]"
    else if !hasScheme url.toList && url.startsWith "/" && !host.existsSync url then
      .text s!"[{kind.name} expired]"
    else
      match part.property "id" with
      | some (.string id) => kind.part ⟨url, some id⟩
      | _ => kind.part ⟨url, none⟩
  | _ => .text s!"[{kind.name} missing url]"

/-- The placeholder of a part of another type. -/
def unsupportedContent (part : Json) : ContentPart :=
  .text s!"[unsupported content: {part.stringify}]"

/-- One part of a row's content. -/
def normalizeContentPart (host : MigrationHost) (part : Json) : ContentPart :=
  match part.property "type" with
  | some (.string "text") => .text (coerceToString (part.property "text"))
  | some (.string "think") =>
    let think := coerceToString (part.property "think")
    match part.property "encrypted" with
    | some (.string encrypted) =>
      .think think (if encrypted.length > 0 then some encrypted else none)
    | _ => .think think none
  | some (.string "image") => convertMediaPart host .image part
  | some (.string "audio") => convertMediaPart host .audio part
  | some (.string "video") => convertMediaPart host .video part
  | _ => unsupportedContent part

/-! ## Rows -/

/-- The content of a row; what is neither a text nor a list becomes its JSON text. -/
def normalizeContent (host : MigrationHost) : Option Json → List ContentPart
  | none | some .null => []
  | some (.string raw) => [.text raw]
  | some (.array raw) => raw.map (normalizeContentPart host)
  | some raw => [.text raw.stringify]

/-- A function call with an id and a name; arguments that are no string are empty. -/
def parseToolCall (raw : Json) : Option NormalizedToolCall :=
  match raw.property "type", raw.property "id", raw.property "function" with
  | some (.string "function"), some (.string id), some fn =>
    match fn.property "name" with
    | some (.string name) =>
      match fn.property "arguments" with
      | some (.string arguments) => some ⟨id, name, arguments⟩
      | _ => some ⟨id, name, ""⟩
    | _ => none
  | _, _, _ => none

/-- The message of a user's row. -/
def buildUser (host : MigrationHost) (obj : Json) : NormalizedMessage where
  role := .user
  content := normalizeContent host (obj.property "content")
  toolCalls := []

/-- The calls of a row that can be read. -/
def rowToolCalls (obj : Json) : List NormalizedToolCall :=
  match obj.property "tool_calls" with
  | some (.array calls) => calls.filterMap parseToolCall
  | _ => []

/-- The message of an assistant's row. -/
def buildAssistant (host : MigrationHost) (obj : Json) : NormalizedMessage where
  role := .assistant
  content := normalizeContent host (obj.property "content")
  toolCalls := rowToolCalls obj

/-- The call that a row answers, or the empty id. -/
def rowToolCallId (obj : Json) : String :=
  match obj.property "tool_call_id" with
  | some (.string id) => id
  | _ => ""

/-- The message of a tool's row. -/
def buildTool (host : MigrationHost) (obj : Json) : NormalizedMessage where
  role := .tool
  content := normalizeContent host (obj.property "content")
  toolCalls := []
  toolCallId := some (rowToolCallId obj)

/-- The roles of rows that are no messages, and of those that are. -/
def droppedRoles : List String := ["_system_prompt", "_checkpoint", "_usage"]

def usableRoles : List String := ["user", "assistant", "tool"]

/-- A line that parses to an object with a string `role`, and that role. -/
def parseRow (host : MigrationHost) (rawLine : String) : Option (String × Json) :=
  let line := trim rawLine
  if line = "" then none
  else
    match host.parse line with
    | none => none
    | some parsed =>
      if parsed.isObject then
        match parsed.property "role" with
        | some (.string role) => some (role, parsed)
        | _ => none
      else none

/-- The loop of `translateContextLines`: what one line pushes. -/
def translateLine (host : MigrationHost) (rawLine : String) : Option NormalizedMessage :=
  match parseRow host rawLine with
  | none => none
  | some (role, obj) =>
    if role ∈ droppedRoles then none
    else if role = "user" then some (buildUser host obj)
    else if role = "assistant" then some (buildAssistant host obj)
    else if role = "tool" then some (buildTool host obj)
    else none

/-- The messages of a file. -/
def translateContextLines (host : MigrationHost) (lines : List String) : List NormalizedMessage :=
  lines.filterMap (translateLine host)

/-- What a context file is worth. -/
inductive ContextContent
  | real | empty | corrupt

/-- The scan of `analyzeContextContent`; the flags are `hadParseableLine` and `hadAnyNonBlank`. -/
def analyzeLines (host : MigrationHost) (parseable nonBlank : Bool) : List String → ContextContent
  | [] => if nonBlank && !parseable then .corrupt else .empty
  | rawLine :: lines =>
    let line := trim rawLine
    if line = "" then analyzeLines host parseable nonBlank lines
    else
      match host.parse line with
      | none => analyzeLines host parseable true lines
      | some parsed =>
        if parsed.isObject then
          match parsed.property "role" with
          | some (.string role) =>
            if role ∈ usableRoles then .real else analyzeLines host true true lines
          | _ => analyzeLines host true true lines
        else analyzeLines host parseable true lines

/-- `real` if some row is a message; without one, `corrupt` if only unreadable lines are there. -/
def analyzeContextContent (host : MigrationHost) (lines : List String) : ContextContent :=
  analyzeLines host false false lines

/-! ## The rows of a file -/

/-- The role of a row that is a message. -/
def usableRole (role : String) : Option NormalizedRole :=
  if role = "user" then some .user
  else if role = "assistant" then some .assistant
  else if role = "tool" then some .tool
  else none

/-- The `user`, `assistant` or `tool` row of a line. -/
def usableRow (host : MigrationHost) (rawLine : String) : Option (NormalizedRole × Json) :=
  (parseRow host rawLine).bind fun (role, obj) => (usableRole role).map (·, obj)

/-- The rows of a file, in order. -/
def usableRows (host : MigrationHost) (lines : List String) : List (NormalizedRole × Json) :=
  lines.filterMap (usableRow host)

/-- The message a row becomes. -/
def rowMessage (host : MigrationHost) : NormalizedRole × Json → NormalizedMessage
  | (.user, obj) => buildUser host obj
  | (.assistant, obj) => buildAssistant host obj
  | (.tool, obj) => buildTool host obj

variable (host : MigrationHost)

theorem usableRole_isSome {role : String} : (usableRole role).isSome ↔ role ∈ usableRoles := by
  unfold usableRole
  split_ifs with user assistant tool <;> simp [usableRoles, *]

theorem translateLine_eq (rawLine : String) :
    translateLine host rawLine = (usableRow host rawLine).map (rowMessage host) := by
  unfold translateLine usableRow
  rcases parseRow host rawLine with - | ⟨role, obj⟩
  · rfl
  · by_cases user : role = "user"
    · subst user
      rfl
    by_cases assistant : role = "assistant"
    · subst assistant
      rfl
    by_cases tool : role = "tool"
    · subst tool
      rfl
    simp [usableRole, user, assistant, tool]

/-- Translation keeps exactly the usable rows, in order. -/
theorem translateContextLines_eq (lines : List String) :
    translateContextLines host lines = (usableRows host lines).map (rowMessage host) := by
  rw [translateContextLines, usableRows, List.map_filterMap]
  exact congrArg (lines.filterMap ·) (funext (translateLine_eq host))

theorem analyzeLines_real (lines : List String) (parseable nonBlank : Bool) :
    analyzeLines host parseable nonBlank lines = .real ↔ usableRows host lines ≠ [] := by
  induction lines generalizing parseable nonBlank with
  | nil =>
    simp only [analyzeLines, usableRows, List.filterMap_nil, ne_eq, not_true, iff_false]
    split <;> nofun
  | cons rawLine lines ih =>
    rw [analyzeLines, usableRows, List.filterMap_cons, ← usableRows, usableRow, parseRow]
    by_cases blank : trim rawLine = ""
    · simp only [blank, if_true, Option.bind_none]
      exact ih _ _
    simp only [blank, if_false]
    rcases host.parse (trim rawLine) with - | parsed
    · exact ih _ _
    by_cases object : parsed.isObject = true
    · simp only [object, if_true]
      rcases parsed.property "role" with - | (- | - | - | role | - | -)
      all_goals try exact ih _ _
      simp only [← usableRole_isSome, Option.bind_some]
      rcases usableRole role with - | usable
      · exact ih _ _
      · simp
    · simp only [object]
      exact ih _ _

/-- `'real'` says that some message survives translation. -/
theorem analyzeContextContent_real (lines : List String) :
    analyzeContextContent host lines = .real ↔ translateContextLines host lines ≠ [] := by
  rw [analyzeContextContent, analyzeLines_real, translateContextLines_eq]
  exact not_congr List.map_eq_nil_iff.symm

end KimiCli
