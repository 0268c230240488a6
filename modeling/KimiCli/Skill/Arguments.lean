import KimiCli.Js.Units

/-!
# Arguments in the body of a skill

`expandSkillParameters` puts the arguments of a call, the directory of the skill and the id of the
session into the body of a skill, in one pass over the text for each kind of placeholder.
-/

namespace KimiCli.Skill

def isWord (c : UInt16) : Bool :=
  isDigitUnit c || (ascii 'a' ≤ c && c ≤ ascii 'z') || (ascii 'A' ≤ c && c ≤ ascii 'Z') ||
    c = ascii '_'

/-- What `tokenizeArgs` has read of the arguments. -/
structure Tokens where
  out : List (List UInt16) := []
  current : List UInt16 := []
  quote : Option UInt16 := none
  hasContent : Bool := false

def Tokens.read (tokens : Tokens) (char : UInt16) : Tokens :=
  match tokens.quote with
  | some quote =>
    if char = quote then { tokens with quote := none }
    else { tokens with current := tokens.current ++ [char], hasContent := true }
  | none =>
    if char = ascii '"' ∨ char = ascii '\'' then
      { tokens with quote := some char, hasContent := true }
    else if isJsSpaceUnit char then
      if tokens.hasContent then { out := tokens.out ++ [tokens.current] } else tokens
    else { tokens with current := tokens.current ++ [char], hasContent := true }

def tokenizeArgs (raw : List UInt16) : List (List UInt16) :=
  let tokens := raw.foldl Tokens.read {}
  if tokens.hasContent then tokens.out ++ [tokens.current] else tokens.out

def escapeXmlTags (input : List UInt16) : List UInt16 :=
  (input.flatMap fun c => if c = ascii '<' then units "&lt;" else [c]).flatMap fun c =>
    if c = ascii '>' then units "&gt;" else [c]

/-! ## One pass over the text -/

/-- A `replaceAll`: how long the match at the start of a text is, and what stands for a matched
text.  Where this is given as a string, the host interprets the dollar signs in it. -/
structure Pass where
  find : List UInt16 → Option ℕ
  pos : ∀ {text n}, find text = some n → 0 < n
  value : List UInt16 → List UInt16
  template : Bool

/-- What a replacement string stands for, for a pattern without groups. -/
def getSubstitution (matched before after : List UInt16) : List UInt16 → List UInt16
  | [] => []
  | [c] => [c]
  | c :: d :: rest =>
    if c = ascii '$' then
      if d = ascii '$' then c :: getSubstitution matched before after rest
      else if d = ascii '&' then matched ++ getSubstitution matched before after rest
      else if d = ascii '\x60' then before ++ getSubstitution matched before after rest
      else if d = ascii '\'' then after ++ getSubstitution matched before after rest
      else c :: getSubstitution matched before after (d :: rest)
    else c :: getSubstitution matched before after (d :: rest)

namespace Pass

def put (pass : Pass) (matched before after : List UInt16) : List UInt16 :=
  if pass.template then getSubstitution matched before after (pass.value matched)
  else pass.value matched

/-- The text from a position on.  Of the match before it, so many characters are left to pass. -/
def scan (pass : Pass) (before : List UInt16) : ℕ → List UInt16 → List UInt16
  | _, [] => []
  | skip + 1, c :: rest => scan pass (before ++ [c]) skip rest
  | 0, c :: rest =>
    match pass.find (c :: rest) with
    | some n =>
      pass.put ((c :: rest).take n) before ((c :: rest).drop n) ++
        scan pass (before ++ [c]) (n - 1) rest
    | none => c :: scan pass (before ++ [c]) 0 rest

def replaceAll (pass : Pass) (content : List UInt16) : List UInt16 := pass.scan [] 0 content

/-- Every occurrence of a text, `search` being what follows its first character. -/
def literal (first : UInt16) (search value : List UInt16) : Pass where
  find text := if (first :: search) <+: text then some (search.length + 1) else none
  pos found := by
    split at found
    · rw [← Option.some.inj found]
      exact Nat.succ_pos _
    · cases found
  value _ := value
  template := true

/-- `$name`, where neither `[` nor a word character follows. -/
def named (name value : List UInt16) : Pass where
  find text :=
    if (ascii '$' :: name) <+: text ∧
        ((text.drop (name.length + 1)).head?.all fun c => c ≠ ascii '[' && !isWord c) then
      some (name.length + 1)
    else none
  pos found := by
    split at found
    · rw [← Option.some.inj found]
      exact Nat.succ_pos _
    · cases found
  value _ := value
  template := true

end Pass

def parseInt (digits : List UInt16) : ℕ := digits.foldl (fun n c => 10 * n + (c.toNat - 48)) 0

/-- `$ARGUMENTS[i]` -/
def indexed (tokens : List (List UInt16)) : Pass where
  find text :=
    let digits := (text.drop 11).takeWhile isDigitUnit
    if units "$ARGUMENTS[" <+: text ∧ digits ≠ [] ∧
        (text.drop (11 + digits.length)).head? = some (ascii ']') then
      some (12 + digits.length)
    else none
  pos found := by
    dsimp only at found
    split at found
    · rw [← Option.some.inj found]
      omega
    · cases found
  value matched :=
    escapeXmlTags (tokens.getD (parseInt ((matched.drop 11).takeWhile isDigitUnit)) [])
  template := false

/-- `$i`, where no word character follows. -/
def numbered (tokens : List (List UInt16)) : Pass where
  find text :=
    let digits := (text.drop 1).takeWhile isDigitUnit
    if [ascii '$'] <+: text ∧ digits ≠ [] ∧
        (text.drop (1 + digits.length)).head?.all fun c => !isWord c then
      some (1 + digits.length)
    else none
  pos found := by
    dsimp only at found
    split at found
    · rw [← Option.some.inj found]
      omega
    · cases found
  value matched := escapeXmlTags (tokens.getD (parseInt (matched.drop 1)) [])
  template := false

/-! ## The expansion -/

structure SkillExpandContext where
  skillDir : List UInt16
  sessionId : Option (List UInt16) := none
  argumentNames : List (List UInt16) := []

def argumentPasses (rawArgs : List UInt16) (context : SkillExpandContext) : List Pass :=
  let tokens := tokenizeArgs rawArgs
  (context.argumentNames.mapIdx fun index name =>
      .named name (escapeXmlTags (tokens.getD index []))) ++
    [indexed tokens, numbered tokens,
      .literal (ascii '$') (units "ARGUMENTS") (escapeXmlTags rawArgs)]

/-- The passes for the directory and for the session, with their values. -/
def placePasses (skillDir sessionId : List UInt16) : List Pass :=
  [.literal (ascii '$') (units "\x7bKIMI_SKILL_DIR\x7d") skillDir,
    .literal (ascii '$') (units "\x7bKIMI_SESSION_ID\x7d") sessionId]

def contextPasses (context : SkillExpandContext) : List Pass :=
  placePasses context.skillDir (context.sessionId.getD [])

/-- The passes in their order, each over what the one before has left. -/
def replaceInTurn (passes : List Pass) (content : List UInt16) : List UInt16 :=
  passes.foldl (fun content pass => pass.replaceAll content) content

def argumentsLine (rawArgs : List UInt16) : List UInt16 :=
  units "\n\nARGUMENTS: " ++ escapeXmlTags rawArgs

def expandSkillParameters (body rawArgs : List UInt16) (context : SkillExpandContext) :
    List UInt16 :=
  let content := replaceInTurn (argumentPasses rawArgs context) body
  let hasArgumentPlaceholder := content ≠ body
  let content := replaceInTurn (contextPasses context) content
  if ¬ hasArgumentPlaceholder ∧ 0 < rawArgs.length then content ++ argumentsLine rawArgs
  else content

end KimiCli.Skill
