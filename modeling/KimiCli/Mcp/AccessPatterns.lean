import KimiCli.Lib.DoubledSeparator
import KimiCli.Mcp.ToolNaming
import Mathlib.Tactic.IntervalCases

/-!
# Access patterns for MCP tools

`setActiveTools` and `isMcpToolEnabled` of `agent/tool/index.ts`, and what a qualified name says
about its server and tool.  The glob library is a parameter; of it a pattern that ends in its only
`*` is used.
-/

namespace KimiCli

open DoubledSeparator

/-- The entries that `setActiveTools` keeps as exact names and those it keeps as patterns. -/
structure ActiveTools where
  enabledTools : List (List Char)
  mcpAccessPatterns : List (List Char)

def setActiveTools (names : List (List Char)) : ActiveTools where
  enabledTools := names.filter fun name => !isMcpToolName name
  mcpAccessPatterns := names.filter isMcpToolName

def isMcpToolEnabled (isMatch : List Char → List Char → Bool) (tools : ActiveTools)
    (name : List Char) : Bool :=
  tools.mcpAccessPatterns.any (isMatch name)

/-- `picomatch.isMatch(name, pattern)` on names and patterns without a special character but for
the star at the end. -/
def StarMatches (isMatch : List Char → List Char → Bool) : Prop :=
  ∀ name text : List Char, (∀ c ∈ name, isMcpNameChar c = true) →
    (∀ c ∈ text, isMcpNameChar c = true) → text ≠ [] →
    isMatch name (text ++ ['*']) = text.isPrefixOf name

/-- The pattern for all tools of a server. -/
def serverPattern (serverName : List Char) : List Char :=
  mcpNamePrefix ++ sanitizeMcpNamePart serverName ++ mcpNameSeparator ++ ['*']

/-- The qualified name before it is cut. -/
def fullMcpToolName (serverName toolName : List Char) : List Char :=
  mcpNamePrefix ++ sanitizeMcpNamePart serverName ++ mcpNameSeparator ++
    sanitizeMcpNamePart toolName

/-- The name is not truncated. -/
def Fits (serverName toolName : List Char) : Prop :=
  (fullMcpToolName serverName toolName).length ≤ maxQualifiedLength

instance (serverName toolName : List Char) : Decidable (Fits serverName toolName) :=
  inferInstanceAs (Decidable (_ ≤ _))

/-- The parts of a qualified name, read by cutting at the first `__` after the prefix. -/
def splitMcpToolName (name : List Char) : Option (List Char × List Char) :=
  cut '_' (name.drop mcpNamePrefix.length)

/-- The name of a tool is well formed, gives its parts back, and is shared with another tool, or
granted by the pattern of a server, only where the parts say so. -/
structure Identifies (isMatch : List Char → List Char → Bool)
    (server tool server' tool' : List Char) : Prop where
  short : (qualifyMcpToolName server tool).length ≤ 64
  safe : ∀ c ∈ qualifyMcpToolName server tool, isMcpNameChar c = true
  mcp : isMcpToolName (qualifyMcpToolName server tool) = true
  parts : Fits server tool → splitMcpToolName (qualifyMcpToolName server tool) =
    some (sanitizeMcpNamePart server, sanitizeMcpNamePart tool)
  injective : Fits server tool → Fits server' tool' →
    qualifyMcpToolName server tool = qualifyMcpToolName server' tool' →
    sanitizeMcpNamePart server = sanitizeMcpNamePart server' ∧
      sanitizeMcpNamePart tool = sanitizeMcpNamePart tool'
  granted : Fits server tool →
    (isMcpToolEnabled isMatch (setActiveTools [serverPattern server'])
      (qualifyMcpToolName server tool) = true ↔
        sanitizeMcpNamePart server = sanitizeMcpNamePart server')

/-! ## Safe characters -/

theorem mem_collapseUnderscores {c : Char} {cs : List Char} (mem : c ∈ collapseUnderscores cs) :
    c ∈ cs := by
  fun_induction collapseUnderscores cs with
  | case1 cs ih => exact List.mem_cons_of_mem _ (ih mem)
  | case2 d cs other ih =>
    rcases List.mem_cons.1 mem with rfl | mem
    · exact List.mem_cons_self
    · exact List.mem_cons_of_mem _ (ih mem)
  | case3 => exact mem

theorem sanitizeMcpNamePart_safe (part : List Char) :
    ∀ c ∈ sanitizeMcpNamePart part, isMcpNameChar c = true := by
  intro c mem
  obtain ⟨d, -, rfl⟩ := List.mem_map.1 (mem_collapseUnderscores mem)
  by_cases safe : isMcpNameChar d = true
  · rw [if_pos safe]
    exact safe
  · rw [if_neg safe]
    rfl

theorem mcpNamePrefix_safe : ∀ c ∈ mcpNamePrefix, isMcpNameChar c = true :=
  List.all_eq_true.1 (by decide)

theorem mcpNameSeparator_safe : ∀ c ∈ mcpNameSeparator, isMcpNameChar c = true :=
  List.all_eq_true.1 (by decide)

theorem fullMcpToolName_safe (server tool : List Char) :
    ∀ c ∈ fullMcpToolName server tool, isMcpNameChar c = true := by
  intro c mem
  rw [fullMcpToolName, List.mem_append, List.mem_append, List.mem_append] at mem
  rcases mem with ((mem | mem) | mem) | mem
  · exact mcpNamePrefix_safe c mem
  · exact sanitizeMcpNamePart_safe server c mem
  · exact mcpNameSeparator_safe c mem
  · exact sanitizeMcpNamePart_safe tool c mem

theorem digitChar_safe {d : ℕ} (digit : d < 16) : isMcpNameChar d.digitChar = true := by
  interval_cases d <;> rfl

theorem toDigits_safe (n : ℕ) : ∀ c ∈ Nat.toDigits 16 n, isMcpNameChar c = true := by
  induction n using Nat.strong_induction_on with
  | _ n ih =>
    intro c mem
    rw [Nat.toDigits_eq_if (by decide)] at mem
    split at mem
    case isTrue small =>
      rw [List.mem_singleton.1 mem]
      exact digitChar_safe small
    case isFalse large =>
      rcases List.mem_append.1 mem with mem | mem
      · exact ih (n / 16) (Nat.div_lt_self (by omega) (by decide)) c mem
      · rw [List.mem_singleton.1 mem]
        exact digitChar_safe (Nat.mod_lt n (by decide))

theorem stableHash8_safe (input : List Char) :
    ∀ c ∈ stableHash8 input, isMcpNameChar c = true := by
  intro c mem
  rw [stableHash8, paddedHex, List.mem_append] at mem
  rcases mem with mem | mem
  · rw [List.eq_of_mem_replicate mem]
    rfl
  · split at mem
    · rcases List.mem_cons.1 mem with rfl | mem
      · rfl
      · exact toDigits_safe _ c mem
    · exact toDigits_safe _ c mem

theorem qualifyMcpToolName_safe (server tool : List Char) :
    ∀ c ∈ qualifyMcpToolName server tool, isMcpNameChar c = true := by
  have full := fullMcpToolName_safe server tool
  intro c mem
  unfold qualifyMcpToolName at mem
  dsimp only at mem
  split at mem
  · exact full c mem
  · rcases List.mem_append.1 mem with mem | mem
    · exact full c (List.mem_of_mem_take mem)
    · rcases List.mem_cons.1 mem with rfl | mem
      · rfl
      · exact stableHash8_safe _ c mem

/-! ## Names that are not truncated -/

section

variable {isMatch : List Char → List Char → Bool} {server tool server' tool' : List Char}

theorem qualifyMcpToolName_of_fits (fits : Fits server tool) :
    qualifyMcpToolName server tool = fullMcpToolName server tool := by
  unfold qualifyMcpToolName
  exact if_pos fits

theorem fullMcpToolName_eq (server tool : List Char) : fullMcpToolName server tool =
    mcpNamePrefix ++ (sanitizeMcpNamePart server ++ '_' :: '_' :: sanitizeMcpNamePart tool) := by
  rw [fullMcpToolName, List.append_assoc, List.append_assoc]
  rfl

theorem splitMcpToolName_of_fits (fits : Fits server tool) :
    splitMcpToolName (qualifyMcpToolName server tool) =
      cut '_' (sanitizeMcpNamePart server ++ '_' :: '_' :: sanitizeMcpNamePart tool) := by
  rw [splitMcpToolName, qualifyMcpToolName_of_fits fits, fullMcpToolName_eq, List.drop_left]

/-- Which tools the pattern of a server grants. -/
theorem isMcpToolEnabled_iff (glob : StarMatches isMatch) (fits : Fits server tool) :
    isMcpToolEnabled isMatch (setActiveTools [serverPattern server'])
      (qualifyMcpToolName server tool) = true ↔
        sanitizeMcpNamePart server = sanitizeMcpNamePart server' ∨
          sanitizeMcpNamePart server = sanitizeMcpNamePart server' ++ ['_'] ∨
            (sanitizeMcpNamePart server' = sanitizeMcpNamePart server ++ ['_'] ∧
              (sanitizeMcpNamePart tool).head? = some '_') := by
  have pattern : (setActiveTools [serverPattern server']).mcpAccessPatterns =
      [serverPattern server'] := rfl
  have text_safe : ∀ c ∈ mcpNamePrefix ++ (sanitizeMcpNamePart server' ++ mcpNameSeparator),
      isMcpNameChar c = true := by
    intro c mem
    rw [List.mem_append, List.mem_append] at mem
    rcases mem with mem | mem | mem
    · exact mcpNamePrefix_safe c mem
    · exact sanitizeMcpNamePart_safe server' c mem
    · exact mcpNameSeparator_safe c mem
  have same : isMatch (qualifyMcpToolName server tool) (serverPattern server') =
      (mcpNamePrefix ++ (sanitizeMcpNamePart server' ++ mcpNameSeparator)).isPrefixOf
        (qualifyMcpToolName server tool) := by
    rw [← glob _ _ (qualifyMcpToolName_safe server tool) text_safe (List.cons_ne_nil _ _),
      serverPattern, List.append_assoc mcpNamePrefix]
  rw [isMcpToolEnabled, pattern, List.any_cons, List.any_nil, Bool.or_false, same,
    List.isPrefixOf_iff_prefix, qualifyMcpToolName_of_fits fits, fullMcpToolName_eq,
    List.prefix_append_right_inj]
  exact prefix_join_iff (sanitizeMcpNamePart_isChain server)
    (sanitizeMcpNamePart_isChain server')

/-- A tool is identified, beside another tool and the pattern of a server, if and only if its
server part does not end in an underscore and no underscore of its tool part can be read as the
end of the other server's part. -/
theorem identifies_iff (glob : StarMatches isMatch) (server tool server' tool' : List Char) :
    Identifies isMatch server tool server' tool' ↔
      (Fits server tool → (sanitizeMcpNamePart server).getLast? ≠ some '_' ∧
        ¬(sanitizeMcpNamePart server' = sanitizeMcpNamePart server ++ ['_'] ∧
          (sanitizeMcpNamePart tool).head? = some '_')) := by
  constructor
  · intro identifies fits
    constructor
    · exact clear_of_cut_join ((splitMcpToolName_of_fits fits).symm.trans (identifies.parts fits))
    · intro moved
      have same := (identifies.granted fits).1
        ((isMcpToolEnabled_iff glob fits).2 (.inr (.inr moved)))
      rw [← same] at moved
      exact absurd (congrArg List.length moved.1) (by simp)
  · intro condition
    have granted (fits : Fits server tool) :
        isMcpToolEnabled isMatch (setActiveTools [serverPattern server'])
          (qualifyMcpToolName server tool) = true ↔
            sanitizeMcpNamePart server = sanitizeMcpNamePart server' := by
      obtain ⟨clear, apart⟩ := condition fits
      rw [isMcpToolEnabled_iff glob fits]
      constructor
      · rintro (same | ends | moved)
        · exact same
        · exact absurd (ends ▸ List.getLast?_concat) clear
        · exact absurd moved apart
      · exact .inl
    refine ⟨length_qualifyMcpToolName server tool, qualifyMcpToolName_safe server tool,
      isMcpToolName_qualifyMcpToolName server tool, fun fits => ?_, fun fits fits' same => ?_,
      granted⟩
    · rw [splitMcpToolName_of_fits fits]
      exact cut_join (sanitizeMcpNamePart_isChain server) (condition fits).1
    · have servers := (granted fits).1 <| by
        rw [same]
        exact (isMcpToolEnabled_iff glob fits').2 (.inl rfl)
      rw [qualifyMcpToolName_of_fits fits, qualifyMcpToolName_of_fits fits', fullMcpToolName,
        fullMcpToolName, servers] at same
      exact ⟨servers, List.append_cancel_left same⟩

end

/-- A glob matcher for such patterns. -/
def matchTrailingStar (name pattern : List Char) : Bool := pattern.dropLast.isPrefixOf name

theorem starMatches_matchTrailingStar : StarMatches matchTrailingStar := by
  intro name text _ _ _
  rw [matchTrailingStar, List.dropLast_concat]

theorem identifies_github :
    Identifies matchTrailingStar "github".toList "create_issue".toList "git".toList "log".toList :=
  (identifies_iff starMatches_matchTrailingStar _ _ _ _).2 fun _ => by decide

/-- Two tools of different servers share a name. -/
theorem trailing_underscore_ambiguous :
    ¬∀ isMatch, StarMatches isMatch → ∀ server tool server' tool',
      Identifies isMatch server tool server' tool' := by
  intro all
  have identifies :=
    all matchTrailingStar starMatches_matchTrailingStar ['a', '_'] ['b'] ['a'] ['_', 'b']
  have same := identifies.injective (by decide) (by decide) rfl
  exact absurd same.1 (by decide)

end KimiCli
