import Mathlib.Data.List.Chain
import Mathlib.Data.Nat.Digits.Defs

/-!
# Names of MCP tools

`mcp/tool-naming.ts`: the qualified name of a tool of an MCP server, sanitised and cut to a length
that providers accept.
-/

namespace KimiCli

def mcpNamePrefix : List Char := ['m', 'c', 'p', '_', '_']
def mcpNameSeparator : List Char := ['_', '_']
def maxQualifiedLength : ℕ := 64

/-- `[a-zA-Z0-9_-]`. -/
def isMcpNameChar (c : Char) : Bool := c.isAlphanum || c = '_' || c = '-'

/-- `replaceAll(/_+/g, '_')`. -/
def collapseUnderscores : List Char → List Char
  | '_' :: '_' :: cs => collapseUnderscores ('_' :: cs)
  | c :: cs => c :: collapseUnderscores cs
  | [] => []

/-- A character that takes two code units becomes two underscores, which the second replacement
collapses like one. -/
def sanitizeMcpNamePart (part : List Char) : List Char :=
  collapseUnderscores (part.map fun c => if isMcpNameChar c then c else '_')

def isMcpToolName (name : List Char) : Bool := mcpNamePrefix.isPrefixOf name

/-- The loop of `stableHash8`: 32-bit FNV-1a. -/
def fnv1a (input : List Char) : BitVec 32 :=
  input.foldl (fun hash c => (hash ^^^ BitVec.ofNat 32 c.toNat) * 0x01000193#32) 0x811c9dc5#32

/-- `toString(16).padStart(8, '0')` of a signed 32-bit number. -/
def paddedHex (value : ℤ) : List Char :=
  let digits := Nat.toDigits 16 value.natAbs
  let text := if value < 0 then '-' :: digits else digits
  List.replicate (8 - text.length) '0' ++ text

/-- The sign shows because `Math.imul` gives a signed number. -/
def stableHash8 (input : List Char) : List Char := paddedHex (fnv1a input).toInt

def qualifyMcpToolName (serverName toolName : List Char) : List Char :=
  let full := mcpNamePrefix ++ sanitizeMcpNamePart serverName ++ mcpNameSeparator ++
    sanitizeMcpNamePart toolName
  if full.length ≤ maxQualifiedLength then full
  else
    let hash := stableHash8 full
    full.take (maxQualifiedLength - hash.length - 1) ++ '_' :: hash

theorem length_paddedHex {value : ℤ} (bound : value.natAbs < 16 ^ 8) :
    (paddedHex value).length ≤ 9 := by
  have digits := Nat.toDigits_length 16 value.natAbs 8 (by decide) bound
  simp only [paddedHex, List.length_append, List.length_replicate]
  split
  · rw [List.length_cons]
    omega
  · omega

theorem length_stableHash8 (input : List Char) : (stableHash8 input).length ≤ 9 := by
  apply length_paddedHex
  have low := BitVec.le_toInt (fnv1a input)
  have high := BitVec.toInt_lt (x := fnv1a input)
  omega

theorem length_qualifyMcpToolName (serverName toolName : List Char) :
    (qualifyMcpToolName serverName toolName).length ≤ maxQualifiedLength := by
  unfold qualifyMcpToolName
  simp only
  split
  case isTrue short => exact short
  case isFalse long =>
    have hash := length_stableHash8 (mcpNamePrefix ++ sanitizeMcpNamePart serverName ++
      mcpNameSeparator ++ sanitizeMcpNamePart toolName)
    rw [List.length_append, List.length_take, List.length_cons]
    unfold maxQualifiedLength
    omega

theorem isMcpToolName_qualifyMcpToolName (serverName toolName : List Char) :
    isMcpToolName (qualifyMcpToolName serverName toolName) = true := by
  rw [isMcpToolName, List.isPrefixOf_iff_prefix]
  unfold qualifyMcpToolName
  simp only
  split
  · simp only [List.append_assoc]
    exact List.prefix_append _ _
  · have hash := length_stableHash8 (mcpNamePrefix ++ sanitizeMcpNamePart serverName ++
      mcpNameSeparator ++ sanitizeMcpNamePart toolName)
    refine List.IsPrefix.trans ?_ (List.prefix_append _ _)
    refine List.prefix_take_iff.2 ⟨?_, ?_⟩
    · simp only [List.append_assoc]
      exact List.prefix_append _ _
    · show 5 ≤ _
      unfold maxQualifiedLength
      omega

theorem head?_collapseUnderscores (cs : List Char) :
    (collapseUnderscores cs).head? = cs.head? := by
  fun_induction collapseUnderscores cs with
  | case1 cs ih => exact ih
  | case2 => rfl
  | case3 => rfl

theorem sanitizeMcpNamePart_isChain (part : List Char) :
    (sanitizeMcpNamePart part).IsChain fun a b => ¬(a = '_' ∧ b = '_') := by
  unfold sanitizeMcpNamePart
  generalize part.map _ = cs
  fun_induction collapseUnderscores cs with
  | case1 cs ih => exact ih
  | case2 c cs other ih =>
    refine List.isChain_cons.2 ⟨fun d first => ?_, ih⟩
    rintro ⟨rfl, rfl⟩
    rw [head?_collapseUnderscores] at first
    obtain ⟨ds, rfl⟩ := List.head?_eq_some_iff.1 first
    exact other ds rfl rfl
  | case3 => exact List.isChain_nil

end KimiCli
