import KimiCli.Js.Units
import Mathlib.Tactic.Common

/-!
# The grammar of JSON

Which texts are JSON, as lists of code units.  White space stands around the values in an array and
around the keys and the values in an object, and around the whole of a document.
-/

namespace KimiCli.JsonGrammar

/-- White space between the tokens. -/
def isSpace (c : UInt16) : Bool :=
  c = ascii ' ' || c = ascii '\t' || c = ascii '\n' || c = ascii '\r'

def IsSpace (ws : List UInt16) : Prop := ∀ c ∈ ws, isSpace c = true

def isHexUnit (c : UInt16) : Bool :=
  isDigitUnit c || (ascii 'a' ≤ c && c ≤ ascii 'f') || (ascii 'A' ≤ c && c ≤ ascii 'F')

/-! ## Numbers -/

def IsDigits (ds : List UInt16) : Prop := ds ≠ [] ∧ ∀ c ∈ ds, isDigitUnit c = true

/-- Digits without a leading zero. -/
def IsInteger (ds : List UInt16) : Prop :=
  IsDigits ds ∧ (ds.head? = some (ascii '0') → ds = [ascii '0'])

def IsFraction (text : List UInt16) : Prop :=
  text = [] ∨ ∃ ds, IsDigits ds ∧ text = ascii '.' :: ds

def IsExponent (text : List UInt16) : Prop :=
  text = [] ∨ ∃ e sign ds, e ∈ [ascii 'e', ascii 'E'] ∧ sign ∈ [[], [ascii '+'], [ascii '-']] ∧
    IsDigits ds ∧ text = e :: (sign ++ ds)

def IsNumber (text : List UInt16) : Prop :=
  ∃ minus int frac exp, minus ∈ [[], [ascii '-']] ∧ IsInteger int ∧ IsFraction frac ∧
    IsExponent exp ∧ text = minus ++ int ++ frac ++ exp

/-! ## Strings, arrays and objects -/

/-- What stands between the quotes of a string. -/
inductive Inner : List UInt16 → Prop
  | nil : Inner []
  | char {c : UInt16} {rest : List UInt16} : 0x20 ≤ c → c ≠ ascii '"' → c ≠ ascii '\\' →
      Inner rest → Inner (c :: rest)
  | escape {c : UInt16} {rest : List UInt16} :
      c ∈ ['"', '\\', '/', 'b', 'f', 'n', 'r', 't'].map ascii →
      Inner rest → Inner (ascii '\\' :: c :: rest)
  | unicode {hex rest : List UInt16} : hex.length = 4 → (∀ c ∈ hex, isHexUnit c = true) →
      Inner rest → Inner (ascii '\\' :: ascii 'u' :: (hex ++ rest))

def quoted (inner : List UInt16) : List UInt16 := ascii '"' :: (inner ++ [ascii '"'])

/-- What a text is read as. -/
inductive Part
  | value
  /-- The elements of an array, of which there is one at least. -/
  | elements
  /-- The members of an object, of which there is one at least. -/
  | members

inductive Derives : Part → List UInt16 → Prop
  | literal {word : String} : word ∈ ["null", "true", "false"] →
      Derives .value (word.toList.map ascii)
  | number {text : List UInt16} : IsNumber text → Derives .value text
  | string {inner : List UInt16} : Inner inner → Derives .value (quoted inner)
  | emptyArray {ws : List UInt16} : IsSpace ws →
      Derives .value (ascii '[' :: (ws ++ [ascii ']']))
  | array {elements : List UInt16} : Derives .elements elements →
      Derives .value (ascii '[' :: (elements ++ [ascii ']']))
  | emptyObject {ws : List UInt16} : IsSpace ws →
      Derives .value (ascii '{' :: (ws ++ [ascii '}']))
  | object {members : List UInt16} : Derives .members members →
      Derives .value (ascii '{' :: (members ++ [ascii '}']))
  | element {before value after : List UInt16} : IsSpace before → Derives .value value →
      IsSpace after → Derives .elements (before ++ value ++ after)
  | moreElements {before value after rest : List UInt16} : IsSpace before →
      Derives .value value → IsSpace after → Derives .elements rest →
      Derives .elements (before ++ value ++ after ++ ascii ',' :: rest)
  | member {before key between before' value after : List UInt16} : IsSpace before → Inner key →
      IsSpace between → IsSpace before' → Derives .value value → IsSpace after →
      Derives .members
        (before ++ quoted key ++ between ++ ascii ':' :: (before' ++ value ++ after))
  | moreMembers {before key between before' value after rest : List UInt16} : IsSpace before →
      Inner key → IsSpace between → IsSpace before' → Derives .value value → IsSpace after →
      Derives .members rest →
      Derives .members (before ++ quoted key ++ between ++ ascii ':' ::
        (before' ++ value ++ after ++ ascii ',' :: rest))

/-- A whole JSON text. -/
def IsDocument (text : List UInt16) : Prop :=
  ∃ before value after, IsSpace before ∧ Derives .value value ∧ IsSpace after ∧
    text = before ++ value ++ after

end KimiCli.JsonGrammar
