import KimiCli.Js.Json
import KimiCli.Js.Text
import Mathlib.Data.List.Sort
import Mathlib.Algebra.Group.Nat.Defs
import Mathlib.Data.List.Lex

/-!
# Canonical JSON of tool arguments

`agent-core/src/agent/turn/canonical-args.ts`: the text by which two sets of arguments are compared.
The members of an object are written in one order whatever order they came in.
-/

namespace KimiCli

/-! ## The order of the properties of an object -/

/-- The number that a key is the decimal text of, for keys that count as array indices. -/
def arrayIndex (key : String) : Option ℕ :=
  let digits := key.toList
  let value := digits.foldl (fun n c => 10 * n + (c.toNat - '0'.toNat)) 0
  if digits ≠ [] ∧ digits.all Char.isDigit ∧ (digits.head? = some '0' → digits = ['0']) ∧
      value < 2 ^ 32 - 1 then
    some value
  else none

/-- The order in which an object that was filled in the order of `toSorted()` lists its keys: array
indices first, by their number, then the other keys by their UTF-16 code units. -/
def listedBefore (key key' : String) : Prop :=
  match arrayIndex key, arrayIndex key' with
  | some i, some j => i ≤ j
  | some _, none => True
  | none, some _ => False
  | none, none => utf16Units key.toList ≤ utf16Units key'.toList

instance : DecidableRel listedBefore := fun key key' => by
  unfold listedBefore
  cases arrayIndex key <;> cases arrayIndex key' <;> infer_instance

/-- `out[key] = …` for each key in order.  Of the members with one key `JSON.parse` kept the last;
assigning to `__proto__` makes no property of its own. -/
def sortedMembers (members : List (String × Json)) : List (String × Json) :=
  let own := members.foldr
    (fun member rest => if rest.any (·.1 = member.1) then rest else member :: rest) []
  (own.filter (·.1 ≠ "__proto__")).insertionSort (listedBefore ·.1 ·.1)

namespace Json

mutual

def sortJsonValue : Json → Json
  | .array items => .array (sortItems items)
  | .object members => .object (sortedMembers (sortValues members))
  | value => value

def sortItems : List Json → List Json
  | [] => []
  | item :: items => item.sortJsonValue :: sortItems items

def sortValues : List (String × Json) → List (String × Json)
  | [] => []
  | (key, value) :: members => (key, value.sortJsonValue) :: sortValues members

end

end Json

def canonicalTelemetryArgs (args : Json) : String := args.sortJsonValue.stringify

end KimiCli
