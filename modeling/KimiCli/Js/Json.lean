import Mathlib.Data.List.Basic

/-!
# JSON values and `JSON.stringify`

The value type of everything the program writes as JSON, and the text `JSON.stringify` produces
for it (no indentation).  Numbers are kept as the token the host prints for them.
-/

namespace KimiCli

/-- The characters a printed JSON number consists of. -/
def isNumberChar (c : Char) : Bool :=
  c.isDigit || c = '-' || c = '+' || c = '.' || c = 'e' || c = 'E'

/-- The token `Number.prototype.toString` gives for a finite number. -/
structure NumberToken where
  chars : List Char
  valid : ∀ c ∈ chars, isNumberChar c = true

inductive Json
  | null
  | bool (value : Bool)
  | number (token : NumberToken)
  | string (value : String)
  | array (items : List Json)
  | object (members : List (String × Json))

namespace Json

def hexDigit (n : ℕ) : Char :=
  if n < 10 then Char.ofNat (n + '0'.toNat) else Char.ofNat (n - 10 + 'a'.toNat)

/-- One character of a string value, as `QuoteJSONString` writes it. -/
def escapeChar (c : Char) : List Char :=
  if c = '"' then ['\\', '"']
  else if c = '\\' then ['\\', '\\']
  else if c = '\n' then ['\\', 'n']
  else if c = '\r' then ['\\', 'r']
  else if c = '\t' then ['\\', 't']
  else if c.toNat = 8 then ['\\', 'b']
  else if c.toNat = 12 then ['\\', 'f']
  else if c.toNat < 32 then
    ['\\', 'u', '0', '0', hexDigit (c.toNat / 16), hexDigit (c.toNat % 16)]
  else [c]

def quote (value : String) : List Char :=
  '"' :: (value.toList.flatMap escapeChar ++ ['"'])

mutual

def render : Json → List Char
  | null => ['n', 'u', 'l', 'l']
  | bool true => ['t', 'r', 'u', 'e']
  | bool false => ['f', 'a', 'l', 's', 'e']
  | number token => token.chars
  | string value => quote value
  | array items => '[' :: (renderItems items ++ [']'])
  | object members => '{' :: (renderMembers members ++ ['}'])

def renderItems : List Json → List Char
  | [] => []
  | [item] => item.render
  | item :: items => item.render ++ ',' :: renderItems items

def renderMembers : List (String × Json) → List Char
  | [] => []
  | [(key, value)] => quote key ++ ':' :: value.render
  | (key, value) :: members => quote key ++ ':' :: (value.render ++ ',' :: renderMembers members)

end

/-- `JSON.stringify(value)`. -/
def stringify (value : Json) : String := String.ofList value.render

/-- The value of a property; of those with the same key `JSON.parse` keeps the last. -/
def property (value : Json) (key : String) : Option Json :=
  match value with
  | .object members => (members.findRev? fun member => member.1 = key).map (·.2)
  | _ => none

/-- `typeof value === 'object' && value !== null`. -/
def isObject : Json → Bool
  | .object _ | .array _ => true
  | _ => false

end Json

end KimiCli
