import LedPattern.Number.Double
import LedPattern.Text.Quoted

/-!
# JSON values

Numbers keep apart the integers of 64 bits and all other numbers, which are doubles. The members
of an object are sorted by their keys, and each key occurs once.
-/

namespace LedPattern

namespace Json

/-- A JSON number. -/
inductive Number where
  | int (value : Int)
  | double (value : Float)

/-- The number in double precision. -/
def Number.toDouble : Number → Float
  | .int i => Double.ofInt i
  | .double x => x

end Json

/-- A JSON value. -/
inductive Json where
  | null
  | bool (value : Bool)
  | number (value : Json.Number)
  | string (value : String)
  | array (items : List Json)
  | object (members : List (String × Json))

namespace Json

/-- The members of an object, one key and its value. -/
abbrev Members := List (String × Json)

/-- The value of a key. -/
def Members.get? (ms : Members) (key : String) : Option Json := ms.lookup key

/-- The members with `key` given a value, whether it had one or not. -/
def Members.insert (key : String) (value : Json) : Members → Members
  | [] => [(key, value)]
  | (k, v) :: rest =>
    if key < k then (key, value) :: (k, v) :: rest
    else if key = k then (key, value) :: rest
    else (k, v) :: Members.insert key value rest

/-- Numbers in JSON text are written positionally from `1e-5` up to `1e16`, integral ones with a
fractional zero, and the exponent always has a sign. -/
def numberLayout : DecimalLayout := ⟨some (-5, 16), true, true, .even⟩

/-- The text of a number. -/
def Number.text : Number → String
  | .int i => (if i < 0 then "-" else "") ++ String.ofList (digitChars i.natAbs)
  | .double x =>
    numberLayout.valueText BinaryFormat.binary64 (Double.isNegative x) (Double.pattern x)

/-- A character inside a JSON string. -/
def stringChar (c : Char) : List Char :=
  if c = '"' then ['\\', '"']
  else if c = '\\' then ['\\', '\\']
  else if c = '\x08' then ['\\', 'b']
  else if c = '\x0c' then ['\\', 'f']
  else if c = '\n' then ['\\', 'n']
  else if c = '\r' then ['\\', 'r']
  else if c = '\t' then ['\\', 't']
  else if c.toNat < 0x20 then ['\\', 'u'] ++ Text.paddedHex 4 c.toNat
  else [c]

/-- The text of a JSON string. -/
def stringText (s : String) : String :=
  String.ofList ('"' :: s.toList.flatMap stringChar ++ ['"'])

mutual

/-- The text of a value, without blanks. -/
def text : Json → String
  | .null => "null"
  | .bool true => "true"
  | .bool false => "false"
  | .number n => n.text
  | .string s => stringText s
  | .array items => "[" ++ ",".intercalate (itemTexts items) ++ "]"
  | .object members => "\x7b" ++ ",".intercalate (memberTexts members) ++ "\x7d"

/-- The texts of the items of an array. -/
def itemTexts : List Json → List String
  | [] => []
  | item :: rest => item.text :: itemTexts rest

/-- The texts of the members of an object. -/
def memberTexts : List (String × Json) → List String
  | [] => []
  | (key, value) :: rest => (stringText key ++ ":" ++ value.text) :: memberTexts rest

end

end Json

end LedPattern
