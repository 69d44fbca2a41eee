import LedPattern.Text.Hidden

/-!
# Quoted text

Names from a graph are quoted wherever a message, a note or a listing shows them.
-/

namespace LedPattern.Text

/-- The digits of a number in hexadecimal notation. -/
def hexDigits (n : Nat) : List Char := Nat.toDigits 16 n

/-- A number in hexadecimal notation, filled up with zeros to `width` digits. -/
def paddedHex (width n : Nat) : List Char :=
  let digits := hexDigits n
  List.replicate (width - digits.length) '0' ++ digits

/-- A character inside quoted text. -/
def quotedChar (c : Char) : List Char :=
  if c = '"' then ['\\', '"']
  else if c = '\\' then ['\\', '\\']
  else if c = '\n' then ['\\', 'n']
  else if c = '\r' then ['\\', 'r']
  else if c = '\t' then ['\\', 't']
  else if c = '\x00' then ['\\', '0']
  else if isHidden c then ['\\', 'u', '\x7b'] ++ hexDigits c.toNat ++ ['\x7d']
  else [c]

/-- Text between double quotes, with what would be ambiguous or invisible spelled out. -/
def quoted (s : String) : String := String.ofList ('"' :: s.toList.flatMap quotedChar ++ ['"'])

end LedPattern.Text
