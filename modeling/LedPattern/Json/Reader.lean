import LedPattern.Json.Value
import LedPattern.Text.Bytes

/-!
# JSON reader

A strict reader. It stops at the first fault and reports its cause and its place: the number of
bytes up to and including the one at fault, from which `place` finds the line and the column.
Arrays and objects may be nested 127 deep.

Of the digits of a number only those count that form a significand of 64 bits (`wholePart`,
`withFraction`). A number that is no integer of 64 bits becomes the double that is composed of the
significand and the power of ten (`Double.compose?`), which is not always the nearest one.

Specification of `pgc`, section 4.1: the form in which a graph is described.
-/

namespace LedPattern.Json

open Text (byteCount)

/-- Why a text is not JSON. -/
inductive Cause where
  | endInValue
  | endInList
  | endInObject
  | endInString
  | expectedValue
  | expectedWord
  | expectedColon
  | expectedListEnd
  | expectedObjectEnd
  | keyNotString
  | trailingComma
  | trailingCharacters
  | invalidNumber
  | numberOutOfRange
  | tooDeep
  | controlCharacter
  | invalidEscape
  | loneSurrogate
  | unfinishedEscape
deriving DecidableEq, Repr

/-- The wording of a cause. -/
def Cause.message : Cause → String
  | .endInValue => "EOF while parsing a value"
  | .endInList => "EOF while parsing a list"
  | .endInObject => "EOF while parsing an object"
  | .endInString => "EOF while parsing a string"
  | .expectedValue => "expected value"
  | .expectedWord => "expected ident"
  | .expectedColon => "expected `:`"
  | .expectedListEnd => "expected `,` or `]`"
  | .expectedObjectEnd => "expected `,` or `\x7d`"
  | .keyNotString => "key must be a string"
  | .trailingComma => "trailing comma"
  | .trailingCharacters => "trailing characters"
  | .invalidNumber => "invalid number"
  | .numberOutOfRange => "number out of range"
  | .tooDeep => "recursion limit exceeded"
  | .controlCharacter => "control character (\\u0000-\\u001F) found while parsing a string"
  | .invalidEscape => "invalid escape"
  | .loneSurrogate => "lone leading surrogate in hex escape"
  | .unfinishedEscape => "unexpected end of hex escape"

/-- A fault and the number of bytes up to the end of the byte at fault. -/
structure ReadFault where
  cause : Cause
  bytes : Nat

/-- A result of reading, or a fault. -/
abbrev Result := Except ReadFault

/-- The rest of a text and the number of bytes before it. -/
structure Cursor where
  rest : List Char
  offset : Nat

/-- A value and the text after it. -/
abbrev Read (α : Type) := α × Cursor

namespace Cursor

/-- The cursor after the characters `taken`, when `rest` is left. -/
def past (c : Cursor) (taken rest : List Char) : Cursor := ⟨rest, c.offset + byteCount taken⟩

/-- A fault of the byte that follows, or of the end of the text. -/
def failNext {α : Type} (c : Cursor) (cause : Cause) : Result α :=
  .error ⟨cause, match c.rest with
    | [] => c.offset
    | _ => c.offset + 1⟩

/-- The cursor after leading blanks. -/
def skipBlanks (c : Cursor) : Cursor :=
  let isBlank (ch : Char) : Bool := ch = ' ' || ch = '\n' || ch = '\t' || ch = '\r'
  ⟨c.rest.dropWhile isBlank, c.offset + (c.rest.takeWhile isBlank).length⟩

/-- The leading digits and the cursor after them. -/
def digits (c : Cursor) : List Char × Cursor :=
  let run := c.rest.takeWhile Char.isDigit
  (run, ⟨c.rest.dropWhile Char.isDigit, c.offset + run.length⟩)

end Cursor

/-- Reads the characters `word` and nothing else. -/
def readWord (value : Json) : List Char → Cursor → Result (Read Json)
  | [], c => .ok (value, c)
  | w :: ws, c =>
    match c.rest with
    | [] => c.failNext .endInValue
    | ch :: rest =>
      if ch = w then readWord value ws (c.past [ch] rest) else c.failNext .expectedWord

/-- The number that whole digits spell after the significand `n`, as long as 64 bits hold the
significand. From then on a digit only counts as a power of ten. -/
def wholePart (n : Nat) : List Char → Decimal
  | [] => ⟨n, 0⟩
  | d :: ds =>
    if pushDigit n d < UInt64.size then wholePart (pushDigit n d) ds else ⟨n, (d :: ds).length⟩

/-- A number with the digits of a fraction, as long as 64 bits hold the significand. From then on
digits do not count. -/
def withFraction (x : Decimal) : List Char → Decimal
  | [] => x
  | d :: ds =>
    if pushDigit x.digits d < UInt64.size then
      withFraction ⟨pushDigit x.digits d, x.exponent - 1⟩ ds
    else x

/-- The digits of an exponent up to the one that makes it larger than 32 bits hold, and whether
there is such a digit. -/
def exponentDigits : List Char → Nat → List Char × Bool
  | [], _ => ([], false)
  | d :: ds, value =>
    if 2147483647 < pushDigit value d then ([d], true)
    else
      let (more, tooLarge) := exponentDigits ds (pushDigit value d)
      (d :: more, tooLarge)

/-- The double that the parts of a number spell. -/
def readDouble (negative : Bool) (d : Decimal) (c : Cursor) : Result (Read Number) :=
  match Double.compose? d with
  | some x => .ok (.double (if negative then -x else x), c)
  | none => .error ⟨.numberOutOfRange, c.offset⟩

/-- Reads the exponent of a number, after its mark. -/
def readExponent (negative : Bool) (d : Decimal) (c : Cursor) : Result (Read Number) :=
  let (down, c) := match c.rest with
    | '+' :: rest => (false, c.past ['+'] rest)
    | '-' :: rest => (true, c.past ['-'] rest)
    | _ => (false, c)
  let (run, after) := c.digits
  if run.isEmpty then
    c.failNext (if c.rest.isEmpty then .endInValue else .invalidNumber)
  else
    let (kept, tooLarge) := exponentDigits run 0
    if tooLarge then
      if d.digits ≠ 0 && !down then .error ⟨.numberOutOfRange, c.offset + kept.length⟩
      else .ok (.double (Double.ofPattern negative 0), after)
    else
      let size : Int := natOfDigits run
      readDouble negative ⟨d.digits, if down then d.exponent - size else d.exponent + size⟩ after

/-- Reads what follows the whole digits of a number, which spell `d`. -/
def readFraction (negative : Bool) (d : Decimal) (c : Cursor) : Result (Read Number) :=
  match c.rest with
  | '.' :: rest =>
    let c := c.past ['.'] rest
    let (fraction, after) := c.digits
    if fraction.isEmpty then
      c.failNext (if c.rest.isEmpty then .endInValue else .invalidNumber)
    else
      let d := withFraction d fraction
      match after.rest with
      | 'e' :: rest => readExponent negative d (after.past ['e'] rest)
      | 'E' :: rest => readExponent negative d (after.past ['E'] rest)
      | _ => readDouble negative d after
  | 'e' :: rest => readExponent negative d (c.past ['e'] rest)
  | 'E' :: rest => readExponent negative d (c.past ['E'] rest)
  | _ =>
    if d.exponent ≠ 0 then readDouble negative d c
    else if !negative then .ok (.int d.digits, c)
    else if 1 ≤ d.digits && Int64.minValue.toInt ≤ -d.digits then .ok (.int (-d.digits), c)
    else readDouble true d c

/-- Reads a number, after its sign. A leading zero stands alone. -/
def readNumber (negative : Bool) (c : Cursor) : Result (Read Number) :=
  match c.rest with
  | '0' :: rest =>
    let c := c.past ['0'] rest
    match rest with
    | d :: _ => if d.isDigit then c.failNext .invalidNumber else readFraction negative ⟨0, 0⟩ c
    | [] => readFraction negative ⟨0, 0⟩ c
  | [] => c.failNext .endInValue
  | _ =>
    let (whole, after) := c.digits
    if whole.isEmpty then c.failNext .invalidNumber
    else readFraction negative (wholePart 0 whole) after

/-- The value of a hexadecimal digit. -/
def hexValue? (c : Char) : Option Nat :=
  if c.isDigit then some (c.toNat - '0'.toNat)
  else if 'a' ≤ c ∧ c ≤ 'f' then some (c.toNat - 'a'.toNat + 10)
  else if 'A' ≤ c ∧ c ≤ 'F' then some (c.toNat - 'A'.toNat + 10)
  else none

/-- Reads the four digits of an escape. They are four bytes, whatever characters these form. -/
def readHex (c : Cursor) : Result (Read Nat) :=
  let ahead := c.rest.take 4
  if byteCount ahead < 4 then .error ⟨.endInString, c.offset + byteCount ahead⟩
  else match c.rest with
    | h₁ :: h₂ :: h₃ :: h₄ :: rest =>
      match hexValue? h₁, hexValue? h₂, hexValue? h₃, hexValue? h₄ with
      | some d₁, some d₂, some d₃, some d₄ =>
        .ok (((16 * d₁ + d₂) * 16 + d₃) * 16 + d₄, ⟨rest, c.offset + 4⟩)
      | _, _, _, _ => .error ⟨.invalidEscape, c.offset + 4⟩
    | _ => .error ⟨.invalidEscape, c.offset + 4⟩

/-- Reads the character `mark` of a second escape. -/
def readMark (mark : Char) (c : Cursor) : Result (Read Unit) :=
  match c.rest with
  | [] => c.failNext .endInString
  | ch :: rest => if ch = mark then .ok ((), c.past [ch] rest) else c.failNext .unfinishedEscape

/-- Reads a character given by its code, or by the codes of a pair of surrogates. -/
def readCode (c : Cursor) : Result (Read Char) := do
  let (high, c) ← readHex c
  if 0xdc00 ≤ high && high ≤ 0xdfff then .error ⟨.loneSurrogate, c.offset⟩
  else if 0xd800 ≤ high && high ≤ 0xdbff then
    let (_, c) ← readMark '\\' c
    let (_, c) ← readMark 'u' c
    let (low, c) ← readHex c
    if 0xdc00 ≤ low && low ≤ 0xdfff then
      .ok (Char.ofNat (0x10000 + (high - 0xd800) * 0x400 + (low - 0xdc00)), c)
    else .error ⟨.loneSurrogate, c.offset⟩
  else .ok (Char.ofNat high, c)

/-- The character that a one-letter escape stands for. -/
def escapeChar? (letter : Char) : Option Char :=
  [('"', '"'), ('\\', '\\'), ('/', '/'), ('b', '\x08'), ('f', '\x0c'), ('n', '\n'), ('r', '\r'),
    ('t', '\t')].lookup letter

/-- Reads what follows the backslash of an escape. -/
def readEscape (c : Cursor) : Result (Read Char) :=
  match c.rest with
  | [] => c.failNext .endInString
  | 'u' :: rest => readCode (c.past ['u'] rest)
  | letter :: rest =>
    match escapeChar? letter with
    | some ch => .ok (ch, c.past [letter] rest)
    | none => c.failNext .invalidEscape

/-- Reads a string after its opening quote, the characters so far being reversed in `read`. It
has at most `fuel` characters. -/
def readChars : Nat → List Char → Cursor → Result (Read String)
  | 0, _, c => c.failNext .endInString
  | fuel + 1, read, c =>
    match c.rest with
    | [] => c.failNext .endInString
    | '"' :: rest => .ok (String.ofList read.reverse, c.past ['"'] rest)
    | '\\' :: rest => do
      let (ch, c) ← readEscape (c.past ['\\'] rest)
      readChars fuel (ch :: read) c
    | ch :: rest =>
      if ch.toNat < 0x20 then c.failNext .controlCharacter
      else readChars fuel (ch :: read) (c.past [ch] rest)

/-- Reads a string after its opening quote. -/
def readString (c : Cursor) : Result (Read String) := readChars (c.rest.length + 1) [] c

/-- Reads the items of an array up to its closing bracket, each by `read`, the items so far being
reversed in `items`. -/
def readItems (read : Cursor → Result (Read Json)) :
    Nat → List Json → Cursor → Result (Read Json)
  | 0, _, c => c.failNext .endInList
  | fuel + 1, items, c => do
    let c := c.skipBlanks
    let next (c : Cursor) : Result (Read Json) := do
      let (item, c) ← read c
      readItems read fuel (item :: items) c
    match c.rest with
    | [] => c.failNext .endInList
    | ']' :: rest => .ok (.array items.reverse, c.past [']'] rest)
    | ch :: rest =>
      if items.isEmpty then next c
      else if ch = ',' then
        let c := (c.past [','] rest).skipBlanks
        match c.rest with
        | [] => c.failNext .endInValue
        | ']' :: _ => c.failNext .trailingComma
        | _ => next c
      else c.failNext .expectedListEnd

/-- Reads a key, a colon and a value by `read`. -/
def readMember (read : Cursor → Result (Read Json)) (c : Cursor) :
    Result (Read (String × Json)) :=
  match c.rest with
  | '"' :: rest => do
    let (key, c) ← readString (c.past ['"'] rest)
    let c := c.skipBlanks
    match c.rest with
    | [] => c.failNext .endInObject
    | ':' :: rest => do
      let (value, c) ← read (c.past [':'] rest)
      .ok ((key, value), c)
    | _ => c.failNext .expectedColon
  | _ => c.failNext .keyNotString

/-- Reads the members of an object up to its closing brace, each value by `read`. Of two members
with one key the later counts. -/
def readMembers (read : Cursor → Result (Read Json)) :
    Nat → Members → Bool → Cursor → Result (Read Json)
  | 0, _, _, c => c.failNext .endInObject
  | fuel + 1, members, first, c => do
    let c := c.skipBlanks
    let next (c : Cursor) : Result (Read Json) := do
      let ((key, value), c) ← readMember read c
      readMembers read fuel (members.insert key value) false c
    match c.rest with
    | [] => c.failNext .endInObject
    | '\x7d' :: rest => .ok (.object members, c.past ['\x7d'] rest)
    | ch :: rest =>
      if first then next c
      else if ch = ',' then
        let c := (c.past [','] rest).skipBlanks
        match c.rest with
        | [] => c.failNext .endInValue
        | '\x7d' :: _ => c.failNext .trailingComma
        | _ => next c
      else c.failNext .expectedObjectEnd

/-- Reads a value in which arrays and objects are nested at most `depth` deep. -/
def readValue (depth : Nat) (c : Cursor) : Result (Read Json) :=
  let c := c.skipBlanks
  match c.rest with
  | [] => c.failNext .endInValue
  | 'n' :: _ => readWord .null ['n', 'u', 'l', 'l'] c
  | 't' :: _ => readWord (.bool true) ['t', 'r', 'u', 'e'] c
  | 'f' :: _ => readWord (.bool false) ['f', 'a', 'l', 's', 'e'] c
  | '-' :: rest => do
    let (n, c) ← readNumber true (c.past ['-'] rest)
    .ok (.number n, c)
  | '"' :: rest => do
    let (s, c) ← readString (c.past ['"'] rest)
    .ok (.string s, c)
  | '[' :: rest =>
    match depth with
    | 0 => c.failNext .tooDeep
    | depth + 1 => readItems (readValue depth) (rest.length + 1) [] (c.past ['['] rest)
  | '\x7b' :: rest =>
    match depth with
    | 0 => c.failNext .tooDeep
    | depth + 1 => readMembers (readValue depth) (rest.length + 1) [] true (c.past ['\x7b'] rest)
  | ch :: _ =>
    if ch.isDigit then do
      let (n, c) ← readNumber false c
      .ok (.number n, c)
    else c.failNext .expectedValue

/-- The greatest nesting of arrays and objects. -/
def maxDepth : Nat := 127

/-- Reads a text that holds one value and blanks. -/
def ofChars (cs : List Char) : Result Json := do
  let (value, c) ← readValue maxDepth ⟨cs, 0⟩
  let c := c.skipBlanks
  match c.rest with
  | [] => .ok value
  | _ => c.failNext .trailingCharacters

/-- The line, counted from one, and the bytes of that line among the first `bytes` bytes of a
text, when the text starts after `column` bytes of line `line`. -/
def place (bytes : Nat) (line column : Nat) : List Char → Nat × Nat
  | [] => (line, column + bytes)
  | ch :: rest =>
    if bytes = 0 then (line, column)
    else if ch = '\n' then place (bytes - 1) (line + 1) 0 rest
    else place (bytes - ch.utf8Size) line (column + min bytes ch.utf8Size) rest

/-- The wording of a fault in a text. -/
def ReadFault.message (fault : ReadFault) (text : List Char) : String :=
  let (line, column) := place fault.bytes 1 0 text
  fault.cause.message ++ " at line " ++ natText line ++ " column " ++ natText column

/-- Reads JSON text, or says what is wrong with it. -/
def parse (text : String) : Except String Json :=
  match ofChars text.toList with
  | .ok value => .ok value
  | .error fault => .error (fault.message text.toList)

end LedPattern.Json
