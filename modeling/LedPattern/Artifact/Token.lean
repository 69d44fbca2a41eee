import LedPattern.Kernel.Program
import LedPattern.Number.Spelling
import LedPattern.Text.Bytes
import LedPattern.Text.Identifier
import LedPattern.Text.Quoted

/-!
# Tokens of artifacts

The tokens of the C++ text that artifacts are made of, and the way from characters to tokens.
Blanks, comments and lines that start with `#` separate tokens and are dropped. Text that is no
token is reported and skipped.

`scan` cuts the first piece off a text, always the longest that fits, and `lex` repeats that.

Specification of `pgc`, sections 2 and 4.5: the verifier runs an artifact by reading its text back,
and this is the lexer it uses.
-/

namespace LedPattern

/-- The words that are no identifiers. -/
inductive Keyword where
  | staticKw
  | constKw
  | externKw
  | voidKw
  | floatKw
  | intKw
  | forKw
  | ifKw
  | elseKw
  | nullptrKw
deriving DecidableEq, Repr

namespace Keyword

/-- The keywords. -/
def all : List Keyword :=
  [.staticKw, .constKw, .externKw, .voidKw, .floatKw, .intKw, .forKw, .ifKw, .elseKw, .nullptrKw]

/-- The spelling of a keyword. -/
def text : Keyword → String
  | .staticKw => "static"
  | .constKw => "const"
  | .externKw => "extern"
  | .voidKw => "void"
  | .floatKw => "float"
  | .intKw => "int"
  | .forKw => "for"
  | .ifKw => "if"
  | .elseKw => "else"
  | .nullptrKw => "nullptr"

/-- The keyword with a given spelling. -/
def ofText? (s : String) : Option Keyword := all.find? fun k => k.text = s

end Keyword

/-- Signs and brackets. -/
inductive Symbol where
  | arrow
  | colons
  | notEqual
  | bothAnd
  | increment
  | leftParen
  | rightParen
  | leftBrace
  | rightBrace
  | leftBracket
  | rightBracket
  | semicolon
  | comma
  | dot
  | assign
  | less
  | greater
  | ampersand
  | plus
  | minus
  | star
  | slash
deriving DecidableEq, Repr

namespace Symbol

/-- The spelling of a symbol. -/
def text : Symbol → String
  | .arrow => "->"
  | .colons => "::"
  | .notEqual => "!="
  | .bothAnd => "&&"
  | .increment => "++"
  | .leftParen => "("
  | .rightParen => ")"
  | .leftBrace => "\x7b"
  | .rightBrace => "\x7d"
  | .leftBracket => "["
  | .rightBracket => "]"
  | .semicolon => ";"
  | .comma => ","
  | .dot => "."
  | .assign => "="
  | .less => "<"
  | .greater => ">"
  | .ampersand => "&"
  | .plus => "+"
  | .minus => "-"
  | .star => "*"
  | .slash => "/"

/-- The symbol that a character is. -/
def ofChar? : Char → Option Symbol
  | '(' => some .leftParen
  | ')' => some .rightParen
  | '\x7b' => some .leftBrace
  | '\x7d' => some .rightBrace
  | '[' => some .leftBracket
  | ']' => some .rightBracket
  | ';' => some .semicolon
  | ',' => some .comma
  | '.' => some .dot
  | '=' => some .assign
  | '<' => some .less
  | '>' => some .greater
  | '&' => some .ampersand
  | '+' => some .plus
  | '-' => some .minus
  | '*' => some .star
  | '/' => some .slash
  | _ => none

/-- The symbol that two characters form. -/
def ofPair? : Char → Char → Option Symbol
  | '-', '>' => some .arrow
  | ':', ':' => some .colons
  | '!', '=' => some .notEqual
  | '&', '&' => some .bothAnd
  | '+', '+' => some .increment
  | _, _ => none

end Symbol

/-- A token of an artifact. -/
inductive Token where
  | keyword (word : Keyword)
  | symbol (sign : Symbol)
  | float (value : Float32)
  | int (value : Nat)
  | quote (content : String)
  | ident (name : String)
deriving DecidableEq

/-- A token as it is shown. All identifiers are shown alike. -/
def Token.text : Token → String
  | .keyword word => word.text
  | .symbol sign => sign.text
  | .float value => Single.text value ++ "f"
  | .int value => natText value
  | .quote content => "\"" ++ content ++ "\""
  | .ident _ => "<ident>"

namespace Lexer

/-- What the first piece of a text is. -/
inductive Piece where
  | blank
  | token (t : Token)
  | unknown
deriving DecidableEq

/-- The first piece of a text with its characters, and the rest of the text. -/
structure Scan where
  piece : Piece
  taken : List Char
  rest : List Char

/-- Whether a character separates tokens. -/
def isBlank (c : Char) : Bool := c = ' ' || c = '\t' || c = '\r' || c = '\n'

/-- The longest start of a text whose characters all satisfy `p`. -/
def scanWhile (p : Char → Bool) (piece : List Char → Piece) (cs : List Char) : Scan :=
  let taken := cs.takeWhile p
  ⟨piece taken, taken, cs.dropWhile p⟩

/-- The fraction at the start of a text: a point and at least one digit. -/
def takeFraction : List Char → List Char × List Char
  | '.' :: cs =>
    let digits := cs.takeWhile Char.isDigit
    if digits.isEmpty then ([], '.' :: cs) else ('.' :: digits, cs.dropWhile Char.isDigit)
  | cs => ([], cs)

/-- The exponent at the start of a text: its mark, perhaps a sign, and at least one digit. -/
def takeExponent : List Char → List Char × List Char
  | [] => ([], [])
  | mark :: cs =>
    let (sign, after) := Spelling.takeSign cs
    let digits := after.takeWhile Char.isDigit
    if (mark = 'e' ∨ mark = 'E') ∧ ¬digits.isEmpty then
      (mark :: sign ++ digits, after.dropWhile Char.isDigit)
    else ([], mark :: cs)

/-- The value of an exponent with its mark, zero if there is none. -/
def exponentValue (cs : List Char) : Int :=
  match Spelling.takeSign (cs.drop 1) with
  | (['-'], digits) => -(natOfDigits digits : Int)
  | (_, digits) => natOfDigits digits

/-- Scans a number after its sign. With a final `f` it is a constant of single precision. Without
one it is a count, which has neither sign nor fraction nor exponent and is a word of 64 bits. -/
def scanNumber (sign : List Char) (cs : List Char) : Scan :=
  let whole := cs.takeWhile Char.isDigit
  let (fraction, cs) := takeFraction (cs.dropWhile Char.isDigit)
  let (exponent, cs) := takeExponent cs
  let taken := sign ++ whole ++ fraction ++ exponent
  match cs with
  | 'f' :: rest =>
    let d := Decimal.ofParts whole (fraction.drop 1) (exponentValue exponent)
    ⟨.token (.float (Single.ofDecimal (!sign.isEmpty) d)), taken ++ ['f'], rest⟩
  | _ =>
    if sign.isEmpty && fraction.isEmpty && exponent.isEmpty && natOfDigits whole < Index.limit then
      ⟨.token (.int (natOfDigits whole)), taken, cs⟩
    else ⟨.unknown, taken, cs⟩

/-- Scans quoted text after its opening quote. It ends on its own line. -/
def scanQuote (cs : List Char) : Scan :=
  let isInside (c : Char) : Bool := c ≠ '"' && c ≠ '\n'
  let content := cs.takeWhile isInside
  match cs.dropWhile isInside with
  | '"' :: rest => ⟨.token (.quote (String.ofList content)), '"' :: content ++ ['"'], rest⟩
  | rest => ⟨.unknown, '"' :: content, rest⟩

/-- The token that a word is. -/
def wordToken (s : String) : Token :=
  match Keyword.ofText? s with
  | some word => .keyword word
  | none => .ident s

/-- Scans a symbol, of two characters if possible. -/
def scanSymbol (c : Char) (cs : List Char) : Scan :=
  match cs.head?.bind (Symbol.ofPair? c) with
  | some sign => ⟨.token (.symbol sign), c :: cs.take 1, cs.drop 1⟩
  | none =>
    match Symbol.ofChar? c with
    | some sign => ⟨.token (.symbol sign), [c], cs⟩
    | none => ⟨.unknown, [c], cs⟩

/-- Whether a text starts a comment or a line for the preprocessor. -/
def startsComment : List Char → Bool
  | '/' :: '/' :: _ => true
  | '#' :: _ => true
  | _ => false

/-- Scans the first piece of the text `c :: cs`. -/
def scan (c : Char) (cs : List Char) : Scan :=
  if isBlank c then scanWhile isBlank (fun _ => .blank) (c :: cs)
  else if startsComment (c :: cs) then scanWhile (· ≠ '\n') (fun _ => .blank) (c :: cs)
  else if c.isDigit then scanNumber [] (c :: cs)
  else if c = '-' ∧ cs.head?.any Char.isDigit then scanNumber ['-'] cs
  else if c = '"' then scanQuote cs
  else if Text.isIdentifierStart c then
    scanWhile Text.isIdentifierChar (fun w => .token (wordToken (String.ofList w))) (c :: cs)
  else scanSymbol c cs

/-- A token or a piece that is none, with its place in bytes. -/
structure Lexeme where
  piece : Piece
  content : List Char
  start : Nat
  stop : Nat

/-- The pieces of a text that starts at byte `start`, blanks left out, at most `fuel` of them. -/
def lexFrom : Nat → Nat → List Char → List Lexeme
  | 0, _, _ => []
  | _ + 1, _, [] => []
  | fuel + 1, start, c :: cs =>
    let s := scan c cs
    let stop := start + Text.byteCount s.taken
    let later := lexFrom fuel stop s.rest
    match s.piece with
    | .blank => later
    | piece => ⟨piece, s.taken, start, stop⟩ :: later

/-- The pieces of a text. Each takes at least one character, so there are no more than these. -/
def lex (cs : List Char) : List Lexeme := lexFrom cs.length 0 cs

/-- The token of a piece, if it is one. -/
def Lexeme.token? (l : Lexeme) : Option Token :=
  match l.piece with
  | .token t => some t
  | _ => none

/-- The message about a piece that is no token. -/
def Lexeme.complaint? (l : Lexeme) : Option String :=
  match l.piece with
  | .unknown => some ("unexpected character: " ++ Text.quoted (String.ofList l.content))
  | _ => none

/-- The tokens among some pieces. -/
def tokens (ls : List Lexeme) : List Token := ls.filterMap Lexeme.token?

end Lexer

end LedPattern
