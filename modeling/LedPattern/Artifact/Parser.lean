import LedPattern.Artifact.Token

/-!
# Reading artifacts

The way back from an artifact's tokens to its program. The grammar is that of the printed form.
Where it offers a choice, the first alternative that fits is taken, and a repetition takes as much
as it can. Nesting is bounded by the number of tokens, which serves as the recursion's measure.

Specification of `pgc`, sections 2 and 4.5: the verifier runs an artifact by reading its text back,
and this is the parser it uses.
-/

namespace LedPattern

/-- Why a text is no artifact. -/
inductive ArtifactFault where
  /-- A piece of the text is no token. -/
  | unknownText (start stop : Nat) (complaint : String)
  /-- The tokens do not follow the grammar. -/
  | ungrammatical
  /-- No loop writes pixels. -/
  | noOutput
  /-- The artifact renders another number of pixels than its graph. -/
  | widthMismatch (renders declared : Nat)
deriving DecidableEq, Repr

/-- The wording of a fault. -/
def ArtifactFault.message : ArtifactFault → String
  | .unknownText start stop complaint =>
    natText start ++ ".." ++ natText stop ++ ": " ++ complaint
  | .ungrammatical => "syntax error"
  | .noOutput => "artifact has no loop writing `out`"
  | .widthMismatch renders declared => "artifact renders " ++ natText renders
      ++ " pixels but the graph declares frame_width " ++ natText declared

namespace Parser

/-- A value and the tokens after it. -/
abbrev Parsed (α : Type) := α × List Token

/-- A rule of the grammar: it takes a value off the front of some tokens, if it fits. -/
abbrev Rule (α : Type) := List Token → Option (Parsed α)

/-- An expression of an artifact. -/
abbrev SourceExpr := Expr Place String

/-- The tokens after the tokens `expected`. -/
def expect : List Token → List Token → Option (List Token)
  | [], ts => some ts
  | _ :: _, [] => none
  | e :: es, t :: ts => if e = t then expect es ts else none

/-- The tokens after a symbol. -/
def expectSymbol (sign : Symbol) (ts : List Token) : Option (List Token) :=
  expect [.symbol sign] ts

/-- An identifier. -/
def identifier : Rule String
  | .ident name :: ts => some (name, ts)
  | _ => none

/-- A count. -/
def count : Rule Nat
  | .int n :: ts => some (n, ts)
  | _ => none

/-- A constant. -/
def constant : Rule Float32
  | .float v :: ts => some (v, ts)
  | _ => none

/-- What stands between the brackets of an element. -/
def indexInside : Rule Index
  | .int n :: .symbol .minus :: .ident name :: ts =>
    if name = "i" then some (.reverse n, ts) else none
  | .int n :: .symbol .plus :: .ident name :: ts =>
    if name = "i" then some (.offset n, ts) else none
  | .ident name :: ts => if name = "i" then some (.counter, ts) else none
  | _ => none

/-- The number of an element, in brackets. -/
def index (ts : List Token) : Option (Parsed Index) := do
  let ts ← expectSymbol .leftBracket ts
  let (index, ts) ← indexInside ts
  let ts ← expectSymbol .rightBracket ts
  some (index, ts)

/-- A color after a dot, if there is one. -/
def channel (ts : List Token) : Option Channel × List Token :=
  match ts with
  | .symbol .dot :: .ident name :: rest =>
    match Channel.ofName? name with
    | some c => (some c, rest)
    | none => (none, ts)
  | _ => (none, ts)

/-- The target with a given name. -/
def targetOf (name : String) : Target := if name = "out" then .out else .buffer name

/-- A place. -/
def place (ts : List Token) : Option (Parsed Place) := do
  let (name, ts) ← identifier ts
  let (index, ts) ← index ts
  let (channel, ts) := channel ts
  some (⟨targetOf name, index, channel⟩, ts)

/-- The counter as a number. -/
def counterValue (ts : List Token) : Option (Parsed SourceExpr) := do
  let ts ← expect [.symbol .leftParen, .keyword .floatKw, .symbol .rightParen, .ident "i"] ts
  some (.counter, ts)

/-- Something between parentheses. -/
def parenthesized {α : Type} (inside : Rule α) (ts : List Token) : Option (Parsed α) := do
  let ts ← expectSymbol .leftParen ts
  let (a, ts) ← inside ts
  let ts ← expectSymbol .rightParen ts
  some (a, ts)

/-- A comma and a constant that equals `bound`. -/
def unitBound (bound : Float32) (ts : List Token) : Option (List Token) := do
  let ts ← expectSymbol .comma ts
  let (v, ts) ← constant ts
  if v == bound then some ts else none

/-- A clamp to the unit interval, with `expr` for what is clamped. -/
def clamp (expr : Rule SourceExpr) (ts : List Token) : Option (Parsed SourceExpr) := do
  let ts ← expect [.ident "clamp_val"] ts
  let bounded (ts : List Token) : Option (Parsed SourceExpr) := do
    let (e, ts) ← expr ts
    let ts ← unitBound 0 ts
    let ts ← unitBound 1 ts
    some (e, ts)
  let (e, ts) ← parenthesized bounded ts
  some (.clamp01 e, ts)

/-- A rounding down, with `expr` for what is rounded. -/
def floorOf (expr : Rule SourceExpr) (ts : List Token) : Option (Parsed SourceExpr) := do
  let ts ← expect [.ident "std", .symbol .colons, .ident "floor"] ts
  let (e, ts) ← parenthesized expr ts
  some (.floor e, ts)

/-- A parameter of the frame. -/
def parameter (ts : List Token) : Option (Parsed SourceExpr) := do
  let ts ← expect [.ident "params", .symbol .dot] ts
  let (name, ts) ← identifier ts
  let field ← ParamField.ofName? name
  some (.param field, ts)

/-- A bin of the spectrum. -/
def spectrum (ts : List Token) : Option (Parsed SourceExpr) := do
  let ts ← expect [.ident "audio", .symbol .arrow, .ident "spectrum"] ts
  let (index, ts) ← index ts
  some (.spectrum index, ts)

/-- The energy of the audio signal. -/
def energy (ts : List Token) : Option (Parsed SourceExpr) := do
  let ts ← expect [.ident "audio", .symbol .arrow, .ident "energy"] ts
  some (.energy, ts)

/-- An operand, with `expr` for the expressions inside it. -/
def atom (expr : Rule SourceExpr) (ts : List Token) : Option (Parsed SourceExpr) :=
  ((constant ts).map fun (v, ts) => (.const v, ts))
    <|> counterValue ts
    <|> parenthesized expr ts
    <|> clamp expr ts
    <|> floorOf expr ts
    <|> parameter ts
    <|> spectrum ts
    <|> energy ts
    <|> ((place ts).map fun (p, ts) => (.load p, ts))
    <|> ((identifier ts).map fun (name, ts) => (.ref name, ts))

/-- An operator of a product. -/
def productOp : Rule BinOp
  | .symbol .star :: ts => some (.mul, ts)
  | .symbol .slash :: ts => some (.div, ts)
  | _ => none

/-- An operator of a sum. -/
def sumOp : Rule BinOp
  | .symbol .plus :: ts => some (.add, ts)
  | .symbol .minus :: ts => some (.sub, ts)
  | _ => none

/-- Operands joined to `lhs` from left to right, as long as an operator and an operand follow. -/
def chainFrom (op : Rule BinOp) (operand : Rule SourceExpr) :
    Nat → SourceExpr → List Token → SourceExpr × List Token
  | 0, lhs, ts => (lhs, ts)
  | fuel + 1, lhs, ts =>
    match op ts with
    | none => (lhs, ts)
    | some (o, after) =>
      match operand after with
      | none => (lhs, ts)
      | some (rhs, rest) => chainFrom op operand fuel (.binary o lhs rhs) rest

/-- Operands joined from left to right. -/
def chain (op : Rule BinOp) (operand : Rule SourceExpr)
    (ts : List Token) : Option (Parsed SourceExpr) := do
  let (lhs, ts) ← operand ts
  some (chainFrom op operand ts.length lhs ts)

/-- An expression nested at most `depth` deep. -/
def exprWithin : Nat → List Token → Option (Parsed SourceExpr)
  | 0, _ => none
  | depth + 1, ts => chain sumOp (chain productOp (atom (exprWithin depth))) ts

/-- An expression. It cannot be nested deeper than it has tokens. -/
def expr (ts : List Token) : Option (Parsed SourceExpr) := exprWithin (ts.length + 1) ts

/-- A local that gets a value. -/
def binding (ts : List Token) : Option (Parsed (Instr Place String)) := do
  let ts ← expect [.keyword .constKw, .keyword .floatKw] ts
  let (name, ts) ← identifier ts
  let ts ← expectSymbol .assign ts
  let (value, ts) ← expr ts
  let ts ← expectSymbol .semicolon ts
  some (.bind name value, ts)

/-- A value converted to a byte. -/
def converted (ts : List Token) : Option (Parsed SourceExpr) := do
  let ts ← expect [.symbol .leftParen, .ident "uint8_t", .symbol .rightParen] ts
  parenthesized expr ts

/-- A stored value, and whether it is converted to a byte. -/
def storedValue (ts : List Token) : Option (Parsed (Bool × SourceExpr)) :=
  ((converted ts).map fun (e, ts) => ((true, e), ts))
    <|> ((expr ts).map fun (e, ts) => ((false, e), ts))

/-- A place that gets a value. Exactly what is stored to a pixel is converted to a byte. -/
def storing (ts : List Token) : Option (Parsed (Instr Place String)) := do
  let (place, ts) ← place ts
  let ts ← expectSymbol .assign ts
  let ((cast, value), ts) ← storedValue ts
  let ts ← expectSymbol .semicolon ts
  if cast = decide (place.target = .out) then some (.store place value, ts) else none

/-- An instruction. -/
def instr (ts : List Token) : Option (Parsed (Instr Place String)) := binding ts <|> storing ts

/-- As many as follow, and at most `fuel`, of what `item` reads. -/
def many {α : Type} (item : Rule α) : Nat → List Token → List α × List Token
  | 0, ts => ([], ts)
  | fuel + 1, ts =>
    match item ts with
    | none => ([], ts)
    | some (a, rest) =>
      let (more, after) := many item fuel rest
      (a :: more, after)

/-- A loop: its count and its body. -/
def loop (ts : List Token) : Option (Parsed (Nat × List (Instr Place String))) := do
  let ts ← expect [.keyword .forKw, .symbol .leftParen, .keyword .intKw, .ident "i",
    .symbol .assign, .int 0, .symbol .semicolon, .ident "i", .symbol .less] ts
  let (count, ts) ← count ts
  let ts ← expect [.symbol .semicolon, .symbol .increment, .ident "i", .symbol .rightParen,
    .symbol .leftBrace] ts
  let (body, ts) := many instr ts.length ts
  let ts ← expectSymbol .rightBrace ts
  some ((count, body), ts)

/-- A threshold for the energy of the audio signal. -/
def threshold (ts : List Token) : Option (Parsed Float32) := do
  let ts ← expect [.symbol .bothAnd, .ident "audio", .symbol .arrow, .ident "energy",
    .symbol .greater] ts
  constant ts

/-- A test of the audio signal, in parentheses. -/
def test (ts : List Token) : Option (Parsed Test) := do
  let inside (ts : List Token) : Option (Parsed Test) := do
    let ts ← expect [.ident "audio", .symbol .notEqual, .keyword .nullptrKw] ts
    match threshold ts with
    | some (v, ts) => some (.energyAbove v, ts)
    | none => some (.audioPresent, ts)
  parenthesized inside ts

/-- The two ways of a branch, with `body` for what is between braces. -/
def branch (body : List Token → Body × List Token) (ts : List Token) :
    Option (Parsed (Test × Body × Body)) := do
  let ts ← expect [.keyword .ifKw] ts
  let (test, ts) ← test ts
  let ts ← expectSymbol .leftBrace ts
  let (yes, ts) := body ts
  let ts ← expect [.symbol .rightBrace, .keyword .elseKw, .symbol .leftBrace] ts
  let (no, ts) := body ts
  let ts ← expectSymbol .rightBrace ts
  some ((test, yes, no), ts)

/-- As many statements as follow. A sequence of `n` statements and all that they hold is within
`n` of each other, so the number of tokens bounds the recursion. -/
def bodyWithin : Nat → List Token → Body × List Token
  | 0, ts => (.done, ts)
  | fuel + 1, ts =>
    match loop ts with
    | some ((count, body), ts) =>
      let (rest, ts) := bodyWithin fuel ts
      (.loop count body rest, ts)
    | none =>
      match branch (bodyWithin fuel) ts with
      | some ((test, yes, no), ts) =>
        let (rest, ts) := bodyWithin fuel ts
        (.branch test yes no rest, ts)
      | none => (.done, ts)

/-- As many statements as follow. -/
def body (ts : List Token) : Body × List Token := bodyWithin (ts.length + 1) ts

/-- A name, a length in brackets, and zeros for contents. -/
def arrayDeclaration (ts : List Token) : Option (Parsed (String × Nat)) := do
  let (name, ts) ← identifier ts
  let ts ← expectSymbol .leftBracket ts
  let (len, ts) ← count ts
  let ts ← expect [.symbol .rightBracket, .symbol .assign, .symbol .leftBrace,
    .symbol .rightBrace, .symbol .semicolon] ts
  some ((name, len), ts)

/-- The declaration of a slot. Its owner is not written, so its symbol takes that place. -/
def slot (ts : List Token) : Option (Parsed Slot) := do
  let ts ← expect [.keyword .staticKw, .keyword .floatKw] ts
  let ((symbol, len), ts) ← arrayDeclaration ts
  some (⟨symbol, symbol, len⟩, ts)

/-- The type of an element. -/
def elem (ts : List Token) : Option (Parsed Elem) :=
  match ts with
  | .keyword .floatKw :: ts => some (.float, ts)
  | .ident name :: ts => if name = "CRGBF" then some (.rgb, ts) else none
  | _ => none

/-- The declaration of a temporary. -/
def temp (ts : List Token) : Option (Parsed Temp) := do
  let (elem, ts) ← elem ts
  let ((symbol, len), ts) ← arrayDeclaration ts
  some (⟨symbol, elem, len⟩, ts)

/-- The parameters of the function. -/
def parameterTokens : List Token :=
  [.symbol .leftParen, .keyword .floatKw, .ident "time", .symbol .comma,
    .keyword .constKw, .ident "AudioSnapshot", .symbol .star, .ident "audio", .symbol .comma,
    .keyword .constKw, .ident "PatternParameters", .symbol .ampersand, .ident "params",
    .symbol .comma, .ident "CRGB8", .symbol .star, .ident "out", .symbol .rightParen]

/-- The last of some names, if the others are all the attribute that firmware has. -/
def functionName : List String → Option String
  | [] => none
  | [name] => some name
  | attr :: names => if attr = "IRAM_ATTR" then functionName names else none

/-- The head of the function, with its name. -/
def signature (ts : List Token) : Option (Parsed String) := do
  let ts ← expect [.keyword .externKw, .quote "C", .keyword .voidKw] ts
  let (names, ts) := many identifier ts.length ts
  let ts ← expect parameterTokens ts
  let name ← functionName names
  some (name, ts)

/-- The parts of an artifact. -/
structure Parts where
  slots : List Slot
  function : String
  temps : List Temp
  body : Body

/-- A whole artifact. -/
def parts (ts : List Token) : Option Parts := do
  let (slots, ts) := many slot ts.length ts
  let (function, ts) ← signature ts
  let ts ← expectSymbol .leftBrace ts
  let (temps, ts) := many temp ts.length ts
  let (body, ts) := body ts
  let ts ← expectSymbol .rightBrace ts
  if ts.isEmpty then some { slots, function, temps, body } else none

end Parser

/-- The count of the first loop that stores to pixels. -/
def Block.outputWidth? (body : Body) : Option Nat :=
  (body.loops.find? fun l => l.2.any Instr.storesOut).map Prod.fst

namespace Program

/-- The program that some tokens spell. Its width is that of the first loop which writes pixels. -/
def ofTokens (ts : List Token) : Except ArtifactFault Program :=
  match Parser.parts ts with
  | none => .error .ungrammatical
  | some parts =>
    match parts.body.outputWidth? with
    | none => .error .noOutput
    | some width => .ok ⟨parts.function, width, parts.slots, parts.temps, parts.body⟩

/-- The program that an artifact's text spells, or all that is wrong with the text. -/
def ofText (text : String) : Except (List ArtifactFault) Program :=
  let lexemes := Lexer.lex text.toList
  let unknown := lexemes.filterMap fun l =>
    l.complaint?.map fun complaint => ArtifactFault.unknownText l.start l.stop complaint
  match ofTokens (Lexer.tokens lexemes) with
  | .ok program => if unknown.isEmpty then .ok program else .error unknown
  | .error fault => .error (unknown ++ [fault])

end Program

end LedPattern
