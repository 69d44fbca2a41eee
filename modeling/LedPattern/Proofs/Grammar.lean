import LedPattern.Proofs.Printing

/-!
# The grammar of artifacts

The grammar that the rules of the parser are meant to follow, said without a parser. A derivation is
a tree, one constructor for each production, with the tokens that it derives (`tokens`) and with
what it stands for (`value`). Nothing is said here of the order in which alternatives are tried or
of how far a repetition goes.

There are derivations of expressions (`ExprTree`), of instructions (`InstrTree`), of sequences of
statements (`BodyTree`) and of whole artifacts (`ArtifactTree`). A sum is a product, or a sum, a
sign and a product, so that chains of operators of one tier associate to the left, and products are
made of operands in the same way.
-/

namespace LedPattern

/-! ## Expressions -/

/-- The operators of a chain: those of products, or those of sums. -/
inductive Tier where
  | product
  | sum

/-- What an expression is to the grammar: an operand, or a chain of some tier. -/
inductive Level where
  | operand
  | chain (tier : Tier)

/-- What the operators of a tier join: sums are made of products, and products of operands. -/
def Tier.operand : Tier → Level
  | .product => .operand
  | .sum => .chain .product

/-- The tier of an operator. -/
def BinOp.tier : BinOp → Tier
  | .add | .sub => .sum
  | .mul | .div => .product

/-- A place as it is written, under the name of a buffer or of the pixels. -/
structure PlaceTree where
  name : String
  index : Index
  channel : Option Channel

namespace PlaceTree

/-- The tokens of a place. -/
def tokens (p : PlaceTree) : List Token :=
  .ident p.name :: .symbol .leftBracket
    :: (p.index.tokens ++ .symbol .rightBracket :: Channel.tokens p.channel)

/-- The place that is meant. -/
def value (p : PlaceTree) : Place := ⟨Parser.targetOf p.name, p.index, p.channel⟩

/-- Only the pixels are meant by their name. -/
theorem target_eq_out_iff (p : PlaceTree) : p.value.target = .out ↔ p.name = "out" := by
  simp [value, Parser.targetOf]

end PlaceTree

/-- Derivations of expressions. The bounds of a clamp may be written in any way that means zero and
one. -/
inductive ExprTree : Level → Type where
  | const (v : Float32) : ExprTree .operand
  | counter : ExprTree .operand
  | paren (inside : ExprTree (.chain .sum)) : ExprTree .operand
  | clamp (inside : ExprTree (.chain .sum)) (low high : Float32) (hlow : (low == 0) = true)
      (hhigh : (high == 1) = true) : ExprTree .operand
  | floor (inside : ExprTree (.chain .sum)) : ExprTree .operand
  | param (field : ParamField) : ExprTree .operand
  | spectrum (index : Index) : ExprTree .operand
  | energy : ExprTree .operand
  | load (place : PlaceTree) : ExprTree .operand
  | ref (name : String) : ExprTree .operand
  | single {t : Tier} (only : ExprTree t.operand) : ExprTree (.chain t)
  | join {t : Tier} (op : BinOp) (hop : op.tier = t) (lhs : ExprTree (.chain t))
      (rhs : ExprTree t.operand) : ExprTree (.chain t)

/-- Derivations of sums, which are all expressions. -/
abbrev SumTree := ExprTree (.chain .sum)

namespace ExprTree

/-- The tokens of an expression. -/
def tokens : {l : Level} → ExprTree l → List Token
  | _, .const v => [.float v]
  | _, .counter => [.symbol .leftParen, .keyword .floatKw, .symbol .rightParen, .ident "i"]
  | _, .paren inside => .symbol .leftParen :: (inside.tokens ++ [.symbol .rightParen])
  | _, .clamp inside low high _ _ =>
    .ident "clamp_val" :: .symbol .leftParen :: (inside.tokens
      ++ [.symbol .comma, .float low, .symbol .comma, .float high, .symbol .rightParen])
  | _, .floor inside =>
    .ident "std" :: .symbol .colons :: .ident "floor" :: .symbol .leftParen
      :: (inside.tokens ++ [.symbol .rightParen])
  | _, .param field => [.ident "params", .symbol .dot, .ident field.name]
  | _, .spectrum index =>
    .ident "audio" :: .symbol .arrow :: .ident "spectrum" :: .symbol .leftBracket
      :: (index.tokens ++ [.symbol .rightBracket])
  | _, .energy => [.ident "audio", .symbol .arrow, .ident "energy"]
  | _, .load place => place.tokens
  | _, .ref name => [.ident name]
  | _, .single only => only.tokens
  | _, .join op _ lhs rhs => lhs.tokens ++ .symbol op.sign :: rhs.tokens

/-- The expression that is meant. Parentheses leave no trace. -/
def value : {l : Level} → ExprTree l → Parser.SourceExpr
  | _, .const v => .const v
  | _, .counter => .counter
  | _, .paren inside => inside.value
  | _, .clamp inside _ _ _ _ => .clamp01 inside.value
  | _, .floor inside => .floor inside.value
  | _, .param field => .param field
  | _, .spectrum index => .spectrum index
  | _, .energy => .energy
  | _, .load place => .load place.value
  | _, .ref name => .ref name
  | _, .single only => only.value
  | _, .join op _ lhs rhs => .binary op lhs.value rhs.value

end ExprTree

/-! ## Statements -/

/-- Derivations of instructions. -/
inductive InstrTree where
  | bind (name : String) (value : SumTree)
  | store (place : PlaceTree) (value : SumTree)

namespace InstrTree

/-- The tokens of an instruction. Exactly what is stored to the pixels is converted to a byte. -/
def tokens : InstrTree → List Token
  | .bind name value =>
    .keyword .constKw :: .keyword .floatKw :: .ident name :: .symbol .assign
      :: (value.tokens ++ [.symbol .semicolon])
  | .store place value =>
    place.tokens ++ .symbol .assign ::
      if place.name = "out" then
        .symbol .leftParen :: .ident "uint8_t" :: .symbol .rightParen :: .symbol .leftParen
          :: (value.tokens ++ [.symbol .rightParen, .symbol .semicolon])
      else value.tokens ++ [.symbol .semicolon]

/-- The instruction that is meant. -/
def value : InstrTree → Instr Place String
  | .bind name value => .bind name value.value
  | .store place value => .store place.value value.value

end InstrTree

/-- Derivations of sequences of statements: loops over `i` from zero, and branches. -/
inductive BodyTree where
  | done
  | loop (count : Nat) (instrs : List InstrTree) (rest : BodyTree)
  | branch (test : Test) (yes no rest : BodyTree)

namespace BodyTree

/-- The tokens of a sequence of statements. -/
def tokens : BodyTree → List Token
  | .done => []
  | .loop count instrs rest =>
    loopHead count ++ (instrs.flatMap InstrTree.tokens ++ .symbol .rightBrace :: rest.tokens)
  | .branch test yes no rest =>
    .keyword .ifKw :: .symbol .leftParen :: (test.tokens
      ++ .symbol .rightParen :: .symbol .leftBrace :: (yes.tokens
      ++ .symbol .rightBrace :: .keyword .elseKw :: .symbol .leftBrace :: (no.tokens
      ++ .symbol .rightBrace :: rest.tokens)))

/-- The statements that are meant. -/
def value : BodyTree → Body
  | .done => .done
  | .loop count instrs rest => .loop count (instrs.map InstrTree.value) rest.value
  | .branch test yes no rest => .branch test yes.value no.value rest.value

end BodyTree

/-! ## Artifacts -/

/-- Derivations of artifacts. A slot is declared by its symbol and its length, and the name of the
function may have attributes before it. -/
structure ArtifactTree where
  slots : List (String × Nat)
  attributes : Nat
  function : String
  temps : List Temp
  body : BodyTree

namespace ArtifactTree

/-- The slot of a declaration, which is its own owner. -/
def slotOf (declaration : String × Nat) : Slot :=
  ⟨declaration.1, declaration.1, declaration.2⟩

/-- The names before the parameters of the function: attributes, and its own. -/
def names (d : ArtifactTree) : List String :=
  List.replicate d.attributes "IRAM_ATTR" ++ [d.function]

/-- The tokens of the function's head. -/
def signature (d : ArtifactTree) : List Token :=
  .keyword .externKw :: .quote "C" :: .keyword .voidKw
    :: (d.names.flatMap (fun name => [.ident name]) ++ Parser.parameterTokens)

/-- The tokens of an artifact. -/
def tokens (d : ArtifactTree) : List Token :=
  d.slots.flatMap (fun s => (slotOf s).tokens) ++ (d.signature ++ .symbol .leftBrace
    :: (d.temps.flatMap Temp.tokens ++ (d.body.tokens ++ [.symbol .rightBrace])))

/-- The program that is meant, if some loop stores to the pixels. It renders as many of them as the
first such loop has rounds. -/
def program? (d : ArtifactTree) : Option Program :=
  d.body.value.outputWidth?.map fun width =>
    ⟨d.function, width, d.slots.map slotOf, d.temps, d.body.value⟩

/-- Some loop stores to the pixels. -/
def WritesPixels (d : ArtifactTree) : Prop :=
  ∃ l ∈ d.body.value.loops, ∃ i ∈ l.2, i.storesOut = true

end ArtifactTree

end LedPattern
