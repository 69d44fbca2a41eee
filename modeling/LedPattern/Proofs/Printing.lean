import LedPattern.Artifact.Parser
import LedPattern.Proofs.Scanning

/-!
# The tokens of printed programs

For every part of a program the file gives its tokens, which are what its text consists of once
blanks, comments and notes are gone. `Program.reads_print` shows that for the whole artifact.

A text is read with any text behind it. An expression must be apart from that (`isApart`), since it
may end in a name. What a program must satisfy to be read again (`isPrintable`, `Printable`) is what
its own text cannot settle: names are names, constants are finite and counts are words.

Without the condition on constants (`isSpelled`, `Spelled`) the text still consists of tokens. A
constant that is not finite is then read as a word, perhaps after a minus sign (`Token.printed`).
-/

namespace LedPattern

open Lexer Artifact

/-! ## What can be printed -/

/-- Whether the number in an index is a word. -/
def Index.isPrintable : Index → Bool
  | .counter => true
  | .reverse last => last < Index.limit
  | .offset base => base < Index.limit

/-- Whether a target is read again: a buffer has a name, other than that of the pixels. -/
def Target.isPrintable : Target → Bool
  | .buffer symbol => isName symbol && symbol ≠ "out"
  | .out => true

/-- Whether a place is read again. -/
def Place.isPrintable (p : Place) : Bool := p.target.isPrintable && p.index.isPrintable

/-- Whether an expression is read again: its constants are finite and its locals have names. -/
def Expr.isPrintable : Expr Place String → Bool
  | .const v => Single.isFinite v
  | .load place => place.isPrintable
  | .ref name => isName name
  | .spectrum index => index.isPrintable
  | .binary _ a b => a.isPrintable && b.isPrintable
  | .clamp01 x => x.isPrintable
  | .floor x => x.isPrintable
  | .counter | .param _ | .energy => true

/-- Whether an instruction is read again. -/
def Instr.isPrintable : Instr Place String → Bool
  | .bind name value => isName name && value.isPrintable
  | .store place value => place.isPrintable && value.isPrintable

/-- Whether a test is read again. -/
def Test.isPrintable : Test → Bool
  | .audioPresent => true
  | .energyAbove threshold => Single.isFinite threshold

/-- Whether a sequence of statements is read again. Its notes may hold anything. -/
def Block.isPrintable : Body → Bool
  | .done => true
  | .note _ rest => isPrintable rest
  | .loop count body rest =>
    count < Index.limit && body.all Instr.isPrintable && isPrintable rest
  | .branch test yes no rest =>
    test.isPrintable && isPrintable yes && isPrintable no && isPrintable rest

/-- A program is read again from its artifact. -/
structure Program.Printable (p : Program) : Prop where
  function : isName p.function = true
  slots : ∀ s ∈ p.slots, isName s.symbol = true ∧ s.len < Index.limit
  temps : ∀ t ∈ p.temps, isName t.symbol = true ∧ t.len < Index.limit
  body : p.body.isPrintable = true
  /-- The first loop that writes pixels writes as many as the program renders. -/
  width : p.body.outputWidth? = some p.frameWidth

/-! ## What can be written, whatever the constants -/

/-- The constants of an expression. The bounds of a clamp are none. -/
def Expr.constants {P L : Type} : Expr P L → List Float32
  | .const v => [v]
  | .binary _ a b => a.constants ++ b.constants
  | .clamp01 x => x.constants
  | .floor x => x.constants
  | _ => []

/-- The constant of a test. -/
def Test.constants : Test → List Float32
  | .audioPresent => []
  | .energyAbove threshold => [threshold]

/-- The constants of a sequence of statements. -/
def Block.constants {P L : Type} : Block P L → List Float32
  | .done => []
  | .note _ rest => rest.constants
  | .loop _ body rest => body.flatMap (fun i => i.value.constants) ++ rest.constants
  | .branch test yes no rest =>
    test.constants ++ (yes.constants ++ (no.constants ++ rest.constants))

/-- Whether the names and numbers in an expression are read again. -/
def Expr.isSpelled : Expr Place String → Bool
  | .load place => place.isPrintable
  | .ref name => isName name
  | .spectrum index => index.isPrintable
  | .binary _ a b => a.isSpelled && b.isSpelled
  | .clamp01 x => x.isSpelled
  | .floor x => x.isSpelled
  | .const _ | .counter | .param _ | .energy => true

/-- Whether the names and numbers in an instruction are read again. -/
def Instr.isSpelled : Instr Place String → Bool
  | .bind name value => isName name && value.isSpelled
  | .store place value => place.isPrintable && value.isSpelled

/-- Whether the names and numbers in a sequence of statements are read again. -/
def Block.isSpelled : Body → Bool
  | .done => true
  | .note _ rest => isSpelled rest
  | .loop count body rest => count < Index.limit && body.all Instr.isSpelled && isSpelled rest
  | .branch _ yes no rest => isSpelled yes && isSpelled no && isSpelled rest

/-- A program whose names and numbers are read again from its artifact. -/
structure Program.Spelled (p : Program) : Prop where
  function : isName p.function = true
  slots : ∀ s ∈ p.slots, isName s.symbol = true ∧ s.len < Index.limit
  temps : ∀ t ∈ p.temps, isName t.symbol = true ∧ t.len < Index.limit
  body : p.body.isSpelled = true
  width : p.body.outputWidth? = some p.frameWidth

/-- An expression is read again if it is spelled and its constants are finite. -/
theorem Expr.isPrintable_iff {e : Expr Place String} : e.isPrintable = true ↔
    e.isSpelled = true ∧ ∀ v ∈ e.constants, Single.isFinite v = true := by
  induction e with
  | binary op a b iha ihb =>
    simp only [isPrintable, isSpelled, constants, Bool.and_eq_true, iha, ihb,
      List.forall_mem_append]
    exact and_and_and_comm
  | clamp01 x ih => exact ih
  | floor x ih => exact ih
  | _ => simp [isPrintable, isSpelled, constants]

/-- An instruction is read again if it is spelled and its constants are finite. -/
theorem Instr.isPrintable_iff {i : Instr Place String} : i.isPrintable = true ↔
    i.isSpelled = true ∧ ∀ v ∈ i.value.constants, Single.isFinite v = true := by
  cases i <;>
    simp only [isPrintable, isSpelled, value, Bool.and_eq_true, Expr.isPrintable_iff, and_assoc]

/-- A test is read again if its constant is finite. -/
theorem Test.isPrintable_iff {test : Test} : test.isPrintable = true ↔
    ∀ v ∈ test.constants, Single.isFinite v = true := by
  cases test <;> simp [isPrintable, constants]

/-- A sequence of statements is read again if it is spelled and its constants are finite. -/
theorem Block.isPrintable_iff {b : Body} : b.isPrintable = true ↔
    b.isSpelled = true ∧ ∀ v ∈ b.constants, Single.isFinite v = true := by
  induction b with
  | done => simp [isPrintable, isSpelled, constants]
  | note _ rest ih => exact ih
  | loop count body rest ih =>
    have hbody : body.all Instr.isPrintable = true ↔ body.all Instr.isSpelled = true ∧
        ∀ v ∈ body.flatMap (fun i => i.value.constants), Single.isFinite v = true := by
      simp only [List.all_eq_true, Instr.isPrintable_iff, List.mem_flatMap, forall_exists_index,
        and_imp]
      exact ⟨fun h => ⟨fun i hi => (h i hi).1, fun v i hi hv => (h i hi).2 v hv⟩,
        fun h i hi => ⟨h.1 i hi, fun v hv => h.2 v i hi hv⟩⟩
    simp only [isPrintable, isSpelled, constants, Bool.and_eq_true, List.forall_mem_append, ih,
      hbody]
    grind
  | branch test yes no rest ihyes ihno ih =>
    simp only [isPrintable, isSpelled, constants, Bool.and_eq_true, List.forall_mem_append,
      Test.isPrintable_iff, ihyes, ihno, ih]
    grind

/-- A program is read again if it is spelled and its constants are finite. -/
theorem Program.printable_iff {p : Program} :
    p.Printable ↔ p.Spelled ∧ ∀ v ∈ p.body.constants, Single.isFinite v = true := by
  constructor
  · rintro ⟨hfunction, hslots, htemps, hbody, hwidth⟩
    obtain ⟨hspelled, hfinite⟩ := Block.isPrintable_iff.1 hbody
    exact ⟨⟨hfunction, hslots, htemps, hspelled, hwidth⟩, hfinite⟩
  · rintro ⟨⟨hfunction, hslots, htemps, hspelled, hwidth⟩, hfinite⟩
    exact ⟨hfunction, hslots, htemps, Block.isPrintable_iff.2 ⟨hspelled, hfinite⟩, hwidth⟩

/-! ## Tokens -/

/-- The sign of an operator. -/
def BinOp.sign : BinOp → Symbol
  | .add => .plus
  | .sub => .minus
  | .mul => .star
  | .div => .slash

/-- The tokens of an index. -/
def Index.tokens : Index → List Token
  | .counter => [.ident "i"]
  | .reverse last => [.int last, .symbol .minus, .ident "i"]
  | .offset base => [.int base, .symbol .plus, .ident "i"]

/-- The name of a target. -/
def Target.name : Target → String
  | .buffer symbol => symbol
  | .out => "out"

/-- The tokens of a color after a dot. -/
def Channel.tokens : Option Channel → List Token
  | some c => [.symbol .dot, .ident c.name]
  | none => []

/-- The tokens of a place. -/
def Place.tokens (p : Place) : List Token :=
  .ident p.target.name :: .symbol .leftBracket
    :: (p.index.tokens ++ .symbol .rightBracket :: Channel.tokens p.channel)

/-- Tokens between parentheses, if these are needed. -/
def groupedTokens (needed : Bool) (ts : List Token) : List Token :=
  if needed then .symbol .leftParen :: (ts ++ [.symbol .rightParen]) else ts

/-- The tokens of an expression. -/
def Expr.tokens : Expr Place String → List Token
  | .const v => [.float v]
  | .counter => [.symbol .leftParen, .keyword .floatKw, .symbol .rightParen, .ident "i"]
  | .load place => place.tokens
  | .ref name => [.ident name]
  | .param field => [.ident "params", .symbol .dot, .ident field.name]
  | .spectrum index =>
    [.ident "audio", .symbol .arrow, .ident "spectrum", .symbol .leftBracket]
      ++ (index.tokens ++ [.symbol .rightBracket])
  | .energy => [.ident "audio", .symbol .arrow, .ident "energy"]
  | .binary op a b =>
    groupedTokens (a.precedence < op.precedence) a.tokens
      ++ .symbol op.sign :: groupedTokens (b.precedence ≤ op.precedence) b.tokens
  | .clamp01 x =>
    [.ident "clamp_val", .symbol .leftParen]
      ++ (x.tokens ++ [.symbol .comma, .float 0, .symbol .comma, .float 1, .symbol .rightParen])
  | .floor x =>
    [.ident "std", .symbol .colons, .ident "floor", .symbol .leftParen]
      ++ (x.tokens ++ [.symbol .rightParen])

/-- The tokens of an instruction. -/
def Instr.tokens : Instr Place String → List Token
  | .bind name value =>
    [.keyword .constKw, .keyword .floatKw, .ident name, .symbol .assign]
      ++ (value.tokens ++ [.symbol .semicolon])
  | .store place value =>
    place.tokens ++ .symbol .assign ::
      match place.target with
      | .out => [.symbol .leftParen, .ident "uint8_t", .symbol .rightParen, .symbol .leftParen]
          ++ (value.tokens ++ [.symbol .rightParen, .symbol .semicolon])
      | .buffer _ => value.tokens ++ [.symbol .semicolon]

/-- The tokens of a test. -/
def Test.tokens : Test → List Token
  | .audioPresent => [.ident "audio", .symbol .notEqual, .keyword .nullptrKw]
  | .energyAbove threshold =>
    [.ident "audio", .symbol .notEqual, .keyword .nullptrKw, .symbol .bothAnd, .ident "audio",
      .symbol .arrow, .ident "energy", .symbol .greater, .float threshold]

/-- The tokens of a loop up to its body. -/
def loopHead (count : Nat) : List Token :=
  [.keyword .forKw, .symbol .leftParen, .keyword .intKw, .ident "i", .symbol .assign, .int 0,
    .symbol .semicolon, .ident "i", .symbol .less, .int count, .symbol .semicolon,
    .symbol .increment, .ident "i", .symbol .rightParen, .symbol .leftBrace]

/-- The tokens of a sequence of statements. Notes have none. -/
def Block.tokens : Body → List Token
  | .done => []
  | .note _ rest => tokens rest
  | .loop count body rest =>
    loopHead count ++ (body.flatMap Instr.tokens ++ .symbol .rightBrace :: tokens rest)
  | .branch test yes no rest =>
    [.keyword .ifKw, .symbol .leftParen]
      ++ (test.tokens ++ ([.symbol .rightParen, .symbol .leftBrace]
      ++ (tokens yes ++ ([.symbol .rightBrace, .keyword .elseKw, .symbol .leftBrace]
      ++ (tokens no ++ .symbol .rightBrace :: tokens rest)))))

/-- The tokens of a length and of zeros for contents. -/
def lengthTokens (len : Nat) : List Token :=
  [.symbol .leftBracket, .int len, .symbol .rightBracket, .symbol .assign, .symbol .leftBrace,
    .symbol .rightBrace, .symbol .semicolon]

/-- The tokens of a slot's declaration. -/
def Slot.tokens (s : Slot) : List Token :=
  .keyword .staticKw :: .keyword .floatKw :: .ident s.symbol :: lengthTokens s.len

/-- The token of an element's type. -/
def Elem.token : Elem → Token
  | .float => .keyword .floatKw
  | .rgb => .ident "CRGBF"

/-- The tokens of a temporary's declaration. -/
def Temp.tokens (t : Temp) : List Token := t.elem.token :: .ident t.symbol :: lengthTokens t.len

/-- The attribute of the function. -/
def Profile.attribute : Profile → List String
  | .firmware => ["IRAM_ATTR"]
  | .host => []

/-- The tokens of the function's head. -/
def signatureTokens (profile : Profile) (function : String) : List Token :=
  [.keyword .externKw, .quote "C", .keyword .voidKw]
    ++ ((profile.attribute ++ [function]).map Token.ident
    ++ (Parser.parameterTokens ++ [.symbol .leftBrace]))

/-- The tokens of the function's head with any token in place of its name. -/
def headTokens (profile : Profile) (name : Token) : List Token :=
  [.keyword .externKw, .quote "C", .keyword .voidKw]
    ++ (profile.attribute.map Token.ident
    ++ name :: (Parser.parameterTokens ++ [.symbol .leftBrace]))

/-- The head of a function whose name is an identifier. -/
theorem headTokens_ident (profile : Profile) (function : String) :
    headTokens profile (.ident function) = signatureTokens profile function := by
  cases profile <;> rfl

/-- The tokens of a program's artifact. -/
def Program.tokens (p : Program) (profile : Profile) : List Token :=
  p.slots.flatMap Slot.tokens ++ (signatureTokens profile p.function
    ++ (p.temps.flatMap Temp.tokens ++ (p.body.tokens ++ [.symbol .rightBrace])))

/-- The tokens that a token's text is read as. These are the token itself, but the text of a
constant that is not finite is a word. -/
def Token.printed : Token → List Token
  | .float v =>
    if Single.isFinite v then [.float v]
    else if Single.isInfinite v then
      if Single.isNegative v then [.symbol .minus, .ident "inff"] else [.ident "inff"]
    else [.ident "NaNf"]
  | .keyword word => [.keyword word]
  | .symbol sign => [.symbol sign]
  | .int value => [.int value]
  | .quote content => [.quote content]
  | .ident name => [.ident name]

/-- No constant is read that is not finite. -/
theorem Token.isFinite_of_printed {t : Token} {v : Float32} (h : .float v ∈ t.printed) :
    Single.isFinite v = true := by
  cases t with
  | float w =>
    rw [printed] at h
    split at h
    · next hw =>
      cases List.mem_singleton.1 h
      exact hw
    · split at h
      · split at h <;> simp at h
      · simp at h
  | _ => simp [printed] at h

/-- Tokens whose constants are finite are read as they are. -/
theorem Token.flatMap_printed {ts : List Token}
    (h : ∀ v, .float v ∈ ts → Single.isFinite v = true) : ts.flatMap Token.printed = ts := by
  induction ts with
  | nil => rfl
  | cons t rest ih =>
    have hfirst : t.printed = [t] := by
      cases t with
      | float v => exact if_pos (h v List.mem_cons_self)
      | _ => rfl
    rw [List.flatMap_cons, hfirst, ih fun v hv => h v (List.mem_cons_of_mem t hv)]
    rfl

/-- There are no constants in a place. -/
theorem Place.float_not_mem_tokens (p : Place) (v : Float32) : .float v ∉ p.tokens := by
  obtain ⟨target, index, channel⟩ := p
  cases index <;> cases channel <;> simp [tokens, Index.tokens, Channel.tokens]

/-- The tokens of a place are read as they are. -/
theorem Place.printed_tokens (p : Place) : p.tokens.flatMap Token.printed = p.tokens :=
  Token.flatMap_printed fun v hv => absurd hv (p.float_not_mem_tokens v)

/-- Parentheses are read as they are. -/
theorem printed_groupedTokens (needed : Bool) (ts : List Token) :
    (groupedTokens needed ts).flatMap Token.printed =
      groupedTokens needed (ts.flatMap Token.printed) := by
  cases needed <;> simp [groupedTokens, Token.printed]

/-- The constants among the tokens of an expression that is read again are finite. -/
theorem Expr.isFinite_of_mem_tokens {e : Expr Place String} (he : e.isPrintable = true)
    {v : Float32} (hv : .float v ∈ e.tokens) : Single.isFinite v = true := by
  have hgrouped : ∀ {needed ts}, .float v ∈ groupedTokens needed ts → .float v ∈ ts := by
    rintro (_ | _) ts h <;> simpa [groupedTokens] using h
  induction e with
  | const w =>
    cases List.mem_singleton.1 hv
    exact he
  | load place => exact absurd hv (place.float_not_mem_tokens v)
  | spectrum index => cases index <;> simp [tokens, Index.tokens] at hv
  | binary op a b iha ihb =>
    simp only [isPrintable, Bool.and_eq_true] at he
    simp only [tokens, List.mem_append, List.mem_cons, reduceCtorEq, false_or] at hv
    exact hv.elim (fun hv => iha he.1 (hgrouped hv)) fun hv => ihb he.2 (hgrouped hv)
  | clamp01 x ih =>
    simp only [tokens, List.mem_append, List.mem_cons, List.not_mem_nil, reduceCtorEq, or_false,
      false_or, Token.float.injEq] at hv
    rcases hv with hv | rfl | rfl
    · exact ih he hv
    · decide
    · decide
  | floor x ih =>
    simp only [tokens, List.mem_append, List.mem_cons, List.not_mem_nil, reduceCtorEq, or_false,
      false_or] at hv
    exact ih he hv
  | _ => simp [tokens] at hv

/-- The constants among the tokens of an instruction that is read again are finite. -/
theorem Instr.isFinite_of_mem_tokens {i : Instr Place String} (hi : i.isPrintable = true)
    {v : Float32} (hv : .float v ∈ i.tokens) : Single.isFinite v = true := by
  cases i with
  | bind name value =>
    simp only [isPrintable, Bool.and_eq_true] at hi
    simp only [tokens, List.mem_append, List.mem_cons, List.not_mem_nil, reduceCtorEq, or_false,
      false_or] at hv
    exact Expr.isFinite_of_mem_tokens hi.2 hv
  | store place value =>
    simp only [isPrintable, Bool.and_eq_true] at hi
    have hvalue : .float v ∈ value.tokens := by
      have hplace := place.float_not_mem_tokens v
      cases htarget : place.target <;> simpa [tokens, htarget, hplace] using hv
    exact Expr.isFinite_of_mem_tokens hi.2 hvalue

/-- The constants among the tokens of statements that are read again are finite. -/
theorem Block.isFinite_of_mem_tokens {b : Body} (hb : b.isPrintable = true) {v : Float32}
    (hv : .float v ∈ b.tokens) : Single.isFinite v = true := by
  induction b with
  | done => cases hv
  | note _ _ ih => exact ih hb hv
  | loop count body rest ih =>
    simp only [isPrintable, Bool.and_eq_true] at hb
    simp only [tokens, loopHead, List.mem_append, List.mem_cons, List.not_mem_nil, reduceCtorEq,
      or_false, false_or, List.mem_flatMap] at hv
    rcases hv with ⟨i, hi, hv⟩ | hv
    · exact Instr.isFinite_of_mem_tokens (List.all_eq_true.1 hb.1.2 i hi) hv
    · exact ih hb.2 hv
  | branch test yes no rest ihyes ihno ih =>
    simp only [isPrintable, Bool.and_eq_true] at hb
    simp only [tokens, List.mem_append, List.mem_cons, List.not_mem_nil, reduceCtorEq, or_false,
      false_or] at hv
    rcases hv with hv | hv | hv | hv
    · cases test with
      | audioPresent => simp [Test.tokens] at hv
      | energyAbove threshold =>
        obtain rfl : v = threshold := by simpa [Test.tokens] using hv
        exact hb.1.1.1
    · exact ihyes hb.1.1.2 hv
    · exact ihno hb.1.2 hv
    · exact ih hb.2 hv

/-- Only the code of a program has constants. -/
theorem Program.printed_tokens (p : Program) (profile : Profile) :
    (p.tokens profile).flatMap Token.printed =
      p.slots.flatMap Slot.tokens ++ (signatureTokens profile p.function
        ++ (p.temps.flatMap Temp.tokens
        ++ (p.body.tokens.flatMap Token.printed ++ [.symbol .rightBrace]))) := by
  have hslots : (p.slots.flatMap Slot.tokens).flatMap Token.printed =
      p.slots.flatMap Slot.tokens :=
    Token.flatMap_printed fun v hv => by simp [Slot.tokens, lengthTokens] at hv
  have htemps : (p.temps.flatMap Temp.tokens).flatMap Token.printed =
      p.temps.flatMap Temp.tokens := by
    refine Token.flatMap_printed fun v hv => ?_
    obtain ⟨⟨symbol, elem, len⟩, -, hv⟩ := List.mem_flatMap.1 hv
    cases elem <;> simp [Temp.tokens, Elem.token, lengthTokens] at hv
  have hhead : (signatureTokens profile p.function).flatMap Token.printed =
      signatureTokens profile p.function := by
    refine Token.flatMap_printed fun v hv => ?_
    cases profile <;> simp [signatureTokens, Profile.attribute, Parser.parameterTokens] at hv
  rw [Program.tokens, List.flatMap_append, List.flatMap_append, List.flatMap_append,
    List.flatMap_append, hslots, htemps, hhead]
  rfl

/-! ## From text to tokens -/

section

variable {rest : List Char} {more : List Token}

/-- An index is read off the front of a text. -/
theorem Index.reads {index : Index} (hindex : index.isPrintable = true) (h : Reads rest more)
    (hrest : isApart rest = true) : Reads (index.text.toList ++ rest) (index.tokens ++ more) := by
  have hi : Reads ("i".toList ++ rest) (.ident "i" :: more) := reads_name (by decide) h hrest
  cases index with
  | counter => exact hi
  | reverse last =>
    have hlast : last < Index.limit := of_decide_eq_true hindex
    have hminus := reads_fixed " - " [.symbol .minus] (by decide) hi
    simp only [Index.text, String.toList_append, List.append_assoc]
    exact reads_count hlast hminus rfl
  | offset base =>
    have hbase : base < Index.limit := of_decide_eq_true hindex
    have hplus := reads_fixed " + " [.symbol .plus] (by decide) hi
    simp only [Index.text, String.toList_append, List.append_assoc]
    exact reads_count hbase hplus rfl

/-- The name of a color is a name. -/
theorem Channel.isName_name (c : Channel) : isName c.name = true := by
  cases c <;> decide

/-- The name of a parameter is a name. -/
theorem ParamField.isName_name (field : ParamField) : isName field.name = true := by
  cases field <;> decide

/-- The name of a target that can be printed is a name. -/
theorem Target.isName_name {target : Target} (h : target.isPrintable = true) :
    isName target.name = true := by
  cases target with
  | buffer symbol =>
    simp only [Target.isPrintable, Bool.and_eq_true] at h
    exact h.1
  | out => decide

/-- The text of a place in one line. -/
theorem Place.toList_text (p : Place) :
    p.text.toList = p.target.name.toList ++ ("[".toList ++ (p.index.text.toList ++ ("]".toList
      ++ (match p.channel with
        | some c => ".".toList ++ c.name.toList
        | none => [])))) := by
  obtain ⟨target, index, channel⟩ := p
  cases target <;> cases channel <;>
    simp only [Place.text, Target.name, String.toList_append, List.append_assoc] <;> rfl

/-- A place is read off the front of a text. -/
theorem Place.reads {p : Place} (hp : p.isPrintable = true) (h : Reads rest more)
    (hrest : isApart rest = true) : Reads (p.text.toList ++ rest) (p.tokens ++ more) := by
  simp only [Place.isPrintable, Bool.and_eq_true] at hp
  obtain ⟨htarget, hindex⟩ := hp
  -- Whatever follows the closing bracket, the part up to it is read in the same way.
  have helement : ∀ {cs : List Char} {ts : List Token}, Reads cs ts →
      Reads (p.target.name.toList ++ ("[".toList ++ (p.index.text.toList ++ ("]".toList ++ cs))))
        (.ident p.target.name :: .symbol .leftBracket ::
          (p.index.tokens ++ .symbol .rightBracket :: ts)) := by
    intro cs ts hcs
    have hclose := reads_fixed "]" [.symbol .rightBracket] (by decide) hcs
    have hinside := Index.reads hindex hclose rfl
    have hopen := reads_fixed "[" [.symbol .leftBracket] (by decide) hinside
    exact reads_name (Target.isName_name htarget) hopen rfl
  rw [Place.toList_text, Place.tokens]
  cases p.channel with
  | none =>
    simp only [Channel.tokens, List.append_assoc, List.cons_append, List.nil_append]
    exact helement h
  | some c =>
    have hcolor := reads_fixed "." [.symbol .dot] (by decide)
      (reads_name c.isName_name h hrest)
    simp only [Channel.tokens, List.append_assoc, List.cons_append, List.nil_append]
    exact helement hcolor

/-- Parentheses around a text become parentheses around its tokens. -/
theorem reads_grouped {s : String} {ts : List Token} (needed : Bool)
    (hs : ∀ {cs : List Char} {us : List Token}, Reads cs us → isApart cs = true →
      Reads (s.toList ++ cs) (ts ++ us))
    (h : Reads rest more) (hrest : isApart rest = true) :
    Reads ((grouped needed s).toList ++ rest) (groupedTokens needed ts ++ more) := by
  cases needed with
  | false => exact hs h hrest
  | true =>
    have hclose := reads_fixed ")" [.symbol .rightParen] (by decide) h
    have hopen := reads_fixed "(" [.symbol .leftParen] (by decide) (hs hclose rfl)
    simp only [grouped, groupedTokens, if_true, String.toList_append, List.append_assoc,
      List.cons_append]
    exact hopen

/-- An operator between blanks is read off the front of a text. -/
theorem BinOp.reads (op : BinOp) (h : Reads rest more) :
    Reads (" ".toList ++ (op.symbol.toList ++ (" ".toList ++ rest))) (.symbol op.sign :: more) := by
  cases op with
  | add => exact reads_fixed " + " [.symbol .plus] (by decide) h
  | sub => exact reads_fixed " - " [.symbol .minus] (by decide) h
  | mul => exact reads_fixed " * " [.symbol .star] (by decide) h
  | div => exact reads_fixed " / " [.symbol .slash] (by decide) h

/-- The bounds of a clamp as they are printed. -/
theorem unitBounds_text : ", 0.0f, 1.0f)" =
    ", " ++ literalText 0 ++ ", " ++ literalText 1 ++ ")" := by
  decide +kernel

/-- The bounds of a clamp are read off the front of a text. -/
theorem reads_unitBounds (h : Reads rest more) :
    Reads (", 0.0f, 1.0f)".toList ++ rest)
      (.symbol .comma :: .float 0 :: .symbol .comma :: .float 1 :: .symbol .rightParen
        :: more) := by
  have hclose := reads_fixed ")" [.symbol .rightParen] (by decide) h
  have hone := reads_literal (show Single.isFinite 1 = true by decide) hclose
  have hcomma := reads_fixed ", " [.symbol .comma] (by decide) hone
  have hzero := reads_literal (show Single.isFinite 0 = true by decide) hcomma
  have hbounds := reads_fixed ", " [.symbol .comma] (by decide) hzero
  rw [unitBounds_text]
  rw [String.toList_append, String.toList_append, String.toList_append, String.toList_append]
  rw [List.append_assoc, List.append_assoc, List.append_assoc, List.append_assoc]
  exact hbounds

/-- A constant is read off the front of a text, as a word if it is not finite. -/
theorem reads_constant (v : Float32) (h : Reads rest more) (hrest : isApart rest = true) :
    Reads ((literalText v).toList ++ rest) (Token.printed (.float v) ++ more) := by
  rw [Token.printed]
  by_cases hfinite : Single.isFinite v = true
  · rw [if_pos hfinite]
    exact reads_literal hfinite h
  rw [if_neg hfinite]
  simp only [Single.isFinite, decide_eq_true_eq, Nat.not_lt] at hfinite
  have htext : literalText v =
      Single.layout.valueText BinaryFormat.binary32 (Single.isNegative v) (Single.pattern v)
        ++ "f" := rfl
  by_cases hinfinite : Single.isInfinite v = true
  · have hpattern : Single.pattern v = BinaryFormat.binary32.infinity := of_decide_eq_true hinfinite
    have hword : Reads ("inff".toList ++ rest) (.ident "inff" :: more) :=
      reads_name (by decide) h hrest
    rw [if_pos hinfinite, htext, hpattern]
    cases Single.isNegative v with
    | false => exact hword
    | true => exact .token rfl rfl hword
  · have hpattern : BinaryFormat.binary32.infinity < Single.pattern v := by
      have hne : Single.pattern v ≠ BinaryFormat.binary32.infinity :=
        fun heq => hinfinite (decide_eq_true heq)
      omega
    have hword : Reads ("NaNf".toList ++ rest) (.ident "NaNf" :: more) :=
      reads_name (by decide) h hrest
    rw [if_neg hinfinite, htext, DecimalLayout.valueText, if_pos hpattern]
    exact hword

/-- An expression is read off the front of a text. -/
theorem Expr.reads {e : Expr Place String} (he : e.isSpelled = true) (h : Reads rest more)
    (hrest : isApart rest = true) :
    Reads ((exprText e).toList ++ rest) (e.tokens.flatMap Token.printed ++ more) := by
  induction e generalizing rest more with
  | const v =>
    rw [Expr.tokens, List.flatMap_singleton]
    exact reads_constant v h hrest
  | counter =>
    have hi : Reads ("i".toList ++ rest) (.ident "i" :: more) := reads_name (by decide) h hrest
    exact reads_fixed "(float)" [.symbol .leftParen, .keyword .floatKw, .symbol .rightParen]
      (by decide) hi
  | load place =>
    rw [Expr.tokens, Place.printed_tokens]
    exact Place.reads he h hrest
  | ref name => exact reads_name he h hrest
  | param field =>
    have htext : exprText (.param field) = "params." ++ field.name := rfl
    have hfield := reads_name field.isName_name h hrest
    simp only [htext, String.toList_append, List.append_assoc]
    exact reads_fixed "params." [.ident "params", .symbol .dot] (by decide) hfield
  | spectrum index =>
    have htext : exprText (.spectrum index) = "audio->spectrum[" ++ index.text ++ "]" := rfl
    have hclose := reads_fixed "]" [.symbol .rightBracket] (by decide) h
    have hinside := Index.reads he hclose rfl
    rw [Token.flatMap_printed fun v hv => by cases index <;> simp [Expr.tokens, Index.tokens] at hv]
    simp only [htext, Expr.tokens, String.toList_append, List.append_assoc]
    exact reads_fixed "audio->spectrum[" _ (by decide) hinside
  | energy =>
    have hname : Reads ("energy".toList ++ rest) (.ident "energy" :: more) :=
      reads_name (by decide) h hrest
    exact reads_fixed "audio->" [.ident "audio", .symbol .arrow] (by decide) hname
  | binary op a b iha ihb =>
    have htext : exprText (.binary op a b) =
        grouped (a.precedence < op.precedence) (exprText a) ++ " " ++ op.symbol ++ " "
          ++ grouped (b.precedence ≤ op.precedence) (exprText b) := rfl
    simp only [Expr.isSpelled, Bool.and_eq_true] at he
    have hb := reads_grouped (b.precedence ≤ op.precedence) (ihb he.2) h hrest
    have ha := reads_grouped (a.precedence < op.precedence) (iha he.1) (op.reads hb) rfl
    simp only [htext, Expr.tokens, String.toList_append, List.append_assoc, List.cons_append,
      List.flatMap_append, List.flatMap_cons, printed_groupedTokens, Token.printed, List.nil_append]
    exact ha
  | clamp01 x ih =>
    have htext : exprText (.clamp01 x) = "clamp_val(" ++ exprText x ++ ", 0.0f, 1.0f)" := rfl
    have hinside := ih he (reads_unitBounds h) rfl
    have hbounds : [Token.symbol .comma, .float 0, .symbol .comma, .float 1,
        .symbol .rightParen].flatMap Token.printed =
        [.symbol .comma, .float 0, .symbol .comma, .float 1, .symbol .rightParen] := by
      decide
    rw [Expr.tokens, List.flatMap_append, List.flatMap_append, hbounds]
    simp only [htext, String.toList_append, List.append_assoc]
    exact reads_fixed "clamp_val(" _ (by decide) hinside
  | floor x ih =>
    have htext : exprText (.floor x) = "std::floor(" ++ exprText x ++ ")" := rfl
    have hclose := reads_fixed ")" [.symbol .rightParen] (by decide) h
    have hinside := ih he hclose rfl
    rw [Expr.tokens, List.flatMap_append, List.flatMap_append]
    simp only [htext, String.toList_append, List.append_assoc]
    exact reads_fixed "std::floor(" _ (by decide) hinside

/-- An instruction is read off the front of a text. -/
theorem Instr.reads {instr : Instr Place String} (hi : instr.isSpelled = true)
    (h : Reads rest more) :
    Reads ((instrText instr).toList ++ rest) (instr.tokens.flatMap Token.printed ++ more) := by
  have hend := reads_fixed ";" [.symbol .semicolon] (by decide) h
  cases instr with
  | bind name value =>
    have htext : instrText (.bind name value) =
        "const float " ++ name ++ " = " ++ exprText value ++ ";" := rfl
    simp only [Instr.isSpelled, Bool.and_eq_true] at hi
    have hvalue := Expr.reads hi.2 hend rfl
    have hassign := reads_fixed " = " [.symbol .assign] (by decide) hvalue
    have hname := reads_name hi.1 hassign rfl
    have htype := reads_fixed "const float " [.keyword .constKw, .keyword .floatKw]
      (by decide) hname
    rw [Instr.tokens, List.flatMap_append, List.flatMap_append]
    simp only [htext, String.toList_append, List.append_assoc]
    exact htype
  | store place value =>
    simp only [Instr.isSpelled, Bool.and_eq_true] at hi
    obtain ⟨target, index, channel⟩ := place
    cases target with
    | buffer symbol =>
      have htext : instrText (.store ⟨.buffer symbol, index, channel⟩ value) =
          Place.text ⟨.buffer symbol, index, channel⟩ ++ " = " ++ exprText value ++ ";" := rfl
      have hvalue := Expr.reads hi.2 hend rfl
      have hassign := reads_fixed " = " [.symbol .assign] (by decide) hvalue
      have hplace := Place.reads hi.1 hassign rfl
      rw [Instr.tokens, List.flatMap_append, Place.printed_tokens, List.flatMap_cons,
        List.flatMap_append]
      simp only [htext, String.toList_append, List.append_assoc]
      exact hplace
    | out =>
      have htext : instrText (.store ⟨.out, index, channel⟩ value) =
          Place.text ⟨.out, index, channel⟩ ++ " = (uint8_t)(" ++ exprText value ++ ");" := rfl
      have hclose := reads_fixed ");" [.symbol .rightParen, .symbol .semicolon]
        (by decide) h
      have hvalue := Expr.reads hi.2 hclose rfl
      have hcast := reads_fixed " = (uint8_t)(" [.symbol .assign, .symbol .leftParen,
        .ident "uint8_t", .symbol .rightParen, .symbol .leftParen] (by decide) hvalue
      have hplace := Place.reads hi.1 hcast rfl
      rw [Instr.tokens, List.flatMap_append, Place.printed_tokens, List.flatMap_cons,
        List.flatMap_append, List.flatMap_append]
      simp only [htext, String.toList_append, List.append_assoc]
      exact hplace

/-- A test is read off the front of a text. -/
theorem Test.reads (test : Test) (h : Reads rest more) (hrest : isApart rest = true) :
    Reads ((testText test).toList ++ rest) (test.tokens.flatMap Token.printed ++ more) := by
  cases test with
  | audioPresent =>
    have hword : Reads ("nullptr".toList ++ rest) (.keyword .nullptrKw :: more) :=
      reads_word (by decide) h hrest
    exact reads_fixed "audio != " [.ident "audio", .symbol .notEqual] (by decide) hword
  | energyAbove threshold =>
    have htext : testText (.energyAbove threshold) =
        "audio != nullptr && audio->energy > " ++ literalText threshold := rfl
    have hvalue := reads_constant threshold h hrest
    simp only [htext, String.toList_append, List.append_assoc, Test.tokens, List.flatMap_cons,
      List.flatMap_nil, List.append_nil]
    exact reads_fixed "audio != nullptr && audio->energy > " [.ident "audio", .symbol .notEqual,
      .keyword .nullptrKw, .symbol .bothAnd, .ident "audio", .symbol .arrow, .ident "energy",
      .symbol .greater] (by decide) hvalue

/-- A line is read like what stands on it. -/
theorem reads_line (depth : Nat) {s : String} (h : Reads (s.toList ++ '\n' :: rest) more) :
    Reads ((line depth s).toList ++ rest) more := by
  have hblanks : ∀ n, Reads (List.replicate n ' ' ++ (s.toList ++ '\n' :: rest)) more := by
    intro n
    induction n with
    | zero => exact h
    | succ n ih => exact reads_blank (by decide) ih
  simp only [line, String.toList_append, String.toList_ofList, List.append_assoc]
  exact hblanks (4 * depth)

/-- Texts one after another are read one after another. -/
theorem reads_join {α : Type} {items : List α} {text : α → String} {tokens : α → List Token}
    (hitems : ∀ a ∈ items, ∀ {cs : List Char} {ts : List Token}, Reads cs ts →
      Reads ((text a).toList ++ cs) (tokens a ++ ts)) (h : Reads rest more) :
    Reads ((String.join (items.map text)).toList ++ rest) (items.flatMap tokens ++ more) := by
  rw [String.toList_join]
  induction items with
  | nil => exact h
  | cons a items ih =>
    have hmore := ih fun b hb => hitems b (List.mem_cons_of_mem a hb)
    simp only [List.map_cons, List.flatMap_cons, List.append_assoc]
    exact hitems a List.mem_cons_self hmore

/-- A note is a comment on one line. -/
theorem reads_noteText (text : String) (h : Reads rest more) :
    Reads ((noteText text).toList ++ '\n' :: rest) more := by
  refine reads_comment ?_ ?_ h
  · simp only [noteText, String.toList_append]
    rfl
  · simp only [noteText, String.toList_append, String.toList_ofList, List.mem_append, List.mem_map,
      not_or]
    refine ⟨by decide, ?_⟩
    rintro ⟨c, -, hc⟩
    split at hc
    · cases hc
    · rename_i hne
      exact hne (.inl hc)

/-- The head of a loop is read off the front of a text. -/
theorem reads_loopHead {count : Nat} (hcount : count < Index.limit) (h : Reads rest more) :
    Reads (("for (int i = 0; i < " ++ natText count ++ "; ++i) \x7b").toList ++ '\n' :: rest)
      (loopHead count ++ more) := by
  have htext : "for (int i = 0; i < " = "for (int i = " ++ natText 0 ++ "; i < " := by
    decide
  have hline : Reads ('\n' :: rest) more := reads_blank (by decide) h
  have hclose := reads_fixed "; ++i) \x7b" [.symbol .semicolon, .symbol .increment, .ident "i",
    .symbol .rightParen, .symbol .leftBrace] (by decide) hline
  have hlimit := reads_count hcount hclose rfl
  have htest := reads_fixed "; i < " [.symbol .semicolon, .ident "i", .symbol .less]
    (by decide) hlimit
  have hzero := reads_count (show 0 < Index.limit by decide) htest rfl
  have hopen := reads_fixed "for (int i = " [.keyword .forKw, .symbol .leftParen, .keyword .intKw,
    .ident "i", .symbol .assign] (by decide) hzero
  rw [htext]
  simp only [String.toList_append, List.append_assoc]
  exact hopen

/-- The head of a branch is read off the front of a text. -/
theorem reads_branchHead (test : Test) (h : Reads rest more) :
    Reads (("if (" ++ testText test ++ ") \x7b").toList ++ '\n' :: rest)
      ([.keyword .ifKw, .symbol .leftParen] ++ (test.tokens.flatMap Token.printed
        ++ ([.symbol .rightParen, .symbol .leftBrace] ++ more))) := by
  have hline : Reads ('\n' :: rest) more := reads_blank (by decide) h
  have hclose := reads_fixed ") \x7b" [.symbol .rightParen, .symbol .leftBrace] (by decide)
    hline
  have hinside := test.reads hclose rfl
  simp only [String.toList_append, List.append_assoc]
  exact reads_fixed "if (" _ (by decide) hinside

/-- A line with a closing brace is read off the front of a text. -/
theorem reads_closingLine (depth : Nat) (h : Reads rest more) :
    Reads ((line depth "\x7d").toList ++ rest) (.symbol .rightBrace :: more) := by
  have hline : Reads ('\n' :: rest) more := reads_blank (by decide) h
  exact reads_line depth
    (reads_fixed "\x7d" [.symbol .rightBrace] (by decide) hline)

/-- A sequence of statements is read off the front of a text. -/
theorem Block.reads {body : Body} (hbody : body.isSpelled = true) (depth : Nat)
    (h : Reads rest more) :
    Reads ((bodyText depth body).toList ++ rest) (body.tokens.flatMap Token.printed ++ more) := by
  induction body generalizing depth rest more with
  | done => exact h
  | note text next ih =>
    have htext : bodyText depth (.note text next) =
        line depth (noteText text) ++ bodyText depth next := rfl
    rw [htext, String.toList_append, List.append_assoc]
    exact reads_line depth (reads_noteText text (ih hbody depth h))
  | loop count instrs next ih =>
    have htext : bodyText depth (.loop count instrs next) =
        line depth ("for (int i = 0; i < " ++ natText count ++ "; ++i) \x7b")
          ++ String.join (instrs.map fun instr => line (depth + 1) (instrText instr))
          ++ line depth "\x7d" ++ bodyText depth next := rfl
    simp only [Block.isSpelled, Bool.and_eq_true, decide_eq_true_eq] at hbody
    obtain ⟨⟨hcount, hinstrs⟩, hnext⟩ := hbody
    have hafter := reads_closingLine depth (ih hnext depth h)
    have hinside := reads_join (fun instr hmem {cs ts} (hcs : Reads cs ts) =>
      reads_line (depth + 1) (Instr.reads (List.all_eq_true.1 hinstrs instr hmem)
        (reads_blank (by decide) hcs))) hafter
    have hhead := reads_line depth (reads_loopHead hcount hinside)
    have htokens : (Block.loop count instrs next).tokens.flatMap Token.printed =
        loopHead count ++ (instrs.flatMap (fun i => i.tokens.flatMap Token.printed)
          ++ .symbol .rightBrace :: next.tokens.flatMap Token.printed) := by
      rw [Block.tokens, List.flatMap_append, List.flatMap_append, List.flatMap_assoc]
      rfl
    rw [htext, htokens]
    rw [String.toList_append, String.toList_append, String.toList_append]
    rw [List.append_assoc, List.append_assoc, List.append_assoc, List.append_assoc,
      List.append_assoc]
    exact hhead
  | branch test yes no next ihyes ihno ih =>
    have htext : bodyText depth (.branch test yes no next) =
        line depth ("if (" ++ testText test ++ ") \x7b") ++ bodyText (depth + 1) yes
          ++ line depth "\x7d else \x7b" ++ bodyText (depth + 1) no
          ++ line depth "\x7d" ++ bodyText depth next := rfl
    simp only [Block.isSpelled, Bool.and_eq_true] at hbody
    obtain ⟨⟨hyes, hno⟩, hnext⟩ := hbody
    have hafter := reads_closingLine depth (ih hnext depth h)
    have hno := reads_blank (c := '\n') (by decide) (ihno hno (depth + 1) hafter)
    have helse := reads_line depth (reads_fixed "\x7d else \x7b" [.symbol .rightBrace,
      .keyword .elseKw, .symbol .leftBrace] (by decide) hno)
    have hhead := reads_line depth (reads_branchHead test (ihyes hyes (depth + 1) helse))
    rw [htext, Block.tokens]
    simp only [String.toList_append, List.append_assoc, List.flatMap_append]
    exact hhead

/-- The length of a buffer is read off the front of a text, with its zeros. -/
theorem reads_length {len : Nat} (hlen : len < Index.limit) (h : Reads rest more) :
    Reads ("[".toList ++ ((natText len).toList ++ ("] = \x7b\x7d;".toList ++ '\n' :: rest)))
      (lengthTokens len ++ more) := by
  have hline : Reads ('\n' :: rest) more := reads_blank (by decide) h
  have hclose := reads_fixed "] = \x7b\x7d;" [.symbol .rightBracket, .symbol .assign,
    .symbol .leftBrace, .symbol .rightBrace, .symbol .semicolon] (by decide) hline
  have hcount := reads_count hlen hclose rfl
  exact reads_fixed "[" [.symbol .leftBracket] (by decide) hcount

/-- The declaration of a slot is read off the front of a text. -/
theorem Slot.reads {s : Slot} (hs : isName s.symbol = true ∧ s.len < Index.limit)
    (h : Reads rest more) : Reads ((slotText s).toList ++ rest) (s.tokens ++ more) := by
  have hname := reads_name hs.1 (reads_length hs.2 h) rfl
  have htype := reads_fixed "static float " [.keyword .staticKw, .keyword .floatKw]
    (by decide) hname
  refine reads_line 0 ?_
  simp only [String.toList_append, List.append_assoc]
  exact htype

/-- The type of an element is read off the front of a text. -/
theorem Elem.reads (elem : Elem) (h : Reads rest more) :
    Reads ((elemText elem).toList ++ (" ".toList ++ rest)) (elem.token :: more) := by
  cases elem with
  | float => exact reads_fixed "float " [.keyword .floatKw] (by decide) h
  | rgb => exact reads_fixed "CRGBF " [.ident "CRGBF"] (by decide) h

/-- The declaration of a temporary is read off the front of a text. -/
theorem Temp.reads {t : Temp} (ht : isName t.symbol = true ∧ t.len < Index.limit)
    (h : Reads rest more) : Reads ((tempText t).toList ++ rest) (t.tokens ++ more) := by
  have hname := reads_name ht.1 (reads_length ht.2 h) rfl
  refine reads_line 1 ?_
  simp only [String.toList_append, List.append_assoc]
  exact t.elem.reads hname

/-- Declarations are read one after another, with the empty line after them. -/
theorem reads_paragraph {α : Type} {items : List α} {text : α → String} {tokens : α → List Token}
    (hitems : ∀ a ∈ items, ∀ {cs : List Char} {ts : List Token}, Reads cs ts →
      Reads ((text a).toList ++ cs) (tokens a ++ ts)) (h : Reads rest more) :
    Reads ((paragraph (items.map text)).toList ++ rest) (items.flatMap tokens ++ more) := by
  unfold paragraph
  split
  · rename_i hempty
    have hitems : items = [] := by simpa using hempty
    rw [hitems]
    exact h
  · rw [String.toList_append, List.append_assoc]
    exact reads_join hitems (reads_line 0 (reads_blank (by decide) h))

/-- The head of the function is read off the front of a text, whatever word its name is. -/
theorem reads_head (profile : Profile) {function : String} (hword : isWord function = true)
    (h : Reads rest more) : Reads ((signature profile function).toList ++ rest)
      (headTokens profile (wordToken function) ++ more) := by
  have hline : Reads ('\n' :: rest) more := reads_blank (by decide) h
  have hparameters := reads_fixed
    "(float time, const AudioSnapshot* audio, const PatternParameters& params, CRGB8* out) \x7b"
    (Parser.parameterTokens ++ [.symbol .leftBrace]) (by decide) hline
  have hfunction := reads_word hword hparameters rfl
  have hletter : ∀ c ∈ "C".toList, c ≠ '"' ∧ c ≠ '\n' := by
    intro c hc
    obtain rfl : c = 'C' := List.mem_singleton.1 hc
    decide
  refine reads_line 0 ?_
  simp only [String.toList_append, List.append_assoc]
  cases profile with
  | firmware =>
    have hvoid := reads_fixed " void IRAM_ATTR " [.keyword .voidKw, .ident "IRAM_ATTR"]
      (by decide) hfunction
    have hquote := reads_quote hletter hvoid
    exact reads_fixed "extern " [.keyword .externKw] (by decide) hquote
  | host =>
    have hvoid := reads_fixed " void " [.keyword .voidKw] (by decide) hfunction
    have hquote := reads_quote hletter hvoid
    exact reads_fixed "extern " [.keyword .externKw] (by decide) hquote

/-- A digest is written on one line. -/
theorem newline_not_mem_hex (digest : List UInt8) : '\n' ∉ (Provenance.hex digest).toList := by
  have hbyte : ∀ n < 256, '\n' ∉ Text.paddedHex 2 n := by decide +kernel
  simp only [Provenance.hex, String.toList_ofList, List.mem_flatMap]
  rintro ⟨b, -, hb⟩
  exact hbyte b.toNat b.toNat_lt hb

/-- The version of the compiler is written on one line. -/
theorem Provenance.newline_not_mem_version (source : String) :
    '\n' ∉ (Provenance.ofSource source).version.toList := by
  show '\n' ∉ compilerVersion.toList
  decide

/-- A line that is a comment as a whole is skipped. -/
theorem reads_commentLine {s : String} (hstarts : startsComment s.toList = true)
    (hline : '\n' ∉ s.toList) (h : Reads rest more) : Reads ((line 0 s).toList ++ rest) more :=
  reads_line 0 (reads_comment hstarts hline h)

/-- The comments and includes of an artifact are skipped. -/
theorem reads_preamble {provenance : Provenance} (hversion : '\n' ∉ provenance.version.toList)
    (profile : Profile) (h : Reads rest more) :
    Reads ((preamble provenance profile).toList ++ rest) more := by
  have hempty : ∀ {cs : List Char} {ts : List Token}, Reads cs ts →
      Reads ((line 0 "").toList ++ cs) ts := fun hcs => reads_line 0 (reads_blank (by decide) hcs)
  -- From the last line of the preamble to the first.
  have hruntime := reads_commentLine (s := "#include \"pgc_runtime.h\"") rfl (by decide) (hempty h)
  have hheader : Reads ((line 0 (match profile with
      | .firmware => "#include \"esp_attr.h\""
      | .host => "#include <cmath>")).toList
        ++ ((line 0 "#include \"pgc_runtime.h\"").toList
        ++ ((line 0 "").toList ++ rest))) more := by
    cases profile with
    | firmware => exact reads_commentLine rfl (by decide) hruntime
    | host => exact reads_commentLine rfl (by decide) hruntime
  have hbuild := reads_commentLine
    (s := "// Float expressions are evaluation-ordered; build with -ffp-contract=off.") rfl
    (by decide) (hempty hheader)
  have hprofile := reads_commentLine (s := "// profile: " ++ profile.name)
    (by cases profile <;> rfl) (by cases profile <;> decide) hbuild
  have hdigest := reads_commentLine
    (s := "// graph-sha256: " ++ Provenance.hex provenance.sourceDigest)
    (by rw [String.toList_append]; rfl)
    (by
      rw [String.toList_append, List.mem_append, not_or]
      exact ⟨by decide, newline_not_mem_hex _⟩) hprofile
  have hgenerator := reads_commentLine
    (s := "// Generated by pgc " ++ provenance.version ++ ". Do not edit.")
    (by rw [String.toList_append, String.toList_append]; rfl)
    (by
      rw [String.toList_append, String.toList_append, List.mem_append, List.mem_append, not_or,
        not_or]
      exact ⟨⟨by decide, hversion⟩, by decide⟩) hdigest
  unfold preamble
  simp only [String.toList_append, List.append_assoc] at hgenerator ⊢
  exact hgenerator

/-- The text of an artifact consists of what the program's tokens are read as, also if the function
gets another word for its name. -/
theorem Program.reads_named {p : Program} (hp : p.Spelled) {provenance : Provenance}
    (hversion : '\n' ∉ provenance.version.toList) (profile : Profile) {function : String}
    (hword : isWord function = true) :
    Reads ({ p with function }.print provenance ⟨profile, none⟩).text.toList
      (p.slots.flatMap Slot.tokens ++ (headTokens profile (wordToken function)
        ++ (p.temps.flatMap Temp.tokens
        ++ (p.body.tokens.flatMap Token.printed ++ [.symbol .rightBrace])))) := by
  have hclose := reads_closingLine 0 .nil
  have hbody := Block.reads hp.body 1 hclose
  have htemps := reads_paragraph (fun t ht {cs ts} (hcs : Reads cs ts) =>
    Temp.reads (hp.temps t ht) hcs) hbody
  have hhead := reads_head profile hword htemps
  have hslots := reads_paragraph (fun s hs {cs ts} (hcs : Reads cs ts) =>
    Slot.reads (hp.slots s hs) hcs) hhead
  have hpreamble := reads_preamble hversion profile hslots
  simp only [Program.print, String.toList_append, List.append_assoc]
  rw [← List.append_nil (line 0 "\x7d").toList]
  exact hpreamble

/-- The text of an artifact consists of what the program's tokens are read as. -/
theorem Program.reads_printed {p : Program} (hp : p.Spelled) {provenance : Provenance}
    (hversion : '\n' ∉ provenance.version.toList) (profile : Profile) :
    Reads (p.print provenance ⟨profile, none⟩).text.toList
      ((p.tokens profile).flatMap Token.printed) := by
  obtain ⟨hword, htoken⟩ := word_of_isName hp.function
  rw [Program.printed_tokens, ← headTokens_ident, ← htoken]
  exact reads_named hp hversion profile hword

/-- The text of an artifact that is read again consists of the program's tokens. -/
theorem Program.reads_print {p : Program} (hp : p.Printable) {provenance : Provenance}
    (hversion : '\n' ∉ provenance.version.toList) (profile : Profile) :
    Reads (p.print provenance ⟨profile, none⟩).text.toList (p.tokens profile) := by
  have hbody : p.body.tokens.flatMap Token.printed = p.body.tokens :=
    Token.flatMap_printed fun _ hv => Block.isFinite_of_mem_tokens hp.body hv
  have hreads := reads_printed (printable_iff.1 hp).1 hversion profile
  rw [printed_tokens, hbody] at hreads
  exact hreads

end

end LedPattern
