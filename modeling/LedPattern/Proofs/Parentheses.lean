import LedPattern.Proofs.Recognition
import LedPattern.Proofs.RoundTrip

/-!
# How many parentheses an expression needs

An expression can be written in many ways, since any part of it may stand in parentheses. The
printed form is one with the fewest (`printed_parentheses_fewest`).

The grammar asks for a pair of parentheses exactly around what holds together no more strongly than
the signs that may follow at its level. So whatever derivation an expression has at some level, its
tokens have at least the parentheses of the printed form at that level (`ExprTree.parentheses_le`).
This is an induction on derivations. A pair in the text pays for the one that may be printed, a
chain of one operand moves to a level where fewer are printed, and a chain of two has operands at
just the levels for which they are printed.
-/

namespace LedPattern

open LedPattern.Parser

/-- Whether a token is a parenthesis. -/
def Token.isParenthesis (t : Token) : Bool := t = .symbol .leftParen || t = .symbol .rightParen

/-- The number of parentheses among some tokens. -/
def parentheses (ts : List Token) : Nat := ts.countP Token.isParenthesis

@[simp]
theorem parentheses_nil : parentheses [] = 0 := rfl

@[simp]
theorem parentheses_append (ts us : List Token) :
    parentheses (ts ++ us) = parentheses ts + parentheses us :=
  List.countP_append

@[simp]
theorem parentheses_cons (t : Token) (ts : List Token) :
    parentheses (t :: ts) = parentheses ts + if t.isParenthesis then 1 else 0 :=
  List.countP_cons

/-- Grouping adds a pair of parentheses. -/
@[simp]
theorem parentheses_grouped (needed : Bool) (ts : List Token) :
    parentheses (groupedTokens needed ts) = parentheses ts + if needed then 2 else 0 := by
  cases needed with
  | false => rfl
  | true => simp [groupedTokens, Token.isParenthesis]

/-- The sign of an operator is no parenthesis. -/
@[simp]
theorem BinOp.isParenthesis_sign (op : BinOp) : (Token.symbol op.sign).isParenthesis = false := by
  cases op <;> rfl

/-- The place that a derivation stands for has the tokens of the derivation. -/
theorem PlaceTree.tokens_value (p : PlaceTree) : p.value.tokens = p.tokens := by
  have hname : (targetOf p.name).name = p.name := by
    unfold targetOf
    split
    · next hout => exact hout.symm
    · rfl
  rw [Place.tokens, value, hname]
  rfl

namespace ExprTree

/-- A derivation of an expression has at least the parentheses of its printed form at that level. -/
theorem parentheses_le {l : Level} (d : ExprTree l) :
    parentheses (groupedTokens (d.value.precedence ≤ l.strength) d.value.tokens) ≤
      parentheses d.tokens := by
  induction d with
  | paren inside ih =>
    -- The pair is needed if the expression is weak, and wasted otherwise.
    rw [Expr.grouped_sum] at ih
    simp only [value, tokens, parentheses_grouped, parentheses_cons, parentheses_append,
      Token.isParenthesis]
    split <;> simp <;> omega
  | clamp inside low high hlow hhigh ih =>
    rw [Expr.grouped_sum] at ih
    simp only [value, Expr.tokens, tokens, parentheses_append, parentheses_cons]
    simpa [groupedTokens, Expr.precedence, Level.strength, Token.isParenthesis] using ih
  | floor inside ih =>
    rw [Expr.grouped_sum] at ih
    simpa [value, Expr.tokens, tokens, Expr.precedence, Level.strength, Token.isParenthesis]
      using ih
  | load place =>
    simp [value, Expr.tokens, tokens, place.tokens_value, Expr.precedence, Level.strength]
  | @single t only ih =>
    -- Stronger signs may follow an operand, so what is grouped as a chain is grouped as an operand.
    rw [t.strength_operand] at ih
    refine Nat.le_trans ?_ ih
    rw [parentheses_grouped, parentheses_grouped]
    by_cases h : only.value.precedence ≤ (Level.chain t).strength
    · simp [value, h, Nat.le_succ_of_le h]
    · simp [value, h]
  | @join t op hop lhs rhs ihl ihr =>
    have hstrong : op.precedence = (Level.chain t).strength + 1 := hop ▸ op.precedence_eq
    have hfree : ¬(value (.join op hop lhs rhs)).precedence ≤ (Level.chain t).strength := by
      simp only [value, Expr.precedence]
      omega
    -- The two sides are printed for the levels that they have.
    have hprinted : (value (.join op hop lhs rhs)).tokens =
        groupedTokens (lhs.value.precedence ≤ (Level.chain t).strength) lhs.value.tokens
          ++ .symbol op.sign ::
            groupedTokens (rhs.value.precedence ≤ t.operand.strength) rhs.value.tokens := by
      simp only [value, Expr.tokens, hstrong, t.strength_operand, Nat.lt_succ_iff]
    rw [parentheses_grouped, hprinted]
    simp only [hfree, decide_false, Bool.false_eq_true, if_false, tokens, parentheses_append,
      parentheses_cons, BinOp.isParenthesis_sign]
    omega
  | _ => simp [value, Expr.tokens, tokens, Expr.precedence, Level.strength]

end ExprTree

/-- The text of an expression consists of its tokens. -/
theorem Expr.lex_text {e : SourceExpr} (he : e.isPrintable = true) :
    Lexer.tokens (Lexer.lex (Artifact.exprText e).toList) = e.tokens ∧
      ∀ l ∈ Lexer.lex (Artifact.exprText e).toList, l.complaint? = none := by
  have hreads := Expr.reads (Expr.isPrintable_iff.1 he).1 .nil rfl
  rw [List.append_nil, List.append_nil,
    Token.flatMap_printed fun v hv => Expr.isFinite_of_mem_tokens he hv] at hreads
  exact Lexer.reads_lex hreads

/-- An expression is printed with the fewest parentheses. Its text consists of tokens, which are
read as the expression before every sign that ends one. Whatever other tokens are read as the same
expression, in front of whatever follows them, have no fewer parentheses. -/
theorem printed_parentheses_fewest {e : SourceExpr} (he : e.isPrintable = true) :
    ∃ printed, Lexer.tokens (Lexer.lex (Artifact.exprText e).toList) = printed ∧
      (∀ l ∈ Lexer.lex (Artifact.exprText e).toList, l.complaint? = none) ∧
      (∀ rest, Follows 0 rest → Parser.expr (printed ++ rest) = some (e, rest)) ∧
      ∀ ts rest, Parser.expr (ts ++ rest) = some (e, rest) →
        parentheses printed ≤ parentheses ts := by
  obtain ⟨htokens, hcomplaints⟩ := Expr.lex_text he
  refine ⟨e.tokens, htokens, hcomplaints, ?_, ?_⟩
  · obtain ⟨d, hd, hvalue⟩ := Expr.exists_sumTree he
    intro rest hrest
    rw [← hd, ← hvalue]
    exact expr_tree d hrest
  · intro ts rest hts
    obtain ⟨d, hd, rfl⟩ := expr_takesOnly hts
    rw [List.append_cancel_right hd, ← Expr.grouped_sum]
    exact d.parentheses_le

/-- The product of a difference of differences and a quotient of quotients. -/
def nestedExpr : SourceExpr :=
  .binary .mul
    (.binary .sub (.ref "a") (.binary .sub (.ref "b") (.const (-1))))
    (.binary .div (.ref "c") (.binary .div .counter (.clamp01 (.ref "d"))))

/-- The product `nestedExpr` with more parentheses than it needs. -/
def nestedTokens : List Token := List.flatten
  [[.symbol .leftParen, .symbol .leftParen, .ident "a", .symbol .rightParen, .symbol .minus],
    [.symbol .leftParen, .ident "b", .symbol .minus, .float (-1), .symbol .rightParen],
    [.symbol .rightParen, .symbol .star, .symbol .leftParen, .symbol .leftParen, .ident "c"],
    [.symbol .rightParen, .symbol .slash, .symbol .leftParen],
    [.symbol .leftParen, .keyword .floatKw, .symbol .rightParen, .ident "i"],
    [.symbol .slash, .ident "clamp_val", .symbol .leftParen],
    [.ident "d", .symbol .comma, .float 0, .symbol .comma, .float 1, .symbol .rightParen],
    [.symbol .rightParen, .symbol .rightParen]]

/-- The printed form of `nestedExpr` has twelve parentheses, of which four belong to the counter and
the clamp. -/
theorem nestedExpr_fewest : nestedExpr.isPrintable = true ∧
    Parser.expr nestedTokens = some (nestedExpr, []) ∧
    parentheses (Lexer.tokens (Lexer.lex (Artifact.exprText nestedExpr).toList)) = 12 ∧
    parentheses (Lexer.tokens (Lexer.lex (Artifact.exprText nestedExpr).toList)) ≤
      parentheses nestedTokens := by
  have hprintable : nestedExpr.isPrintable = true := by decide
  have hread : Parser.expr nestedTokens = some (nestedExpr, []) := by rfl
  refine ⟨hprintable, hread, ?_, ?_⟩
  · rw [(Expr.lex_text hprintable).1]
    rfl
  · obtain ⟨printed, rfl, -, -, hfewest⟩ := printed_parentheses_fewest hprintable
    exact hfewest nestedTokens [] hread

end LedPattern
