import LedPattern.Proofs.Reading

/-!
# The parser follows its grammar

What the parser takes off is derived. For each rule there is a derivation whose tokens are those
taken off and which stands for what the rule returns (`Parser.TakesOnly`). The rules are followed
from the names up to whole artifacts (`Parser.exists_tree_of_parts`).

With the other direction (`Program.ofTokens_tree`), tokens are read as a program exactly if they
have a derivation that stands for it (`Program.ofTokens_eq_ok_iff`). The derivation is unique, so
the parser accepts its grammar and nothing else (`parses_exactly_derivable`).
-/

namespace LedPattern

open LedPattern.Parser

/-- A color that is found has the name. -/
theorem Channel.name_of_ofName? {s : String} {c : Channel} (h : ofName? s = some c) :
    c.name = s := by
  unfold ofName? at h
  simpa using List.find?_some h

/-- A parameter that is found has the name. -/
theorem ParamField.name_of_ofName? {s : String} {field : ParamField}
    (h : ofName? s = some field) : field.name = s := by
  unfold ofName? at h
  simpa using List.find?_some h

namespace Parser

/-- What a rule takes off is derived: its tokens are those of a derivation, and it comes to what the
derivation stands for. -/
def TakesOnly {α β : Type} (rule : Rule β) (tokens : α → List Token) (value : α → β) : Prop :=
  ∀ {ts : List Token} {b : β} {rest : List Token}, rule ts = some (b, rest) →
    ∃ a, ts = tokens a ++ rest ∧ value a = b

/-- What a rule takes off is an expression of some level. -/
def TakesExpr (rule : Rule SourceExpr) (l : Level) : Prop :=
  TakesOnly rule ExprTree.tokens (ExprTree.value (l := l))

/-- A symbol that is expected stands at the front. -/
theorem eq_cons_of_expectSymbol {sign : Symbol} {ts rest : List Token}
    (h : expectSymbol sign ts = some rest) : ts = .symbol sign :: rest :=
  eq_append_of_expect h

/-- One of two alternatives fits. -/
theorem eq_some_of_orElse {α : Type} {x y : Option α} {a : α} (h : (x <|> y) = some a) :
    x = some a ∨ y = some a := by
  cases x with
  | none => exact .inr h
  | some b => exact .inl h

/-- What was mapped is what was read. -/
theorem eq_some_of_map {α β : Type} {x : Option (Parsed α)} {f : α → β} {b : β} {rest : List Token}
    (h : (x.map fun (a, ts) => (f a, ts)) = some (b, rest)) :
    ∃ a, x = some (a, rest) ∧ f a = b := by
  obtain ⟨⟨a, ts⟩, hx, hmap⟩ := Option.map_eq_some_iff.1 h
  cases hmap
  exact ⟨a, hx, rfl⟩

/-! ## Expressions -/

/-- What is read between brackets is an index. -/
theorem eq_append_of_indexInside {ts rest : List Token} {ix : Index}
    (h : indexInside ts = some (ix, rest)) : ts = ix.tokens ++ rest := by
  unfold indexInside at h
  split at h
  · split at h
    · next hname =>
      cases h
      rw [hname]
      rfl
    · cases h
  · split at h
    · next hname =>
      cases h
      rw [hname]
      rfl
    · cases h
  · split at h
    · next hname =>
      cases h
      rw [hname]
      rfl
    · cases h
  · cases h

/-- What is read as an index is one in brackets. -/
theorem index_takesOnly : TakesOnly index
    (fun ix => .symbol .leftBracket :: (ix.tokens ++ [.symbol .rightBracket])) id := by
  intro ts ix rest h
  unfold index at h
  simp only [Option.bind_eq_bind, Option.bind_eq_some_iff, Prod.exists, Option.some.injEq,
    Prod.mk.injEq] at h
  obtain ⟨us, hopen, ix, vs, hinside, ws, hclose, rfl, rfl⟩ := h
  obtain rfl := eq_cons_of_expectSymbol hopen
  obtain rfl := eq_cons_of_expectSymbol hclose
  obtain rfl := eq_append_of_indexInside hinside
  exact ⟨ix, by simp only [List.cons_append, List.append_assoc, List.nil_append], rfl⟩

/-- What is read as a color is one, or nothing is read. -/
theorem eq_append_channel (ts : List Token) :
    ts = Channel.tokens (channel ts).1 ++ (channel ts).2 := by
  unfold channel
  split
  · next name rest =>
    cases hname : Channel.ofName? name with
    | none => rfl
    | some c =>
      have hc := Channel.name_of_ofName? hname
      simp only [Channel.tokens, hc, List.cons_append, List.nil_append]
  · rfl

/-- What is read as an identifier is one. -/
theorem identifier_takesOnly : TakesOnly identifier (fun name => [.ident name]) id := by
  intro ts name rest h
  unfold identifier at h
  split at h
  · cases h
    exact ⟨name, rfl, rfl⟩
  · cases h

/-- What is read as a constant is one. -/
theorem constant_takesOnly : TakesOnly constant (fun v => [.float v]) id := by
  intro ts v rest h
  unfold constant at h
  split at h
  · cases h
    exact ⟨v, rfl, rfl⟩
  · cases h

/-- What is read as a place is one. -/
theorem place_takesOnly : TakesOnly place PlaceTree.tokens PlaceTree.value := by
  intro ts p rest h
  unfold place at h
  simp only [Option.bind_eq_bind, Option.bind_eq_some_iff, Prod.exists, Option.some.injEq,
    Prod.mk.injEq] at h
  obtain ⟨name, us, hname, ix, vs, hindex, rfl, rfl⟩ := h
  obtain ⟨name, rfl, rfl⟩ := identifier_takesOnly hname
  obtain ⟨ix, rfl, rfl⟩ := index_takesOnly hindex
  refine ⟨⟨name, ix, (channel vs).1⟩, ?_, rfl⟩
  have hvs := eq_append_channel vs
  simp only [PlaceTree.tokens, List.cons_append, List.append_assoc, List.nil_append, ← hvs]

/-- What is read between parentheses stands between them. -/
theorem eq_of_parenthesized {α : Type} {inside : Rule α} {ts rest : List Token} {a : α}
    (h : parenthesized inside ts = some (a, rest)) :
    ∃ us, ts = .symbol .leftParen :: us ∧ inside us = some (a, .symbol .rightParen :: rest) := by
  unfold parenthesized at h
  simp only [Option.bind_eq_bind, Option.bind_eq_some_iff, Prod.exists, Option.some.injEq,
    Prod.mk.injEq] at h
  obtain ⟨us, hopen, a, vs, hinside, ws, hclose, rfl, rfl⟩ := h
  obtain rfl := eq_cons_of_expectSymbol hclose
  exact ⟨us, eq_cons_of_expectSymbol hopen, hinside⟩

/-- What is read as a bound of a clamp is a comma and that bound. -/
theorem eq_of_unitBound {bound : Float32} {ts rest : List Token}
    (h : unitBound bound ts = some rest) :
    ∃ v, (v == bound) = true ∧ ts = .symbol .comma :: .float v :: rest := by
  unfold unitBound at h
  simp only [Option.bind_eq_bind, Option.bind_eq_some_iff, Prod.exists] at h
  obtain ⟨us, hcomma, v, vs, hconstant, h⟩ := h
  obtain rfl := eq_cons_of_expectSymbol hcomma
  obtain ⟨v, rfl, rfl⟩ := constant_takesOnly hconstant
  split at h
  · next hv =>
    cases h
    exact ⟨v, hv, rfl⟩
  · cases h

section

variable {inner : Rule SourceExpr}

/-- What is read between parentheses is an expression between them. -/
theorem parenthesized_takesOnly (hinner : TakesExpr inner (.chain .sum)) :
    TakesExpr (parenthesized inner) .operand := by
  intro ts e rest h
  obtain ⟨us, rfl, hinside⟩ := eq_of_parenthesized h
  obtain ⟨x, rfl, rfl⟩ := hinner hinside
  refine ⟨.paren x, ?_, rfl⟩
  simp only [ExprTree.tokens, List.cons_append, List.append_assoc, List.nil_append]

/-- What is read as a clamp is one. -/
theorem clamp_takesOnly (hinner : TakesExpr inner (.chain .sum)) :
    TakesExpr (clamp inner) .operand := by
  intro ts e rest h
  unfold clamp at h
  simp only [Option.bind_eq_bind, Option.bind_eq_some_iff, Prod.exists, Option.some.injEq,
    Prod.mk.injEq] at h
  obtain ⟨us, hname, e, vs, hparen, rfl, rfl⟩ := h
  obtain rfl := eq_append_of_expect hname
  obtain ⟨ws, rfl, hbounded⟩ := eq_of_parenthesized hparen
  simp only [Option.bind_eq_some_iff, Prod.exists, Option.some.injEq, Prod.mk.injEq] at hbounded
  obtain ⟨e, xs, he, ys, hlow, zs, hhigh, rfl, rfl⟩ := hbounded
  obtain ⟨x, rfl, rfl⟩ := hinner he
  obtain ⟨low, hzero, rfl⟩ := eq_of_unitBound hlow
  obtain ⟨high, hone, rfl⟩ := eq_of_unitBound hhigh
  refine ⟨.clamp x low high hzero hone, ?_, rfl⟩
  simp only [ExprTree.tokens, List.cons_append, List.append_assoc, List.nil_append]

/-- What is read as rounded down is so. -/
theorem floorOf_takesOnly (hinner : TakesExpr inner (.chain .sum)) :
    TakesExpr (floorOf inner) .operand := by
  intro ts e rest h
  unfold floorOf at h
  simp only [Option.bind_eq_bind, Option.bind_eq_some_iff, Prod.exists, Option.some.injEq,
    Prod.mk.injEq] at h
  obtain ⟨us, hname, e, vs, hparen, rfl, rfl⟩ := h
  obtain rfl := eq_append_of_expect hname
  obtain ⟨ws, rfl, hinside⟩ := eq_of_parenthesized hparen
  obtain ⟨x, rfl, rfl⟩ := hinner hinside
  refine ⟨.floor x, ?_, rfl⟩
  simp only [ExprTree.tokens, List.cons_append, List.append_assoc, List.nil_append]

/-- What is read as a parameter is one. -/
theorem parameter_takesOnly : TakesExpr parameter .operand := by
  intro ts e rest h
  unfold parameter at h
  simp only [Option.bind_eq_bind, Option.bind_eq_some_iff, Prod.exists, Option.some.injEq,
    Prod.mk.injEq] at h
  obtain ⟨us, hpath, name, vs, hname, field, hfield, rfl, rfl⟩ := h
  obtain rfl := eq_append_of_expect hpath
  obtain ⟨name, rfl, rfl⟩ := identifier_takesOnly hname
  have hspelled := ParamField.name_of_ofName? hfield
  refine ⟨.param field, ?_, rfl⟩
  simp only [ExprTree.tokens, hspelled, List.cons_append, List.nil_append, id]

/-- What is read as a bin of the spectrum is one. -/
theorem spectrum_takesOnly : TakesExpr spectrum .operand := by
  intro ts e rest h
  unfold spectrum at h
  simp only [Option.bind_eq_bind, Option.bind_eq_some_iff, Prod.exists, Option.some.injEq,
    Prod.mk.injEq] at h
  obtain ⟨us, hpath, ix, vs, hindex, rfl, rfl⟩ := h
  obtain rfl := eq_append_of_expect hpath
  obtain ⟨ix, rfl, rfl⟩ := index_takesOnly hindex
  exact ⟨.spectrum ix, rfl, rfl⟩

/-- What is read as an operand is one, if what is inside it is an expression. -/
theorem atom_takesOnly (hinner : TakesExpr inner (.chain .sum)) :
    TakesExpr (atom inner) .operand := by
  intro ts e rest h
  unfold atom at h
  -- The alternatives in the order in which they are tried.
  rcases eq_some_of_orElse h with h | h
  · obtain ⟨v, hconstant, rfl⟩ := eq_some_of_map h
    obtain ⟨v, rfl, rfl⟩ := constant_takesOnly hconstant
    exact ⟨.const v, rfl, rfl⟩
  rcases eq_some_of_orElse h with h | h
  · obtain ⟨us, hcounter, h⟩ := Option.bind_eq_some_iff.1 h
    cases h
    exact ⟨.counter, eq_append_of_expect hcounter, rfl⟩
  rcases eq_some_of_orElse h with h | h
  · exact parenthesized_takesOnly hinner h
  rcases eq_some_of_orElse h with h | h
  · exact clamp_takesOnly hinner h
  rcases eq_some_of_orElse h with h | h
  · exact floorOf_takesOnly hinner h
  rcases eq_some_of_orElse h with h | h
  · exact parameter_takesOnly h
  rcases eq_some_of_orElse h with h | h
  · exact spectrum_takesOnly h
  rcases eq_some_of_orElse h with h | h
  · obtain ⟨us, henergy, h⟩ := Option.bind_eq_some_iff.1 h
    cases h
    exact ⟨.energy, eq_append_of_expect henergy, rfl⟩
  rcases eq_some_of_orElse h with h | h
  · obtain ⟨p, hplace, rfl⟩ := eq_some_of_map h
    obtain ⟨p, rfl, rfl⟩ := place_takesOnly hplace
    exact ⟨.load p, rfl, rfl⟩
  · obtain ⟨name, hname, rfl⟩ := eq_some_of_map h
    obtain ⟨name, rfl, rfl⟩ := identifier_takesOnly hname
    exact ⟨.ref name, rfl, rfl⟩

end

/-- What is read as an operator of a tier is one. -/
theorem eq_of_opRule {t : Tier} {ts rest : List Token} {op : BinOp}
    (h : opRule t ts = some (op, rest)) : op.tier = t ∧ ts = .symbol op.sign :: rest := by
  cases t with
  | product =>
    have hproduct : productOp ts = some (op, rest) := h
    unfold productOp at hproduct
    split at hproduct <;> cases hproduct <;> exact ⟨rfl, rfl⟩
  | sum =>
    have hsum : sumOp ts = some (op, rest) := h
    unfold sumOp at hsum
    split at hsum <;> cases hsum <;> exact ⟨rfl, rfl⟩

section

variable {t : Tier} {operand : Rule SourceExpr}

/-- A chain goes on with operators and operands. -/
theorem chainFrom_takesOnly (hoperand : TakesExpr operand t.operand) (fuel : Nat)
    (d : ExprTree (.chain t)) (ts : List Token) :
    ∃ d' : ExprTree (.chain t),
      d.tokens ++ ts = d'.tokens ++ (chainFrom (opRule t) operand fuel d.value ts).2 ∧
      d'.value = (chainFrom (opRule t) operand fuel d.value ts).1 := by
  induction fuel generalizing d ts with
  | zero => exact ⟨d, rfl, rfl⟩
  | succ fuel ih =>
    unfold chainFrom
    split
    · exact ⟨d, rfl, rfl⟩
    · next op after hop =>
      split
      · exact ⟨d, rfl, rfl⟩
      · next rhs rest hrhs =>
        -- What was read so far is the left operand of the operator.
        obtain ⟨htier, rfl⟩ := eq_of_opRule hop
        obtain ⟨b, rfl, rfl⟩ := hoperand hrhs
        obtain ⟨d', htokens, hvalue⟩ := ih (.join op htier d b) rest
        refine ⟨d', Eq.trans ?_ htokens, hvalue⟩
        rw [ExprTree.tokens, List.append_assoc, List.cons_append]

/-- What is read as a chain is one, if its operands are. -/
theorem chain_takesOnly (hoperand : TakesExpr operand t.operand) :
    TakesExpr (chain (opRule t) operand) (.chain t) := by
  intro ts e rest h
  unfold chain at h
  simp only [Option.bind_eq_bind, Option.bind_eq_some_iff, Prod.exists, Option.some.injEq] at h
  obtain ⟨lhs, us, hlhs, h⟩ := h
  obtain ⟨a, rfl, rfl⟩ := hoperand hlhs
  obtain ⟨d, htokens, hvalue⟩ := chainFrom_takesOnly hoperand us.length (.single a) us
  have hchain : chainFrom (opRule t) operand us.length (ExprTree.single a).value us = (e, rest) := h
  rw [hchain] at htokens hvalue
  exact ⟨d, htokens, hvalue⟩

end

/-- What is read as an expression is one. -/
theorem exprWithin_takesOnly (depth : Nat) :
    TakesExpr (exprWithin depth) (.chain .sum) := by
  induction depth with
  | zero => exact fun h => nomatch h
  | succ depth ih =>
    exact chain_takesOnly (t := .sum) (chain_takesOnly (t := .product) (atom_takesOnly ih))

/-- What is read as an expression is one. -/
theorem expr_takesOnly : TakesExpr expr (.chain .sum) :=
  fun h => exprWithin_takesOnly _ h

/-! ## Statements -/

/-- A repetition takes off what its items take off. -/
theorem many_takesOnly {α β : Type} {item : Rule β} {tokens : α → List Token} {value : α → β}
    (hitem : TakesOnly item tokens value) (fuel : Nat) (ts : List Token) :
    ∃ items : List α, ts = items.flatMap tokens ++ (many item fuel ts).2 ∧
      items.map value = (many item fuel ts).1 := by
  induction fuel generalizing ts with
  | zero => exact ⟨[], rfl, rfl⟩
  | succ fuel ih =>
    unfold many
    split
    · exact ⟨[], rfl, rfl⟩
    · next b rest hb =>
      obtain ⟨a, rfl, rfl⟩ := hitem hb
      obtain ⟨items, htokens, hvalue⟩ := ih rest
      refine ⟨a :: items, ?_, ?_⟩
      · rw [List.flatMap_cons, List.append_assoc, ← htokens]
      · rw [List.map_cons, hvalue]

/-- What is read as a local with its value is one. -/
theorem binding_takesOnly : TakesOnly binding InstrTree.tokens InstrTree.value := by
  intro ts i rest h
  unfold binding at h
  simp only [Option.bind_eq_bind, Option.bind_eq_some_iff, Prod.exists, Option.some.injEq,
    Prod.mk.injEq] at h
  obtain ⟨us, hwords, name, vs, hname, ws, hassign, e, xs, he, ys, hend, rfl, rfl⟩ := h
  obtain rfl := eq_append_of_expect hwords
  obtain ⟨name, rfl, rfl⟩ := identifier_takesOnly hname
  obtain rfl := eq_cons_of_expectSymbol hassign
  obtain ⟨x, rfl, rfl⟩ := expr_takesOnly he
  obtain rfl := eq_cons_of_expectSymbol hend
  refine ⟨.bind name x, ?_, rfl⟩
  simp only [InstrTree.tokens, List.cons_append, List.append_assoc, List.nil_append]

/-- What is read as a value converted to a byte is an expression after the conversion. -/
theorem eq_of_converted {ts rest : List Token} {e : SourceExpr}
    (h : converted ts = some (e, rest)) : ∃ x : SumTree,
      ts = .symbol .leftParen :: .ident "uint8_t" :: .symbol .rightParen :: .symbol .leftParen
        :: (x.tokens ++ .symbol .rightParen :: rest) ∧ x.value = e := by
  obtain ⟨us, hcast, hparen⟩ := Option.bind_eq_some_iff.1 h
  obtain rfl := eq_append_of_expect hcast
  obtain ⟨vs, rfl, hinside⟩ := eq_of_parenthesized hparen
  obtain ⟨x, rfl, rfl⟩ := expr_takesOnly hinside
  exact ⟨x, rfl, rfl⟩

/-- What is read as a place with its value is one. -/
theorem storing_takesOnly : TakesOnly storing InstrTree.tokens InstrTree.value := by
  intro ts i rest h
  unfold storing at h
  simp only [Option.bind_eq_bind, Option.bind_eq_some_iff, Prod.exists] at h
  obtain ⟨p, us, hplace, vs, hassign, cast, e, ws, hvalue, xs, hend, h⟩ := h
  obtain ⟨p, rfl, rfl⟩ := place_takesOnly hplace
  obtain rfl := eq_cons_of_expectSymbol hassign
  obtain rfl := eq_cons_of_expectSymbol hend
  split at h
  · next hcast =>
    cases h
    -- The form that was read tells whether the place is a pixel, and so its name.
    rcases eq_some_of_orElse hvalue with hvalue | hvalue
    · obtain ⟨e, hconverted, heq⟩ := eq_some_of_map hvalue
      cases heq
      have hname := p.target_eq_out_iff.1 (of_decide_eq_true hcast.symm)
      obtain ⟨x, rfl, rfl⟩ := eq_of_converted hconverted
      refine ⟨.store p x, ?_, rfl⟩
      simp only [InstrTree.tokens, if_pos hname, List.cons_append, List.append_assoc,
        List.nil_append]
    · obtain ⟨e, he, heq⟩ := eq_some_of_map hvalue
      cases heq
      have hname := mt p.target_eq_out_iff.2 (of_decide_eq_false hcast.symm)
      obtain ⟨x, rfl, rfl⟩ := expr_takesOnly he
      refine ⟨.store p x, ?_, rfl⟩
      simp only [InstrTree.tokens, if_neg hname, List.cons_append, List.append_assoc,
        List.nil_append]
  · cases h

/-- What is read as an instruction is one. -/
theorem instr_takesOnly : TakesOnly instr InstrTree.tokens InstrTree.value := by
  intro ts i rest h
  unfold instr at h
  rcases eq_some_of_orElse h with h | h
  · exact binding_takesOnly h
  · exact storing_takesOnly h

/-- What is read as a count is one. -/
theorem eq_cons_of_count {ts rest : List Token} {n : Nat} (h : Parser.count ts = some (n, rest)) :
    ts = .int n :: rest := by
  unfold Parser.count at h
  split at h
  · cases h
    rfl
  · cases h

/-- What is read as a loop is one. -/
theorem eq_of_loop {ts rest : List Token} {count : Nat} {is : List (Instr Place String)}
    (h : loop ts = some ((count, is), rest)) : ∃ instrs : List InstrTree,
      ts = loopHead count ++ (instrs.flatMap InstrTree.tokens ++ .symbol .rightBrace :: rest) ∧
      instrs.map InstrTree.value = is := by
  unfold loop at h
  simp only [Option.bind_eq_bind, Option.bind_eq_some_iff, Prod.exists, Option.some.injEq,
    Prod.mk.injEq] at h
  obtain ⟨us, hhead, count, vs, hcount, ws, hopen, xs, hclose, ⟨rfl, rfl⟩, rfl⟩ := h
  obtain rfl := eq_append_of_expect hhead
  obtain rfl := eq_append_of_expect hopen
  obtain rfl := eq_cons_of_count hcount
  obtain ⟨instrs, htokens, hvalue⟩ := many_takesOnly instr_takesOnly ws.length ws
  rw [eq_cons_of_expectSymbol hclose] at htokens
  exact ⟨instrs, by rw [← htokens]; rfl, hvalue⟩

/-- What is read as a test is one in parentheses. -/
theorem eq_of_test {ts rest : List Token} {t : Test} (h : test ts = some (t, rest)) :
    ts = .symbol .leftParen :: (t.tokens ++ .symbol .rightParen :: rest) := by
  obtain ⟨us, rfl, hinside⟩ := eq_of_parenthesized h
  obtain ⟨vs, hpresent, hread⟩ := Option.bind_eq_some_iff.1 hinside
  obtain rfl := eq_append_of_expect hpresent
  split at hread
  · next v ws hthreshold =>
    cases hread
    obtain ⟨xs, habove, hconstant⟩ := Option.bind_eq_some_iff.1 hthreshold
    obtain rfl := eq_append_of_expect habove
    obtain ⟨v, rfl, rfl⟩ := constant_takesOnly hconstant
    rfl
  · cases hread
    rfl

/-- What is read as a branch is one, if what is between its braces are statements. -/
theorem eq_of_branch {body : List Token → Body × List Token}
    (hbody : ∀ ts, ∃ b : BodyTree, ts = b.tokens ++ (body ts).2 ∧ b.value = (body ts).1)
    {ts rest : List Token} {t : Test} {yes no : Body}
    (h : branch body ts = some ((t, yes, no), rest)) : ∃ y n : BodyTree,
      ts = .keyword .ifKw :: .symbol .leftParen :: (t.tokens
        ++ .symbol .rightParen :: .symbol .leftBrace :: (y.tokens
        ++ .symbol .rightBrace :: .keyword .elseKw :: .symbol .leftBrace :: (n.tokens
        ++ .symbol .rightBrace :: rest))) ∧ y.value = yes ∧ n.value = no := by
  unfold branch at h
  simp only [Option.bind_eq_bind, Option.bind_eq_some_iff, Prod.exists, Option.some.injEq,
    Prod.mk.injEq] at h
  obtain ⟨us, hif, t, vs, htest, ws, hopen, xs, helse, ys, hclose, ⟨rfl, rfl, rfl⟩, rfl⟩ := h
  obtain rfl := eq_append_of_expect hif
  obtain rfl := eq_of_test htest
  obtain rfl := eq_cons_of_expectSymbol hopen
  obtain ⟨y, hyes, hyesValue⟩ := hbody ws
  rw [eq_append_of_expect helse] at hyes
  obtain ⟨n, hno, hnoValue⟩ := hbody xs
  rw [eq_cons_of_expectSymbol hclose] at hno
  refine ⟨y, n, ?_, hyesValue, hnoValue⟩
  rw [hyes, hno]
  rfl

/-- What is read as statements is a sequence of them. -/
theorem bodyWithin_takesOnly (fuel : Nat) (ts : List Token) :
    ∃ b : BodyTree, ts = b.tokens ++ (bodyWithin fuel ts).2 ∧
      b.value = (bodyWithin fuel ts).1 := by
  induction fuel generalizing ts with
  | zero => exact ⟨.done, rfl, rfl⟩
  | succ fuel ih =>
    unfold bodyWithin
    split
    · next count is rest hloop =>
      obtain ⟨instrs, rfl, rfl⟩ := eq_of_loop hloop
      obtain ⟨b, htokens, hvalue⟩ := ih rest
      refine ⟨.loop count instrs b, ?_, ?_⟩
      · simp only [BodyTree.tokens, List.append_assoc, List.cons_append, ← htokens]
      · simp only [BodyTree.value, hvalue]
    · split
      · next t yes no rest hbranch =>
        obtain ⟨y, n, rfl, rfl, rfl⟩ := eq_of_branch ih hbranch
        obtain ⟨b, htokens, hvalue⟩ := ih rest
        refine ⟨.branch t y n b, ?_, ?_⟩
        · simp only [BodyTree.tokens, List.append_assoc, List.cons_append, ← htokens]
        · simp only [BodyTree.value, hvalue]
      · exact ⟨.done, rfl, rfl⟩

/-- What is read as statements is a sequence of them. -/
theorem body_takesOnly (ts : List Token) :
    ∃ b : BodyTree, ts = b.tokens ++ (body ts).2 ∧ b.value = (body ts).1 :=
  bodyWithin_takesOnly (ts.length + 1) ts

/-! ## Artifacts -/

/-- What is read as a name with a length is one. -/
theorem arrayDeclaration_takesOnly : TakesOnly arrayDeclaration
    (fun declared => .ident declared.1 :: lengthTokens declared.2) id := by
  intro ts declared rest h
  unfold arrayDeclaration at h
  simp only [Option.bind_eq_bind, Option.bind_eq_some_iff, Prod.exists, Option.some.injEq,
    Prod.mk.injEq] at h
  obtain ⟨name, us, hname, vs, hopen, len, ws, hlen, xs, hclose, rfl, rfl⟩ := h
  obtain ⟨name, rfl, rfl⟩ := identifier_takesOnly hname
  obtain rfl := eq_cons_of_expectSymbol hopen
  obtain rfl := eq_cons_of_count hlen
  obtain rfl := eq_append_of_expect hclose
  exact ⟨(name, len), rfl, rfl⟩

/-- What is read as a slot is one. -/
theorem slot_takesOnly :
    TakesOnly slot (fun s => (ArtifactTree.slotOf s).tokens) ArtifactTree.slotOf := by
  intro ts s rest h
  unfold slot at h
  simp only [Option.bind_eq_bind, Option.bind_eq_some_iff, Prod.exists, Option.some.injEq,
    Prod.mk.injEq] at h
  obtain ⟨us, hwords, symbol, len, vs, hdeclared, rfl, rfl⟩ := h
  obtain rfl := eq_append_of_expect hwords
  obtain ⟨declared, rfl, hvalue⟩ := arrayDeclaration_takesOnly hdeclared
  cases hvalue
  exact ⟨(symbol, len), rfl, rfl⟩

/-- What is read as the type of an element is one. -/
theorem elem_takesOnly : TakesOnly Parser.elem (fun e => [e.token]) id := by
  intro ts e rest h
  unfold Parser.elem at h
  split at h
  · cases h
    exact ⟨.float, rfl, rfl⟩
  · split at h
    · next hname =>
      cases h
      exact ⟨.rgb, by rw [hname]; rfl, rfl⟩
    · cases h
  · cases h

/-- What is read as a temporary is one. -/
theorem temp_takesOnly : TakesOnly temp Temp.tokens id := by
  intro ts t rest h
  unfold temp at h
  simp only [Option.bind_eq_bind, Option.bind_eq_some_iff, Prod.exists, Option.some.injEq,
    Prod.mk.injEq] at h
  obtain ⟨e, us, helem, symbol, len, vs, hdeclared, rfl, rfl⟩ := h
  obtain ⟨e, rfl, rfl⟩ := elem_takesOnly helem
  obtain ⟨declared, rfl, hvalue⟩ := arrayDeclaration_takesOnly hdeclared
  cases hvalue
  exact ⟨⟨symbol, e, len⟩, rfl, rfl⟩

/-- All names before that of the function are attributes. -/
theorem eq_replicate_of_functionName {names : List String} {function : String}
    (h : functionName names = some function) :
    ∃ n, names = List.replicate n "IRAM_ATTR" ++ [function] := by
  induction names with
  | nil => cases h
  | cons first names ih =>
    cases names with
    | nil =>
      cases h
      exact ⟨0, rfl⟩
    | cons second names =>
      unfold functionName at h
      split at h
      · next hfirst =>
        obtain ⟨n, hnames⟩ := ih h
        exact ⟨n + 1, by rw [hfirst, hnames]; rfl⟩
      · cases h

/-- What is read as the head of the function is one. -/
theorem eq_of_signature {ts rest : List Token} {function : String}
    (h : signature ts = some (function, rest)) :
    ∃ n, ts = .keyword .externKw :: .quote "C" :: .keyword .voidKw
      :: ((List.replicate n "IRAM_ATTR" ++ [function]).flatMap (fun name => [.ident name])
        ++ (parameterTokens ++ rest)) := by
  unfold signature at h
  simp only [Option.bind_eq_bind, Option.bind_eq_some_iff, Option.some.injEq, Prod.mk.injEq] at h
  obtain ⟨us, hwords, vs, hparameters, function, hfunction, rfl, rfl⟩ := h
  obtain rfl := eq_append_of_expect hwords
  obtain ⟨names, htokens, hnames⟩ := many_takesOnly identifier_takesOnly us.length us
  rw [List.map_id] at hnames
  rw [← hnames] at hfunction
  obtain ⟨n, rfl⟩ := eq_replicate_of_functionName hfunction
  rw [eq_append_of_expect hparameters] at htokens
  exact ⟨n, by rw [← htokens]; rfl⟩

/-- What is read as an artifact is one. -/
theorem exists_tree_of_parts {ts : List Token} {found : Parts} (h : parts ts = some found) :
    ∃ d : ArtifactTree, d.tokens = ts := by
  unfold parts at h
  simp only [Option.bind_eq_bind, Option.bind_eq_some_iff, Prod.exists] at h
  obtain ⟨function, us, hsignature, vs, hopen, ws, hclose, h⟩ := h
  -- What the repetitions return is not needed, since the parser reads the derivation.
  obtain ⟨slots, hslots, -⟩ := many_takesOnly slot_takesOnly ts.length ts
  obtain ⟨n, hsignature⟩ := eq_of_signature hsignature
  obtain rfl := eq_cons_of_expectSymbol hopen
  obtain ⟨temps, htemps, -⟩ := many_takesOnly temp_takesOnly vs.length vs
  obtain ⟨b, hbody, -⟩ := body_takesOnly (many temp vs.length vs).2
  split at h
  · next hend =>
    obtain rfl := List.isEmpty_iff.1 hend
    rw [eq_cons_of_expectSymbol hclose] at hbody
    refine ⟨⟨slots, n, function, temps, b⟩, ?_⟩
    rw [hslots, hsignature, htemps, hbody]
    simp only [ArtifactTree.tokens, ArtifactTree.signature, ArtifactTree.names, List.cons_append,
      List.append_assoc]
  · cases h

end Parser

/-! ## The grammar and the parser -/

/-- Some loop stores to the pixels exactly if a program is meant. -/
theorem ArtifactTree.writesPixels_iff (d : ArtifactTree) :
    d.WritesPixels ↔ ∃ p, d.program? = some p := by
  unfold ArtifactTree.WritesPixels ArtifactTree.program? Block.outputWidth?
  rw [← Option.isSome_iff_exists, Option.isSome_map, Option.isSome_map, List.find?_isSome]
  simp only [List.any_eq_true]

/-- Tokens are read as a program exactly if they have a derivation that stands for it. -/
theorem Program.ofTokens_eq_ok_iff {ts : List Token} {p : Program} :
    Program.ofTokens ts = .ok p ↔ ∃ d : ArtifactTree, d.tokens = ts ∧ d.program? = some p := by
  constructor
  · -- The tokens have some derivation, and it is known what the parser makes of it.
    intro h
    have hparts : ∃ found, Parser.parts ts = some found := by
      unfold Program.ofTokens at h
      split at h
      · cases h
      · next found hfound => exact ⟨found, hfound⟩
    obtain ⟨found, hfound⟩ := hparts
    obtain ⟨d, rfl⟩ := Parser.exists_tree_of_parts hfound
    rw [Program.ofTokens_tree] at h
    split at h
    · next q hq =>
      cases h
      exact ⟨d, rfl, hq⟩
    · cases h
  · rintro ⟨d, rfl, hd⟩
    rw [Program.ofTokens_tree, hd]

/-- The parser accepts exactly its grammar, and it returns what the only derivation stands for. -/
theorem parses_exactly_derivable (ts : List Token) :
    ((∃ p, Program.ofTokens ts = .ok p) ↔ ∃ d : ArtifactTree, d.tokens = ts ∧ d.WritesPixels) ∧
    ∀ p, Program.ofTokens ts = .ok p → ∃ d : ArtifactTree, d.tokens = ts ∧
      d.program? = some p ∧ ∀ d' : ArtifactTree, d'.tokens = ts → d' = d := by
  refine ⟨⟨?_, ?_⟩, ?_⟩
  · rintro ⟨p, hp⟩
    obtain ⟨d, htokens, hd⟩ := Program.ofTokens_eq_ok_iff.1 hp
    exact ⟨d, htokens, d.writesPixels_iff.2 ⟨p, hd⟩⟩
  · rintro ⟨d, htokens, hwrites⟩
    obtain ⟨p, hd⟩ := d.writesPixels_iff.1 hwrites
    exact ⟨p, Program.ofTokens_eq_ok_iff.2 ⟨d, htokens, hd⟩⟩
  · intro p hp
    obtain ⟨d, rfl, hd⟩ := Program.ofTokens_eq_ok_iff.1 hp
    exact ⟨d, rfl, hd, fun d' htokens => ArtifactTree.tokens_injective htokens⟩

/-- Tokens in which names of the language are plain names, parentheses stand where no printer writes
them, and `(uint8_t)` is an operand. -/
def crowdedTokens : List Token := List.flatten
  [[.keyword .externKw, .quote "C", .keyword .voidKw, .ident "IRAM_ATTR", .ident "IRAM_ATTR",
      .ident "audio"],
    Parser.parameterTokens,
    [.symbol .leftBrace, .keyword .floatKw, .ident "std"],
    lengthTokens 2,
    loopHead 2,
    -- std[i] = (uint8_t) - ((float)i) - params * audio;
    [.ident "std", .symbol .leftBracket, .ident "i", .symbol .rightBracket, .symbol .assign,
      .symbol .leftParen, .ident "uint8_t", .symbol .rightParen, .symbol .minus,
      .symbol .leftParen, .symbol .leftParen, .keyword .floatKw, .symbol .rightParen, .ident "i",
      .symbol .rightParen, .symbol .minus, .ident "params", .symbol .star, .ident "audio",
      .symbol .semicolon],
    -- out[i].r = (uint8_t)(clamp_val);
    [.ident "out", .symbol .leftBracket, .ident "i", .symbol .rightBracket, .symbol .dot,
      .ident "r", .symbol .assign, .symbol .leftParen, .ident "uint8_t", .symbol .rightParen,
      .symbol .leftParen, .ident "clamp_val", .symbol .rightParen, .symbol .semicolon],
    [.symbol .rightBrace, .symbol .rightBrace]]

/-- The program that `crowdedTokens` stands for. -/
def crowdedProgram : Program where
  function := "audio"
  frameWidth := 2
  slots := []
  temps := [⟨"std", .float, 2⟩]
  body := .loop 2
    [.store ⟨.buffer "std", .counter, none⟩ (.binary .sub
      (.binary .sub (.ref "uint8_t") .counter) (.binary .mul (.ref "params") (.ref "audio"))),
    .store ⟨.out, .counter, some .r⟩ (.ref "clamp_val")] .done

/-- The tokens are read as that program, and one derivation of the grammar gives them. -/
theorem crowdedTokens_derived : Program.ofTokens crowdedTokens = .ok crowdedProgram ∧
    ∃ d : ArtifactTree, d.tokens = crowdedTokens ∧ d.program? = some crowdedProgram ∧
      ∀ d' : ArtifactTree, d'.tokens = crowdedTokens → d' = d := by
  have hread : Program.ofTokens crowdedTokens = .ok crowdedProgram := rfl
  exact ⟨hread, (parses_exactly_derivable crowdedTokens).2 crowdedProgram hread⟩

end LedPattern
