import LedPattern.Proofs.Unambiguous

/-!
# Derivations are read

The parser reads the tokens of every derivation, as the program that the derivation stands for
(`Program.ofTokens_tree`). It never takes a wrong turn: an alternative that is tried before the
right one does not fit, and a repetition stops where the derivation does.

For expressions, an operand is read by the alternative of its production (`Parser.atom_tree`), and a
chain operator by operator (`Parser.progress`). The depth of nesting is bounded by the number of
tokens (`Parser.exprWithin_tree`). A conversion to a byte looks like an expression in parentheses,
and `Parser.converted_tree` tells the two apart.
-/

namespace LedPattern

open LedPattern.Parser

namespace Parser

/-! ## Expressions -/

/-- The rule for the operators of a tier. -/
def opRule : Tier → Rule BinOp
  | .product => productOp
  | .sum => sumOp

/-- The rule for the expressions of a level, with `inner` for those inside operands. -/
def levelRule (inner : Rule SourceExpr) : Level → Rule SourceExpr
  | .operand => atom inner
  | .chain .product => chain productOp (atom inner)
  | .chain .sum => chain sumOp (chain productOp (atom inner))

/-- A chain is read as operands with operators between them. -/
theorem levelRule_chain (inner : Rule SourceExpr) (t : Tier) :
    levelRule inner (.chain t) = chain (opRule t) (levelRule inner t.operand) := by
  cases t <;> rfl

/-- The operators of a tier are read off. -/
theorem opRule_sign {op : BinOp} {t : Tier} (hop : op.tier = t) (ts : List Token) :
    opRule t (.symbol op.sign :: ts) = some (op, ts) := by
  subst hop
  cases op <;> rfl

/-- A chain ends before a sign that may follow it. -/
theorem opRule_eq_none {t : Tier} {r : List Token} (hr : Follows (Level.chain t).strength r) :
    opRule t r = none := by
  cases t with
  | product => exact productOp_eq_none hr
  | sum => exact sumOp_eq_none hr

/-- A place is read off, unless more of it follows. -/
theorem place_tree (p : PlaceTree) {r : List Token} (hr : r.head? ≠ some (.symbol .dot)) :
    place (p.tokens ++ r) = some (p.value, r) := by
  simp only [PlaceTree.tokens, List.cons_append, List.append_assoc, place, identifier,
    Option.bind_eq_bind, Option.bind_some, index_tokens, channel_tokens p.channel hr]
  rfl

/-- A rule reads a derivation off, and comes to what it stands for. -/
def ReadsOff {l : Level} (rule : Rule SourceExpr) (d : ExprTree l) : Prop :=
  ∀ {r : List Token}, Follows l.strength r → rule (d.tokens ++ r) = some (d.value, r)

/-- An operand is read off, if the shorter expressions inside it are. -/
theorem atom_tree {inner : Rule SourceExpr} {n : Nat}
    (hinner : ∀ x : SumTree, x.tokens.length < n → ReadsOff inner x) (d : ExprTree .operand)
    (hlength : d.tokens.length ≤ n) : ReadsOff (atom inner) d := by
  intro r hr
  cases d with
  | const | counter | energy => rfl
  | paren x =>
    simp only [ExprTree.tokens, List.length_cons, List.length_append] at hlength
    have hx := hinner x (by omega) (follows_cons .rightParen rfl r)
    -- What is inside starts with no keyword, so this is not the counter.
    obtain ⟨t, ts, hts, ht⟩ := x.tokens_head
    have hcounter : counterValue ((ExprTree.paren x).tokens ++ r) = none := by
      simp [ExprTree.tokens, hts, counterValue, expect, Ne.symm (ht .floatKw)]
    have hparen : parenthesized inner ((ExprTree.paren x).tokens ++ r) = some (x.value, r) := by
      simp [ExprTree.tokens, parenthesized, hx]
    rw [atom, hcounter, hparen]
    rfl
  | clamp x low high hlow hhigh =>
    simp only [ExprTree.tokens, List.length_cons, List.length_append] at hlength
    have hx := hinner x (by omega) (follows_cons .comma rfl
      (.float low :: .symbol .comma :: .float high :: .symbol .rightParen :: r))
    have hclamp : clamp inner ((ExprTree.clamp x low high hlow hhigh).tokens ++ r) =
        some (.clamp01 x.value, r) := by
      simp [clamp, ExprTree.tokens, expect, parenthesized, hx, unitBound, constant, hlow, hhigh]
    rw [atom, hclamp]
    rfl
  | floor x =>
    simp only [ExprTree.tokens, List.length_cons, List.length_append] at hlength
    have hx := hinner x (by omega) (follows_cons .rightParen rfl r)
    have hfloor : floorOf inner ((ExprTree.floor x).tokens ++ r) = some (.floor x.value, r) := by
      simp [floorOf, ExprTree.tokens, expect, parenthesized, hx]
    rw [atom, hfloor]
    rfl
  | param field => cases field <;> rfl
  | spectrum index =>
    have hspectrum : spectrum ((ExprTree.spectrum index).tokens ++ r) =
        some (.spectrum index, r) := by
      simp [spectrum, ExprTree.tokens, expect, index_tokens]
    rw [atom, hspectrum]
    rfl
  | load p =>
    -- Before a bracket a name can only be that of a place.
    have hplace := place_tree p hr.head_ne_dot
    have hatom : atom inner (p.tokens ++ r) = _ := atom_ident inner p.name .leftBracket
      (p.index.tokens ++ .symbol .rightBracket :: Channel.tokens p.channel ++ r) (by decide)
    rw [ExprTree.tokens, hatom]
    show ((place (p.tokens ++ r)).map _ <|> _) = _
    rw [hplace]
    rfl
  | ref name => exact atom_ref inner name hr

/-- How a derivation is read off: an operand as a whole, and a chain so that it may go on. -/
def Progress (inner : Rule SourceExpr) : (l : Level) → ExprTree l → Prop
  | .operand, d => ReadsOff (atom inner) d
  | .chain t, d => ∀ r : List Token, Follows t.operand.strength r →
      Continues (opRule t) (levelRule inner t.operand) d.value (d.tokens ++ r) r

/-- A chain that may go on ends where something else follows. -/
theorem Progress.readsOff {inner : Rule SourceExpr} {l : Level} {d : ExprTree l}
    (h : Progress inner l d) : ReadsOff (levelRule inner l) d := by
  cases l with
  | operand => exact h
  | chain t =>
    intro r hr
    have hnext : Follows t.operand.strength r := by
      refine hr.mono ?_
      rw [t.strength_operand]
      exact Nat.le_succ _
    rw [levelRule_chain]
    exact (h r hnext).stop (opRule_eq_none hr)

/-- Derivations of every level are read off, if the shorter expressions inside operands are. -/
theorem progress {inner : Rule SourceExpr} {n : Nat}
    (hinner : ∀ x : SumTree, x.tokens.length < n → ReadsOff inner x) {l : Level} (d : ExprTree l)
    (hlength : d.tokens.length ≤ n) : Progress inner l d := by
  induction d with
  | const | counter | paren | clamp | floor | param | spectrum | energy | load | ref =>
    exact atom_tree hinner _ hlength
  | single only ih =>
    intro r hr
    exact continues_of_operand ((ih hlength).readsOff hr)
  | join op hop lhs rhs ihleft ihright =>
    intro r hr
    simp only [ExprTree.tokens, List.length_append, List.length_cons] at hlength
    -- The chain has got as far as the sign, and goes one step from there.
    have hleft := ihleft (by omega) _ (BinOp.follows hop (rhs.tokens ++ r))
    have hright := (ihright (by omega)).readsOff hr
    rw [ExprTree.tokens, List.append_assoc, List.cons_append]
    refine hleft.step (opRule_sign hop _) hright ?_
    simp only [List.length_cons, List.length_append]
    omega

/-- An expression of at most `depth` tokens is read off within that depth. -/
theorem exprWithin_tree (depth : Nat) (x : SumTree) (hlength : x.tokens.length ≤ depth) :
    ReadsOff (exprWithin depth) x := by
  induction depth generalizing x with
  | zero =>
    obtain ⟨t, ts, hts, -⟩ := x.tokens_head
    rw [hts, List.length_cons] at hlength
    omega
  | succ depth ih =>
    exact Progress.readsOff (progress (n := depth + 1) (fun y hy => ih y (by omega)) x hlength)

/-- An expression is read off. -/
theorem expr_tree (x : SumTree) : ReadsOff expr x := by
  intro r hr
  unfold expr
  refine exprWithin_tree _ x ?_ hr
  rw [List.length_append]
  omega

/-- The first operand of a chain, and what follows it. -/
theorem front_tree {t : Tier} (d : ExprTree (.chain t)) {r : List Token}
    (hr : Follows (Level.chain t).strength r) :
    ∃ (first : ExprTree t.operand) (u : List Token),
      d.tokens ++ r = first.tokens ++ u ∧ Follows t.operand.strength u := by
  obtain ⟨first, links, rfl⟩ := d.exists_graft
  refine ⟨first, _, ?_, ExprTree.follows_links links hr⟩
  rw [ExprTree.tokens_graft, List.append_assoc]
  rfl

/-- No expression starts like a conversion to a byte: after a name in parentheses there is no other
parenthesis. -/
theorem converted_tree (x : SumTree) {r : List Token} (hr : Follows 0 r) :
    converted (x.tokens ++ r) = none := by
  obtain ⟨first, u, hfirst, hu⟩ := front_tree (t := .sum) x hr
  obtain ⟨a, v, ha, hv⟩ := front_tree (t := .product) first hu
  rw [hfirst.trans ha, converted]
  cases hcast : expect [.symbol .leftParen, .ident "uint8_t", .symbol .rightParen]
      (a.tokens ++ v) with
  | none => rfl
  | some w =>
    have heq := eq_append_of_expect hcast
    cases a with
    | paren y =>
      simp only [ExprTree.tokens, List.cons_append, List.append_assoc, List.cons.injEq, true_and,
        List.nil_append] at heq
      -- Only the name is in the parentheses, and so the parenthesis after them would follow `a`.
      have hname : y.tokens ++ .symbol .rightParen :: v =
          (ExprTree.single (.single (.ref "uint8_t")) : SumTree).tokens
            ++ .symbol .rightParen :: w := heq
      obtain ⟨-, rfl⟩ := ExprTree.unique rfl rfl hname
      obtain ⟨sign, after, k, rfl, -, hsign⟩ := Follows.sign hv
      have hparen : sign ≠ .leftParen := by
        rintro rfl
        cases hsign
      simp [parenthesized, expectSymbol, expect, Ne.symm hparen]
    | _ => cases heq

/-! ## Statements -/

/-- An instruction is read off. -/
theorem instr_tree (i : InstrTree) (r : List Token) :
    instr (i.tokens ++ r) = some (i.value, r) := by
  cases i with
  | bind name value =>
    have hvalue := expr_tree value (follows_cons .semicolon rfl r)
    have hbinding : binding ((InstrTree.bind name value).tokens ++ r) =
        some (.bind name value.value, r) := by
      simp [binding, InstrTree.tokens, expect, identifier, hvalue]
    rw [instr, hbinding]
    rfl
  | store p value =>
    have hbinding : binding ((InstrTree.store p value).tokens ++ r) = none := by
      simp [binding, InstrTree.tokens, PlaceTree.tokens, expect]
    have hplace : ∀ ts, place (p.tokens ++ .symbol .assign :: ts) =
        some (p.value, .symbol .assign :: ts) :=
      fun ts => place_tree p (by simp)
    -- A conversion is tried first, and must not fit what is stored elsewhere than to the pixels.
    have hstoring : storing ((InstrTree.store p value).tokens ++ r) =
        some (.store p.value value.value, r) := by
      by_cases hname : p.name = "out"
      · have hvalue := expr_tree value (follows_cons .rightParen rfl (.symbol .semicolon :: r))
        have htarget : p.value.target = .out := if_pos hname
        simp [storing, InstrTree.tokens, hname, htarget, hplace, storedValue, converted, expect,
          parenthesized, hvalue]
      · have hvalue := expr_tree value (follows_cons .semicolon rfl r)
        have hconverted := converted_tree value (follows_cons .semicolon rfl r)
        have htarget : p.value.target ≠ .out := by
          simp [PlaceTree.value, targetOf, hname]
        simp [storing, InstrTree.tokens, hname, htarget, hplace, storedValue, hconverted, hvalue]
    rw [instr, hbinding, hstoring]
    rfl

/-- An instruction has a token. -/
theorem instr_tree_ne_nil (i : InstrTree) : i.tokens ≠ [] := by
  cases i <;> simp [InstrTree.tokens, PlaceTree.tokens]

/-- A loop is read off. -/
theorem loop_tree (count : Nat) (instrs : List InstrTree) (r : List Token) :
    loop (loopHead count ++ (instrs.flatMap InstrTree.tokens ++ .symbol .rightBrace :: r)) =
      some ((count, instrs.map InstrTree.value), r) := by
  have hmany := many_items InstrTree.value instr_tree instr_tree_ne_nil instrs
    (show instr (.symbol .rightBrace :: r) = none from rfl)
  generalize instrs.flatMap InstrTree.tokens ++ .symbol .rightBrace :: r = inside at hmany ⊢
  simp only [loop, loopHead, List.cons_append, List.nil_append, expect, if_true,
    Option.bind_eq_bind, Option.bind_some, Parser.count, hmany, expectSymbol_cons]

/-- A sequence of statements is read off up to its closing brace. -/
theorem bodyWithin_tree (b : BodyTree) {fuel : Nat} (hfuel : b.tokens.length < fuel)
    (r : List Token) :
    bodyWithin fuel (b.tokens ++ .symbol .rightBrace :: r) =
      (b.value, .symbol .rightBrace :: r) := by
  -- A statement has a token besides those of its parts, so the fuel suffices for each part.
  induction b generalizing fuel r with
  | done => exact bodyWithin_close fuel r
  | loop count instrs rest ih =>
    obtain ⟨fuel, rfl⟩ : ∃ m, fuel = m + 1 := ⟨fuel - 1, by omega⟩
    simp only [BodyTree.tokens, List.length_append, List.length_cons] at hfuel
    have hrest := ih (show rest.tokens.length < fuel by omega) r
    have hloop := loop_tree count instrs (rest.tokens ++ .symbol .rightBrace :: r)
    simp only [BodyTree.tokens, List.append_assoc, List.cons_append, bodyWithin, hloop, hrest,
      BodyTree.value]
  | branch test yes no rest ihyes ihno ih =>
    obtain ⟨fuel, rfl⟩ : ∃ m, fuel = m + 1 := ⟨fuel - 1, by omega⟩
    simp only [BodyTree.tokens, List.length_append, List.length_cons] at hfuel
    have hyes := ihyes (show yes.tokens.length < fuel by omega)
    have hno := ihno (show no.tokens.length < fuel by omega)
    have hrest := ih (show rest.tokens.length < fuel by omega) r
    have hbranch : branch (bodyWithin fuel) ((BodyTree.branch test yes no rest).tokens
        ++ .symbol .rightBrace :: r) =
        some ((test, yes.value, no.value), rest.tokens ++ .symbol .rightBrace :: r) := by
      simp [branch, BodyTree.tokens, expect, test_tokens, hyes, hno]
    have hloop : loop ((BodyTree.branch test yes no rest).tokens ++ .symbol .rightBrace :: r) =
        none := rfl
    simp only [bodyWithin, hloop, hbranch, hrest, BodyTree.value]

/-- A sequence of statements is read off up to its closing brace. -/
theorem body_tree (b : BodyTree) (r : List Token) :
    body (b.tokens ++ .symbol .rightBrace :: r) = (b.value, .symbol .rightBrace :: r) := by
  unfold body
  refine bodyWithin_tree b ?_ r
  rw [List.length_append]
  omega

/-! ## Artifacts -/

/-- The function's own name stands after its attributes. -/
theorem functionName_names (d : ArtifactTree) : functionName d.names = some d.function := by
  unfold ArtifactTree.names
  induction d.attributes with
  | zero => rfl
  | succ n ih =>
    cases n with
    | zero => rfl
    | succ n => exact ih

/-- The head of the function is read off. -/
theorem signature_tree (d : ArtifactTree) (r : List Token) :
    signature (d.signature ++ r) = some (d.function, r) := by
  have hname : ∀ (name : String) (r : List Token), identifier ([.ident name] ++ r) =
      some (id name, r) := fun _ _ => rfl
  have hnames := many_items id hname (fun _ => List.cons_ne_nil _ _) d.names
    (show identifier (parameterTokens ++ r) = none from rfl)
  generalize hinside : d.names.flatMap (fun name => [Token.ident name]) ++ (parameterTokens ++ r) =
    inside at hnames
  have hsignature : d.signature ++ r =
      [.keyword .externKw, .quote "C", .keyword .voidKw] ++ inside := by
    rw [← hinside, ArtifactTree.signature]
    simp only [List.cons_append, List.append_assoc, List.nil_append]
  rw [hsignature]
  simp only [signature, expect_append, Option.bind_eq_bind, Option.bind_some, hnames, List.map_id,
    functionName_names]

/-- The tokens of an artifact give its parts. -/
theorem parts_tree (d : ArtifactTree) : parts d.tokens = some
    { slots := d.slots.map ArtifactTree.slotOf
      function := d.function
      temps := d.temps
      body := d.body.value } := by
  have hslots := many_items ArtifactTree.slotOf (fun a => slot_tokens (ArtifactTree.slotOf a))
    (fun a => List.cons_ne_nil _ _) d.slots (r := d.signature ++ .symbol .leftBrace
    :: (d.temps.flatMap Temp.tokens ++ (d.body.tokens ++ [.symbol .rightBrace]))) rfl
  have htemps := many_items id temp_tokens (fun t => List.cons_ne_nil _ _) d.temps
    (r := d.body.tokens ++ [.symbol .rightBrace]) (by cases d.body <;> rfl)
  have hbody := body_tree d.body []
  rw [ArtifactTree.tokens, parts]
  simp only [hslots, signature_tree, Option.bind_eq_bind, Option.bind_some, expectSymbol_cons,
    htemps, hbody, List.map_id, List.isEmpty_nil, if_true]

end Parser

/-- A derivation is read as what it stands for. -/
theorem Program.ofTokens_tree (d : ArtifactTree) : Program.ofTokens d.tokens =
    match d.program? with
    | some p => .ok p
    | none => .error .noOutput := by
  rw [Program.ofTokens, Parser.parts_tree]
  dsimp only
  rw [ArtifactTree.program?]
  cases d.body.value.outputWidth? <;> rfl

end LedPattern
