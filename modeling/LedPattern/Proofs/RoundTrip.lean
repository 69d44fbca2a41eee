import LedPattern.Proofs.Reading

/-!
# Printing and reading programs

What is printed has a derivation. For an expression, parentheses are printed exactly where the
grammar needs them (`Expr.exists_tree`), and a whole program has the derivation that stands for it
without its notes, with the symbols of its slots in place of their owners (`Program.exists_tree`).

The parser reads all derivations, so the tokens of a program give it back
(`Program.ofTokens_tokens`). Its text consists of these tokens and of nothing that is no token, so
the text gives it back as well (`print_reads_back`). This needs a version of the compiler that is
written on one line: it stands in a comment, and what follows a line break in it is read as code
(`redProgram_unread`).
-/

namespace LedPattern

open LedPattern.Parser

/-! ## Expressions -/

/-- A place that is printed has a derivation. -/
theorem Place.exists_tree {p : Place} (hp : p.isPrintable = true) :
    ∃ d : PlaceTree, d.tokens = p.tokens ∧ d.value = p := by
  have htarget : targetOf p.target.name = p.target := by
    simp only [Place.isPrintable, Bool.and_eq_true] at hp
    cases hcase : p.target with
    | out => rfl
    | buffer symbol =>
      rw [hcase] at hp
      simp only [Target.isPrintable, Bool.and_eq_true, decide_eq_true_eq] at hp
      exact if_neg hp.1.2
  exact ⟨⟨p.target.name, p.index, p.channel⟩, rfl, by rw [PlaceTree.value, htarget]⟩

/-- An operand is an expression of every level. -/
theorem Expr.exists_tree_of_operand {e : SourceExpr} (hoperand : e.precedence = 3)
    (d : ExprTree .operand) (htokens : d.tokens = e.tokens) (hvalue : d.value = e) (l : Level) :
    ∃ d : ExprTree l, d.tokens = groupedTokens (e.precedence ≤ l.strength) e.tokens ∧
      d.value = e := by
  rw [hoperand]
  match l with
  | .operand => exact ⟨d, htokens, hvalue⟩
  | .chain .product => exact ⟨.single d, htokens, hvalue⟩
  | .chain .sum => exact ⟨.single (.single d), htokens, hvalue⟩

/-- A chain is an expression of every level, in parentheses where stronger operators may follow. -/
theorem Expr.exists_tree_of_chain {e : SourceExpr} {t : Tier}
    (hchain : e.precedence = (Level.chain t).strength + 1) (d : ExprTree (.chain t))
    (htokens : d.tokens = e.tokens) (hvalue : d.value = e) (l : Level) :
    ∃ d : ExprTree l, d.tokens = groupedTokens (e.precedence ≤ l.strength) e.tokens ∧
      d.value = e := by
  rw [hchain, ← htokens]
  match t, l with
  | .product, .operand => exact ⟨.paren (.single d), rfl, hvalue⟩
  | .product, .chain .product => exact ⟨d, rfl, hvalue⟩
  | .product, .chain .sum => exact ⟨.single d, rfl, hvalue⟩
  | .sum, .operand => exact ⟨.paren d, rfl, hvalue⟩
  | .sum, .chain .product => exact ⟨.single (.paren d), rfl, hvalue⟩
  | .sum, .chain .sum => exact ⟨d, rfl, hvalue⟩

/-- An operator is stronger than what may follow the chains of its tier. -/
theorem BinOp.precedence_eq (op : BinOp) :
    op.precedence = (Level.chain op.tier).strength + 1 := by
  cases op <;> rfl

/-- A sum needs no parentheses. -/
theorem Expr.grouped_sum (e : SourceExpr) :
    groupedTokens (e.precedence ≤ (Level.chain .sum).strength) e.tokens = e.tokens := by
  have hpos : ¬e.precedence ≤ 0 := by
    cases e with
    | binary op _ _ => cases op <;> exact Nat.not_succ_le_zero _
    | _ => exact Nat.not_succ_le_zero 2
  rw [Level.strength, decide_eq_false hpos]
  rfl

/-- An expression that is printed has a derivation of every level, in parentheses where it holds
together no more strongly than what may follow. -/
theorem Expr.exists_tree {e : SourceExpr} (he : e.isPrintable = true) (l : Level) :
    ∃ d : ExprTree l, d.tokens = groupedTokens (e.precedence ≤ l.strength) e.tokens ∧
      d.value = e := by
  induction e generalizing l with
  | const v => exact exists_tree_of_operand rfl (.const v) rfl rfl l
  | counter => exact exists_tree_of_operand rfl .counter rfl rfl l
  | load p =>
    obtain ⟨d, htokens, hvalue⟩ := Place.exists_tree he
    exact exists_tree_of_operand (e := .load p) rfl (.load d) htokens (congrArg Expr.load hvalue) l
  | ref name => exact exists_tree_of_operand rfl (.ref name) rfl rfl l
  | param field => exact exists_tree_of_operand rfl (.param field) rfl rfl l
  | spectrum index => exact exists_tree_of_operand rfl (.spectrum index) rfl rfl l
  | energy => exact exists_tree_of_operand rfl .energy rfl rfl l
  | binary op a b iha ihb =>
    simp only [Expr.isPrintable, Bool.and_eq_true] at he
    -- A left operand needs parentheses if it is weaker than the operator, and a right one also if
    -- it is as strong: this is what sets a chain apart from an operand.
    obtain ⟨lhs, hlhs, hleft⟩ := iha he.1 (.chain op.tier)
    obtain ⟨rhs, hrhs, hright⟩ := ihb he.2 op.tier.operand
    refine exists_tree_of_chain (e := .binary op a b) op.precedence_eq (.join op rfl lhs rhs)
      ?_ ?_ l
    · rw [Tier.strength_operand] at hrhs
      simp only [ExprTree.tokens, Expr.tokens, hlhs, hrhs, op.precedence_eq, Nat.lt_succ_iff]
    · rw [ExprTree.value, hleft, hright]
  | clamp01 x ih =>
    obtain ⟨d, htokens, hvalue⟩ := ih he (.chain .sum)
    have hzero : ((0 : Float32) == 0) = true := by decide
    have hone : ((1 : Float32) == 1) = true := by decide
    refine exists_tree_of_operand rfl (.clamp d 0 1 hzero hone) ?_ (congrArg Expr.clamp01 hvalue) l
    rw [ExprTree.tokens, htokens, grouped_sum]
    rfl
  | floor x ih =>
    obtain ⟨d, htokens, hvalue⟩ := ih he (.chain .sum)
    refine exists_tree_of_operand rfl (.floor d) ?_ (congrArg Expr.floor hvalue) l
    rw [ExprTree.tokens, htokens, grouped_sum]
    rfl

/-- An expression that is printed is a sum. -/
theorem Expr.exists_sumTree {e : SourceExpr} (he : e.isPrintable = true) :
    ∃ d : SumTree, d.tokens = e.tokens ∧ d.value = e := by
  obtain ⟨d, htokens, hvalue⟩ := Expr.exists_tree he (.chain .sum)
  exact ⟨d, htokens.trans e.grouped_sum, hvalue⟩

/-! ## Statements -/

/-- An instruction that is printed has a derivation. -/
theorem Instr.exists_tree {i : Instr Place String} (hi : i.isPrintable = true) :
    ∃ d : InstrTree, d.tokens = i.tokens ∧ d.value = i := by
  cases i with
  | bind name value =>
    simp only [Instr.isPrintable, Bool.and_eq_true] at hi
    obtain ⟨d, htokens, hvalue⟩ := Expr.exists_sumTree hi.2
    refine ⟨.bind name d, ?_, ?_⟩
    · rw [InstrTree.tokens, htokens]
      rfl
    · rw [InstrTree.value, hvalue]
  | store p value =>
    simp only [Instr.isPrintable, Bool.and_eq_true] at hi
    obtain ⟨place, hplace, hp⟩ := Place.exists_tree hi.1
    obtain ⟨d, htokens, hvalue⟩ := Expr.exists_sumTree hi.2
    refine ⟨.store place d, ?_, ?_⟩
    · rw [InstrTree.tokens, Instr.tokens, hplace, htokens]
      -- The parser tells the output from a buffer by its name.
      have hname := place.target_eq_out_iff
      rw [hp] at hname
      cases htarget : p.target with
      | out =>
        rw [if_pos (hname.1 htarget)]
        rfl
      | buffer symbol =>
        rw [if_neg]
        intro hout
        rw [hname.2 hout] at htarget
        cases htarget
    · rw [InstrTree.value, hp, hvalue]

/-- Instructions that are printed have derivations. -/
theorem Instr.exists_trees {instrs : List (Instr Place String)}
    (hinstrs : instrs.all Instr.isPrintable = true) :
    ∃ ds : List InstrTree, ds.flatMap InstrTree.tokens = instrs.flatMap Instr.tokens ∧
      ds.map InstrTree.value = instrs := by
  induction instrs with
  | nil => exact ⟨[], rfl, rfl⟩
  | cons i instrs ih =>
    rw [List.all_cons, Bool.and_eq_true] at hinstrs
    obtain ⟨d, htokens, hvalue⟩ := Instr.exists_tree hinstrs.1
    obtain ⟨ds, hmore, hvalues⟩ := ih hinstrs.2
    refine ⟨d :: ds, ?_, ?_⟩
    · rw [List.flatMap_cons, List.flatMap_cons, htokens, hmore]
    · rw [List.map_cons, hvalue, hvalues]

/-- Statements that are printed have a derivation, which stands for them without their notes. -/
theorem Block.exists_tree {b : Body} (hb : b.isPrintable = true) :
    ∃ d : BodyTree, d.tokens = b.tokens ∧ d.value = b.withoutNotes := by
  induction b with
  | done => exact ⟨.done, rfl, rfl⟩
  | note _ rest ih => exact ih hb
  | loop count instrs rest ih =>
    simp only [Block.isPrintable, Bool.and_eq_true] at hb
    obtain ⟨ds, hinstrs, hvalues⟩ := Instr.exists_trees hb.1.2
    obtain ⟨d, hrest, hvalue⟩ := ih hb.2
    refine ⟨.loop count ds d, ?_, ?_⟩
    · rw [BodyTree.tokens, hinstrs, hrest]
      rfl
    · rw [BodyTree.value, hvalues, hvalue]
      rfl
  | branch test yes no rest ihyes ihno ih =>
    simp only [Block.isPrintable, Bool.and_eq_true] at hb
    obtain ⟨dyes, hyes, hyesValue⟩ := ihyes hb.1.1.2
    obtain ⟨dno, hno, hnoValue⟩ := ihno hb.1.2
    obtain ⟨d, hrest, hvalue⟩ := ih hb.2
    refine ⟨.branch test dyes dno d, ?_, ?_⟩
    · rw [BodyTree.tokens, hyes, hno, hrest]
      rfl
    · rw [BodyTree.value, hyesValue, hnoValue, hvalue]
      rfl

/-! ## Programs -/

/-- The loops of a sequence are not its notes. -/
theorem Block.loops_withoutNotes (b : Body) : b.withoutNotes.loops = b.loops := by
  induction b with
  | done => rfl
  | note _ _ ih => exact ih
  | loop count instrs next ih => simp only [Block.withoutNotes, Block.loops, ih]
  | branch t yes no next ihyes ihno ih =>
    simp only [Block.withoutNotes, Block.loops, ihyes, ihno, ih]

/-- A program as its artifact gives it back: notes are dropped, and the symbol of a slot stands for
its owner. -/
def Program.erased (p : Program) : Program :=
  { p with
    slots := p.slots.map fun s => ⟨s.symbol, s.symbol, s.len⟩
    body := p.body.withoutNotes }

/-- A program that is printed has a derivation, which stands for what its artifact gives back. -/
theorem Program.exists_tree {p : Program} (hp : p.Printable) (profile : Profile) :
    ∃ d : ArtifactTree, d.tokens = p.tokens profile ∧ d.program? = some p.erased := by
  obtain ⟨d, htokens, hvalue⟩ := Block.exists_tree hp.body
  have hwidth : p.body.withoutNotes.outputWidth? = some p.frameWidth := by
    rw [Block.outputWidth?, Block.loops_withoutNotes]
    exact hp.width
  refine ⟨⟨p.slots.map fun s => (s.symbol, s.len), profile.attribute.length, p.function, p.temps,
    d⟩, ?_, ?_⟩
  · rw [ArtifactTree.tokens, htokens, List.flatMap_map]
    cases profile <;> rfl
  · rw [ArtifactTree.program?, hvalue, hwidth, Option.map_some, List.map_map]
    rfl

/-- The tokens of a program give it back. -/
theorem Program.ofTokens_tokens {p : Program} (hp : p.Printable) (profile : Profile) :
    Program.ofTokens (p.tokens profile) = .ok p.erased := by
  obtain ⟨d, htokens, hd⟩ := Program.exists_tree hp profile
  rw [← htokens, Program.ofTokens_tree, hd]

/-- A text that consists of tokens is read as they are. -/
theorem Program.ofText_eq {text : String} {ts : List Token}
    (hreads : Lexer.Reads text.toList ts) :
    Program.ofText text = (Program.ofTokens ts).mapError fun fault => [fault] := by
  obtain ⟨htokens, hcomplaints⟩ := Lexer.reads_lex hreads
  have hunknown : (Lexer.lex text.toList).filterMap (fun l => l.complaint?.map fun complaint =>
      ArtifactFault.unknownText l.start l.stop complaint) = [] := by
    rw [List.filterMap_eq_nil_iff]
    intro l hl
    rw [hcomplaints l hl]
    rfl
  rw [Program.ofText]
  simp only [hunknown, htokens, List.isEmpty_nil, if_true, List.nil_append]
  cases Program.ofTokens ts <;> rfl

/-- A text that consists of the tokens of a program is read as the program. -/
theorem Program.ofText_of_reads {text : String} {ts : List Token} {p : Program}
    (hreads : Lexer.Reads text.toList ts) (hp : Program.ofTokens ts = .ok p) :
    Program.ofText text = .ok p := by
  rw [Program.ofText_eq hreads, hp]
  rfl

/-- A text that is read as a program has its tokens. -/
theorem Program.ofTokens_of_ofText {text : String} {p : Program}
    (h : Program.ofText text = .ok p) :
    Program.ofTokens (Lexer.tokens (Lexer.lex text.toList)) = .ok p := by
  unfold Program.ofText at h
  dsimp only at h
  split at h
  · next q hq =>
    split at h
    · cases h
      exact hq
    · cases h
  · cases h

/-- The artifact of a program is read without complaint, and what is read is the program: the same
function, width, buffers and code, without the notes, and with the symbol of each slot for its
owner. The version of the compiler, which stands in a comment, has to be one line. -/
theorem print_reads_back (p : Program) (hp : p.Printable) (provenance : Provenance)
    (hversion : '\n' ∉ provenance.version.toList) (profile : Profile) :
    (∀ l ∈ Lexer.lex (p.print provenance ⟨profile, none⟩).text.toList, l.complaint? = none) ∧
      Program.ofText (p.print provenance ⟨profile, none⟩).text = .ok
        { function := p.function
          frameWidth := p.frameWidth
          slots := p.slots.map fun s => { symbol := s.symbol, owner := s.symbol, len := s.len }
          temps := p.temps
          body := p.body.withoutNotes } := by
  have hreads := Program.reads_print hp hversion profile
  have htokens := Program.ofTokens_tokens hp profile
  exact ⟨(Lexer.reads_lex hreads).2, Program.ofText_of_reads hreads htokens⟩

/-- A program with the shapes that are hard to read again: names that mean something to the grammar,
a negative constant after a minus sign, a difference on the right of a difference, a chain inside a
quotient, and notes of more than one line. -/
def trickyProgram : Program where
  function := "IRAM_ATTR"
  frameWidth := 4
  slots := [⟨"params", "trail \"0\"", 4⟩]
  temps := [⟨"audio", .float, 4⟩, ⟨"uint8_t", .rgb, 4⟩]
  body :=
    .note "first line\nint x = 0; // second" <|
    .loop 4
      [.bind "clamp_val" (.binary .sub (.const (-1)) (.binary .sub .counter (.const (-2)))),
        .store ⟨.buffer "audio", .reverse 3, none⟩ (.clamp01 (.ref "clamp_val"))] <|
    .branch (.energyAbove (-1))
      (.note "\x7d" <|
        .loop 2
          [.store ⟨.buffer "params", .offset 2, none⟩
            (.binary .div (.binary .add (.param .softness) .energy)
              (.binary .mul (.spectrum .counter)
                (.floor (.load ⟨.buffer "params", .counter, none⟩))))]
          .done)
      .done <|
    .loop 4
      [.store ⟨.out, .counter, some .g⟩ (.load ⟨.buffer "uint8_t", .counter, some .g⟩)]
      .done

/-- The program with its difficult shapes is read back. -/
theorem trickyProgram_reads_back : trickyProgram.Printable ∧
    Program.ofText (trickyProgram.print (Provenance.ofSource "") ⟨.firmware, none⟩).text = .ok
      { function := trickyProgram.function
        frameWidth := trickyProgram.frameWidth
        slots := trickyProgram.slots.map fun s => ⟨s.symbol, s.symbol, s.len⟩
        temps := trickyProgram.temps
        body := trickyProgram.body.withoutNotes } := by
  have hp : trickyProgram.Printable :=
    ⟨by decide, by decide, by decide, by decide, by decide⟩
  exact ⟨hp, (print_reads_back trickyProgram hp (Provenance.ofSource "") (by decide) .firmware).2⟩

/-! ## Versions of more than one line -/

open LedPattern.Lexer

namespace Lexer

/-- A text starts with a piece that is no token, up to blanks and comments. -/
inductive Stumbles : List Char → Prop where
  | unknown {c : Char} {cs : List Char} (hpiece : (scan c cs).piece = .unknown) :
      Stumbles (c :: cs)
  | blank {c : Char} {cs rest : List Char} (hpiece : (scan c cs).piece = .blank)
      (hrest : (scan c cs).rest = rest) (h : Stumbles rest) : Stumbles (c :: cs)

/-- There is a complaint about a text that starts with a piece that is no token. -/
theorem Stumbles.exists_complaint {cs : List Char} (h : Stumbles cs) :
    ∀ fuel start : Nat, cs.length ≤ fuel →
      ∃ l ∈ lexFrom fuel start cs, l.complaint? ≠ none := by
  induction h with
  | @unknown c cs hpiece =>
    intro fuel start hfuel
    obtain ⟨fuel, rfl, -⟩ := exists_fuel rfl hfuel
    simp only [lexFrom, hpiece]
    exact ⟨_, List.mem_cons_self, by simp [Lexeme.complaint?]⟩
  | @blank c cs rest hpiece hrest _ ih =>
    intro fuel start hfuel
    obtain ⟨fuel, rfl, hleft⟩ := exists_fuel hrest hfuel
    simp only [lexFrom, hpiece, hrest]
    exact ih _ _ hleft

/-- No token starts with the sign `@`. -/
theorem stumbles_at (rest : List Char) : Stumbles ('@' :: rest) := by
  refine .unknown ?_
  have hpair : ∀ x, Symbol.ofPair? '@' x = none := fun x => by simp [Symbol.ofPair?]
  have hnone : rest.head?.bind (Symbol.ofPair? '@') = none := by
    cases rest <;> simp [hpair]
  have hscan : scan '@' rest = scanSymbol '@' rest := rfl
  rw [hscan, scanSymbol, hnone]
  rfl

end Lexer

/-- A text about which there is a complaint is not read. -/
theorem Program.ofText_ne_ok {text : String}
    (h : ∃ l ∈ lex text.toList, l.complaint? ≠ none) (p : Program) :
    Program.ofText text ≠ .ok p := by
  obtain ⟨l, hl, hcomplaint⟩ := h
  obtain ⟨complaint, hsome⟩ := Option.ne_none_iff_exists'.1 hcomplaint
  intro hread
  unfold Program.ofText at hread
  dsimp only at hread
  split at hread
  · split at hread
    · next hempty =>
      have hnone := List.filterMap_eq_nil_iff.1 (List.isEmpty_iff.1 hempty) l hl
      rw [hsome] at hnone
      cases hnone
    · cases hread
  · cases hread

/-- A version whose second line starts with a sign that no token has ends the comment in which it
stands, and there is a complaint about the artifact. -/
theorem Program.exists_complaint_of_version (p : Program) {provenance : Provenance}
    {first more : List Char} (hfirst : '\n' ∉ first)
    (hversion : provenance.version.toList = first ++ '\n' :: '@' :: more) (profile : Profile) :
    ∃ l ∈ lex (p.print provenance ⟨profile, none⟩).text.toList, l.complaint? ≠ none := by
  have htext : ∃ rest, (p.print provenance ⟨profile, none⟩).text.toList =
      '/' :: ("/ Generated by pgc ".toList ++ first ++ '\n' :: '@' :: rest) := by
    simp only [Program.print, Artifact.preamble, Artifact.line, String.toList_append, hversion,
      List.append_assoc, List.cons_append]
    exact ⟨_, rfl⟩
  obtain ⟨rest, htext⟩ := htext
  -- The comment ends at the line break of the version, and the sign after it starts no token.
  have hline : '\n' ∉ '/' :: ("/ Generated by pgc ".toList ++ first) := by
    simpa using hfirst
  obtain ⟨hpiece, hrest⟩ := scan_comment rfl hline ('@' :: rest)
  obtain ⟨hblank, hafter⟩ := scan_blank (c := '\n') rfl ('@' :: rest)
  rw [htext]
  exact (Stumbles.blank hpiece hrest (.blank hblank hafter (stumbles_at rest))).exists_complaint
    _ _ (Nat.le_refl _)

/-- A program that makes one LED red. -/
def redProgram : Program where
  function := "red"
  frameWidth := 1
  slots := []
  temps := []
  body := .loop 1 [.store ⟨.out, .counter, some .r⟩ (.const 255)] .done

/-- A record of a build whose version has two lines. -/
def twoLineProvenance : Provenance := ⟨List.replicate 32 0, List.replicate 32 0, "1\n@"⟩

/-- The artifact of the program with a version of two lines is not read back: there is a complaint
about it, and no program is read from it. -/
theorem redProgram_unread : redProgram.Printable ∧ ∀ profile,
    (∃ l ∈ lex (redProgram.print twoLineProvenance ⟨profile, none⟩).text.toList,
      l.complaint? ≠ none) ∧
      ∀ q, Program.ofText (redProgram.print twoLineProvenance ⟨profile, none⟩).text ≠ .ok q := by
  have hp : redProgram.Printable := ⟨by decide, by decide, by decide, by decide, by decide⟩
  have hcomplaint : ∀ profile,
      ∃ l ∈ lex (redProgram.print twoLineProvenance ⟨profile, none⟩).text.toList,
        l.complaint? ≠ none :=
    redProgram.exists_complaint_of_version (by decide : '\n' ∉ ['1']) rfl
  exact ⟨hp, fun profile => ⟨hcomplaint profile, Program.ofText_ne_ok (hcomplaint profile)⟩⟩

end LedPattern
