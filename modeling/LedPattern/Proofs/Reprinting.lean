import LedPattern.Proofs.Planning
import LedPattern.Proofs.Recognition
import LedPattern.Proofs.RoundTrip

/-!
# Printing what was read

A program that was read from some text is printed, and its artifact is read again. Any text that the
parser accepts is meant here, not only a printed one: it may have blanks, comments and parentheses
of its own, leading zeros, and names that the grammar uses.

The names and counts that a text can have are those that are read again (`isProper_of_scan`), so the
program is spelled (`Program.spelled_of_ofText`). Its constants are literals of the text
(`Program.float_mem_of_ofTokens`). A literal may be too large for single precision, though. It is
infinite then, and is not printed as a literal. So the program is read again exactly if its
constants are finite (`reprint_reads_back_iff`).
-/

namespace LedPattern

open Lexer

/-! ## What texts consist of -/

/-- Whether a token is one that a text can have: identifiers are names, and counts are words. -/
def Token.isProper : Token → Bool
  | .ident name => isName name
  | .int value => value < Index.limit
  | _ => true

namespace Lexer

/-- A word of a text is a keyword or a name. -/
theorem isProper_wordToken {s : String} (h : isWord s = true) : (wordToken s).isProper = true := by
  unfold wordToken
  split
  · rfl
  · next hkeyword =>
    rw [Token.isProper, isName, h, hkeyword]
    rfl

/-- A number of a text is a constant, or a count that is a word. -/
theorem isProper_of_scanNumber {sign cs : List Char} {t : Token}
    (h : (scanNumber sign cs).piece = .token t) : t.isProper = true := by
  unfold scanNumber at h
  dsimp only at h
  split at h
  · cases h
    rfl
  · split at h
    · next hcount =>
      cases h
      simp only [Bool.and_eq_true] at hcount
      exact hcount.2
    · cases h

/-- A piece of a text that is a token is a proper one. -/
theorem isProper_of_scan {c : Char} {cs : List Char} {t : Token}
    (h : (scan c cs).piece = .token t) : t.isProper = true := by
  unfold scan at h
  split at h
  · cases h
  split at h
  · cases h
  split at h
  · exact isProper_of_scanNumber h
  split at h
  · exact isProper_of_scanNumber h
  split at h
  · unfold scanQuote at h
    dsimp only at h
    split at h <;> cases h
    rfl
  split at h
  · next hstart =>
    cases h
    -- A word has a first character, since it starts with one that may start it.
    refine isProper_wordToken ?_
    rw [List.takeWhile_cons_of_pos (isIdentifierChar_of_start hstart)]
    simp [isWord, hstart, isIdentifierChar_of_start hstart]
  · unfold scanSymbol at h
    split at h
    · cases h
      rfl
    · split at h <;> cases h
      rfl

/-- The tokens of a text are proper, wherever it starts. -/
theorem isProper_of_lexFrom {fuel start : Nat} {cs : List Char} :
    ∀ t ∈ tokens (lexFrom fuel start cs), t.isProper = true := by
  induction fuel generalizing start cs with
  | zero => simp [lexFrom, tokens]
  | succ fuel ih =>
    cases cs with
    | nil => simp [lexFrom, tokens]
    | cons c cs =>
      rw [lexFrom]
      split
      · exact ih
      · next piece hne =>
        intro t ht
        rw [tokens, List.filterMap_cons] at ht
        split at ht
        · exact ih t ht
        · next first hfirst =>
          rcases List.mem_cons.1 ht with rfl | ht
          · unfold Lexeme.token? at hfirst
            split at hfirst
            · next hpiece =>
              cases hfirst
              have hscan : (scan c cs).piece = .token t := hpiece
              exact isProper_of_scan hscan
            · cases hfirst
          · exact ih t ht

/-- The tokens of a text are proper. -/
theorem isProper_of_lex {cs : List Char} : ∀ t ∈ tokens (lex cs), t.isProper = true :=
  isProper_of_lexFrom

end Lexer

/-! ## What derivations stand for -/

/-- An index between proper tokens is read again. -/
theorem Index.isPrintable_of_tokens {index : Index} (h : ∀ t ∈ index.tokens, t.isProper = true) :
    index.isPrintable = true := by
  cases index with
  | counter => rfl
  | reverse last => exact h (.int last) List.mem_cons_self
  | offset base => exact h (.int base) List.mem_cons_self

/-- A place that is derived from proper tokens is read again. -/
theorem PlaceTree.isPrintable_value {d : PlaceTree} (h : ∀ t ∈ d.tokens, t.isProper = true) :
    d.value.isPrintable = true := by
  rw [tokens, List.forall_mem_cons, List.forall_mem_cons, List.forall_mem_append] at h
  obtain ⟨hname, -, hindex, -⟩ := h
  rw [value, Place.isPrintable, Bool.and_eq_true]
  refine ⟨?_, Index.isPrintable_of_tokens hindex⟩
  unfold Parser.targetOf
  split
  · rfl
  · next hout =>
    rw [Target.isPrintable, Bool.and_eq_true]
    exact ⟨hname, decide_eq_true hout⟩

namespace ExprTree

/-- An expression that is derived from proper tokens is spelled. -/
theorem isSpelled_value {l : Level} {d : ExprTree l} (h : ∀ t ∈ d.tokens, t.isProper = true) :
    d.value.isSpelled = true := by
  induction d with
  | const | counter | param | energy => rfl
  | paren inside ih =>
    simp only [tokens, List.forall_mem_cons, List.forall_mem_append] at h
    exact ih h.2.1
  | clamp inside low high hlow hhigh ih =>
    simp only [tokens, List.forall_mem_cons, List.forall_mem_append] at h
    exact ih h.2.2.1
  | floor inside ih =>
    simp only [tokens, List.forall_mem_cons, List.forall_mem_append] at h
    exact ih h.2.2.2.2.1
  | spectrum index =>
    simp only [tokens, List.forall_mem_cons, List.forall_mem_append] at h
    exact Index.isPrintable_of_tokens h.2.2.2.2.1
  | load place => exact PlaceTree.isPrintable_value h
  | ref name => exact h (.ident name) List.mem_cons_self
  | single only ih => exact ih h
  | join op hop lhs rhs ihl ihr =>
    simp only [tokens, List.forall_mem_cons, List.forall_mem_append] at h
    rw [value, Expr.isSpelled, ihl h.1, ihr h.2.2]
    rfl

/-- The constants of an expression are literals among the tokens that it is derived from. -/
theorem float_mem_tokens {l : Level} {d : ExprTree l} {v : Float32}
    (hv : v ∈ d.value.constants) : .float v ∈ d.tokens := by
  induction d with
  | const w =>
    obtain rfl := List.mem_singleton.1 hv
    exact List.mem_singleton.2 rfl
  | paren inside ih => simp [tokens, ih hv]
  | clamp inside low high hlow hhigh ih => simp [tokens, ih hv]
  | floor inside ih => simp [tokens, ih hv]
  | single only ih => exact ih hv
  | join op hop lhs rhs ihl ihr =>
    rw [tokens, List.mem_append]
    exact (List.mem_append.1 hv).imp ihl fun hv => List.mem_cons_of_mem _ (ihr hv)
  | _ => simp [value, Expr.constants] at hv

end ExprTree

namespace InstrTree

/-- An instruction that is derived from proper tokens is spelled. -/
theorem isSpelled_value {d : InstrTree} (h : ∀ t ∈ d.tokens, t.isProper = true) :
    d.value.isSpelled = true := by
  cases d with
  | bind name value =>
    simp only [tokens, List.forall_mem_cons, List.forall_mem_append] at h
    obtain ⟨-, -, hname, -, hvalue, -⟩ := h
    rw [InstrTree.value, Instr.isSpelled, ExprTree.isSpelled_value hvalue, Bool.and_true]
    exact hname
  | store place value =>
    rw [tokens, List.forall_mem_append, List.forall_mem_cons] at h
    obtain ⟨hplace, -, hrest⟩ := h
    have hvalue : ∀ t ∈ value.tokens, t.isProper = true := by
      intro t ht
      refine hrest t ?_
      split <;> simp [ht]
    rw [InstrTree.value, Instr.isSpelled, ExprTree.isSpelled_value hvalue, Bool.and_true]
    exact PlaceTree.isPrintable_value hplace

/-- The constants of an instruction are literals among its tokens. -/
theorem float_mem_tokens {d : InstrTree} {v : Float32} (hv : v ∈ d.value.value.constants) :
    .float v ∈ d.tokens := by
  cases d with
  | bind name value => simp [tokens, ExprTree.float_mem_tokens (d := value) hv]
  | store place value =>
    have hmem := ExprTree.float_mem_tokens (d := value) hv
    rw [tokens]
    split <;> simp [hmem]

end InstrTree

namespace BodyTree

/-- Statements that are derived from proper tokens are spelled. -/
theorem isSpelled_value {d : BodyTree} (h : ∀ t ∈ d.tokens, t.isProper = true) :
    d.value.isSpelled = true := by
  induction d with
  | done => rfl
  | loop count instrs rest ih =>
    rw [tokens, List.forall_mem_append, List.forall_mem_append, List.forall_mem_cons] at h
    obtain ⟨hhead, hinstrs, -, hrest⟩ := h
    have hcount : (Token.int count).isProper = true := hhead _ (by simp [loopHead])
    have hall : (instrs.map InstrTree.value).all Instr.isSpelled = true := by
      rw [List.all_map, List.all_eq_true]
      intro i hi
      exact InstrTree.isSpelled_value fun t ht => hinstrs t (List.mem_flatMap.2 ⟨i, hi, ht⟩)
    rw [value, Block.isSpelled, hall, ih hrest, Bool.and_true, Bool.and_true]
    exact hcount
  | branch test yes no rest ihyes ihno ih =>
    simp only [tokens, List.forall_mem_cons, List.forall_mem_append] at h
    obtain ⟨-, -, -, -, -, hyes, -, -, -, hno, -, hrest⟩ := h
    rw [value, Block.isSpelled, ihyes hyes, ihno hno, ih hrest]
    rfl

/-- The constants of statements are literals among their tokens. -/
theorem float_mem_tokens {d : BodyTree} {v : Float32} (hv : v ∈ d.value.constants) :
    .float v ∈ d.tokens := by
  induction d with
  | done => cases hv
  | loop count instrs rest ih =>
    rw [value, Block.constants, List.mem_append, List.mem_flatMap] at hv
    rw [tokens, List.mem_append, List.mem_append, List.mem_cons]
    rcases hv with ⟨_, hi, hv⟩ | hv
    · obtain ⟨i, hmem, rfl⟩ := List.mem_map.1 hi
      exact .inr (.inl (List.mem_flatMap.2 ⟨i, hmem, InstrTree.float_mem_tokens hv⟩))
    · exact .inr (.inr (.inr (ih hv)))
  | branch test yes no rest ihyes ihno ih =>
    simp only [value, Block.constants, List.mem_append] at hv
    simp only [tokens, List.mem_append, List.mem_cons, reduceCtorEq, false_or]
    rcases hv with hv | hv | hv | hv
    · cases test with
      | audioPresent => cases hv
      | energyAbove threshold =>
        obtain rfl := List.mem_singleton.1 hv
        exact .inl (by simp [Test.tokens])
    · exact .inr (.inl (ihyes hv))
    · exact .inr (.inr (.inl (ihno hv)))
    · exact .inr (.inr (.inr (ih hv)))

/-- There are no notes among statements that are derived. -/
theorem withoutNotes_value (d : BodyTree) : d.value.withoutNotes = d.value := by
  induction d with
  | done => rfl
  | loop count instrs rest ih => rw [value, Block.withoutNotes, ih]
  | branch test yes no rest ihyes ihno ih => rw [value, Block.withoutNotes, ihyes, ihno, ih]

end BodyTree

namespace Program

variable {ts : List Token} {p : Program}

/-- The constants of a program are literals among the tokens that it is read from. -/
theorem float_mem_of_ofTokens (h : ofTokens ts = .ok p) {v : Float32}
    (hv : v ∈ p.body.constants) : .float v ∈ ts := by
  obtain ⟨d, rfl, hd⟩ := ofTokens_eq_ok_iff.1 h
  obtain ⟨width, -, rfl⟩ := Option.map_eq_some_iff.1 hd
  have hmem := BodyTree.float_mem_tokens hv
  simp [ArtifactTree.tokens, hmem]

/-- A program that is read from tokens has nothing that an artifact does not give back. -/
theorem erased_of_ofTokens (h : ofTokens ts = .ok p) : p.erased = p := by
  obtain ⟨d, -, hd⟩ := ofTokens_eq_ok_iff.1 h
  obtain ⟨width, -, rfl⟩ := Option.map_eq_some_iff.1 hd
  rw [erased, BodyTree.withoutNotes_value, List.map_map]
  rfl

/-- A program that is read from proper tokens is spelled. -/
theorem spelled_of_ofTokens (h : ofTokens ts = .ok p) (hts : ∀ t ∈ ts, t.isProper = true) :
    p.Spelled := by
  obtain ⟨d, rfl, hd⟩ := ofTokens_eq_ok_iff.1 h
  obtain ⟨width, hwidth, rfl⟩ := Option.map_eq_some_iff.1 hd
  simp only [ArtifactTree.tokens, List.forall_mem_append, List.forall_mem_cons] at hts
  obtain ⟨hslots, hhead, -, htemps, hbody, -⟩ := hts
  refine ⟨?_, fun s hs => ?_, fun t ht => ?_, BodyTree.isSpelled_value hbody, hwidth⟩
  · exact hhead (.ident d.function) (by simp [ArtifactTree.signature, ArtifactTree.names])
  · obtain ⟨declaration, hmem, rfl⟩ := List.mem_map.1 hs
    have htokens : ∀ t ∈ (ArtifactTree.slotOf declaration).tokens, t.isProper = true :=
      fun t ht => hslots t (List.mem_flatMap.2 ⟨declaration, hmem, ht⟩)
    simp only [Slot.tokens, lengthTokens, List.forall_mem_cons] at htokens
    exact ⟨htokens.2.2.1, of_decide_eq_true htokens.2.2.2.2.1⟩
  · have htokens : ∀ token ∈ t.tokens, token.isProper = true :=
      fun token htoken => htemps token (List.mem_flatMap.2 ⟨t, ht, htoken⟩)
    simp only [Temp.tokens, lengthTokens, List.forall_mem_cons] at htokens
    exact ⟨htokens.2.1, of_decide_eq_true htokens.2.2.2.1⟩

/-- A program that is read from a text is spelled. -/
theorem spelled_of_ofText {text : String} (h : ofText text = .ok p) : p.Spelled :=
  spelled_of_ofTokens (ofTokens_of_ofText h) isProper_of_lex

/-- If a program is read again from its artifact, its constants are finite: the artifact has only
finite literals, and what is read from it has only these for constants. -/
theorem isFinite_of_reprint (hp : p.Spelled) {provenance : Provenance}
    (hversion : '\n' ∉ provenance.version.toList) {profile : Profile}
    (h : ofText (p.print provenance ⟨profile, none⟩).text = .ok p) :
    ∀ v ∈ p.body.constants, Single.isFinite v = true := by
  intro v hv
  have hmem := float_mem_of_ofTokens (ofTokens_of_ofText h) hv
  rw [(reads_lex (reads_printed hp hversion profile)).1] at hmem
  obtain ⟨t, -, ht⟩ := List.mem_flatMap.1 hmem
  exact Token.isFinite_of_printed ht

end Program

/-- A program that was read from some text is read again from its own artifact, under both profiles,
exactly if all its constants are finite. The version of the compiler, which the artifact has in a
comment, has to be one line. -/
theorem reprint_reads_back_iff {text : String} {p : Program} (h : Program.ofText text = .ok p)
    (provenance : Provenance) (hversion : '\n' ∉ provenance.version.toList) (profile : Profile) :
    Program.ofText (p.print provenance ⟨profile, none⟩).text = .ok p ↔
      ∀ v ∈ p.body.constants, Single.isFinite v = true := by
  have hspelled := Program.spelled_of_ofText h
  refine ⟨Program.isFinite_of_reprint hspelled hversion, fun hfinite => ?_⟩
  have hp := Program.printable_iff.2 ⟨hspelled, hfinite⟩
  have hagain := Program.ofTokens_tokens hp profile
  -- What was read has neither notes nor owners that an artifact would lose.
  rw [Program.erased_of_ofTokens (Program.ofTokens_of_ofText h)] at hagain
  exact Program.ofText_of_reads (Program.reads_print hp hversion profile) hagain

/-- A text that no printer writes: attributes and parentheses that are not needed, leading zeros, a
local with a name that the grammar uses, bounds of a clamp spelled in other ways, and a constant
near the largest. -/
def untidyText : String :=
  "extern \"C\" void IRAM_ATTR IRAM_ATTR out(float time, const AudioSnapshot* audio, "
    ++ "const PatternParameters& params, CRGB8* out)\x7bfloat std[003]=\x7b\x7d;"
    ++ "for(int i=00;i<2;++i)\x7bconst float clamp_val=((3.4e38f))-(-0.0f);// bind\n"
    ++ "std[01+i]=clamp_val(clamp_val,-0e9f,01.0f);out[i].g=(uint8_t)((std[i]));\x7d\x7d"

/-- The program of `untidyText` is read again from its artifact. -/
theorem untidyText_reads_back : ∃ p, Program.ofText untidyText = .ok p ∧
    (∀ v ∈ p.body.constants, Single.isFinite v = true) ∧ p.body.constants.length = 2 ∧
    ∀ profile, Program.ofText (p.print (Provenance.ofSource "") ⟨profile, none⟩).text = .ok p := by
  have hread : (Program.ofText untidyText).toOption.map (fun p =>
      (p.body.constants.all Single.isFinite, p.body.constants.length)) = some (true, 2) := by
    decide +kernel
  obtain ⟨p, hp, hconstants⟩ := Except.exists_ok_of_map hread
  obtain ⟨hall, hcount⟩ := Prod.mk.inj hconstants
  have hfinite := List.all_eq_true.1 hall
  exact ⟨p, hp, hfinite, hcount, fun profile =>
    (reprint_reads_back_iff hp (Provenance.ofSource "") (by decide) profile).2 hfinite⟩

/-- A text with a constant that is too large for single precision. -/
def overflowText : String :=
  "extern \"C\" void f(float time, const AudioSnapshot* audio, const PatternParameters& params, "
    ++ "CRGB8* out) \x7b\n    for (int i = 0; i < 1; ++i) \x7b\n"
    ++ "        out[i].r = (uint8_t)(1e39f);\n    \x7d\n\x7d\n"

/-- A text with a constant that is too large is read as a program, which is not read again from its
artifact. -/
theorem overflowText_changes : ∃ p, Program.ofText overflowText = .ok p ∧
    ∀ provenance : Provenance, '\n' ∉ provenance.version.toList → ∀ profile,
      Program.ofText (p.print provenance ⟨profile, none⟩).text ≠ .ok p := by
  have hread : (Program.ofText overflowText).toOption.map (fun p =>
      p.body.constants.all Single.isFinite) = some false := by
    decide +kernel
  obtain ⟨p, hp, hinfinite⟩ := Except.exists_ok_of_map hread
  refine ⟨p, hp, fun provenance hversion profile hagain => ?_⟩
  have hfinite := Program.isFinite_of_reprint (Program.spelled_of_ofText hp) hversion hagain
  rw [List.all_eq_true.2 hfinite] at hinfinite
  cases hinfinite

end LedPattern
