import LedPattern.Proofs.Printing

/-!
# The rules of the parser

What the rules without recursion do on the tokens that they are for: each takes them off the front
of some tokens and leaves what follows. A repetition takes off what its items take off
(`Parser.many_items`), and a chain of operands is followed operator by operator
(`Parser.Continues`).

Where an operand ends is told by the strength of the sign that comes next (`Parser.Follows`). The
names that mean something to the grammar are plain names before such a sign (`Parser.atom_ref`).
-/

namespace LedPattern

namespace Parser

/-! ## Tokens that are expected -/

/-- Expected tokens are taken off. -/
@[simp]
theorem expect_append (es ts : List Token) : expect es (es ++ ts) = some ts := by
  induction es with
  | nil => rfl
  | cons e es ih => simp only [List.cons_append, expect, if_true, ih]

/-- What is expected stands at the front. -/
theorem eq_append_of_expect {es ts rest : List Token} (h : expect es ts = some rest) :
    ts = es ++ rest := by
  induction es generalizing ts with
  | nil => exact Option.some.inj h
  | cons e es ih =>
    cases ts with
    | nil => cases h
    | cons t ts =>
      unfold expect at h
      split at h
      · next heq => rw [heq, ih h, List.cons_append]
      · cases h

/-- A symbol that is expected is taken off. -/
@[simp]
theorem expectSymbol_cons (sign : Symbol) (ts : List Token) :
    expectSymbol sign (.symbol sign :: ts) = some ts :=
  expect_append [.symbol sign] ts

/-! ## What may follow -/

/-- The strength of a sign that may follow an operand: that of the operator, or zero for a sign
after which no expression goes on. -/
def strength? : Symbol → Option Nat
  | .plus | .minus => some 1
  | .star | .slash => some 2
  | .rightParen | .comma | .semicolon => some 0
  | _ => none

/-- The next token is a sign of strength `n` at most. -/
def Follows (n : Nat) : List Token → Prop
  | .symbol sign :: _ => ∃ k ≤ n, strength? sign = some k
  | _ => False

/-- What follows one expression follows a stronger one. -/
theorem Follows.mono {m n : Nat} {ts : List Token} (h : Follows m ts) (hmn : m ≤ n) :
    Follows n ts := by
  unfold Follows at h ⊢
  split at h
  · obtain ⟨k, hk, hsign⟩ := h
    exact ⟨k, Nat.le_trans hk hmn, hsign⟩
  · exact h.elim

/-- A sign of some strength may follow what is as strong. -/
theorem follows_cons {n : Nat} (sign : Symbol) (h : strength? sign = some n) (ts : List Token) :
    Follows n (.symbol sign :: ts) :=
  ⟨n, Nat.le_refl n, h⟩

/-- The sign of an operator is as strong as the operator. -/
theorem strength?_sign (op : BinOp) : strength? op.sign = some op.precedence := by
  cases op <;> rfl

/-- The sign that follows, made explicit. -/
theorem Follows.sign {n : Nat} {ts : List Token} (h : Follows n ts) :
    ∃ sign rest k, ts = .symbol sign :: rest ∧ k ≤ n ∧ strength? sign = some k := by
  unfold Follows at h
  split at h
  · obtain ⟨k, hk, hsign⟩ := h
    exact ⟨_, _, k, rfl, hk, hsign⟩
  · exact h.elim

/-! ## Operands -/

/-- An index between brackets is taken off. -/
theorem index_tokens (ix : Index) (rest : List Token) :
    index (.symbol .leftBracket :: (ix.tokens ++ .symbol .rightBracket :: rest)) =
      some (ix, rest) := by
  cases ix <;> simp [index, Index.tokens, indexInside]

/-- A color is taken off, if it is there. -/
theorem channel_tokens (c : Option Channel) {rest : List Token}
    (hrest : rest.head? ≠ some (.symbol .dot)) :
    channel (Channel.tokens c ++ rest) = (c, rest) := by
  cases c with
  | none =>
    unfold channel
    split
    · rename_i heq
      rw [Channel.tokens, List.nil_append] at heq
      rw [heq] at hrest
      exact absurd rfl hrest
    · rfl
  | some c =>
    have hname : Channel.ofName? c.name = some c := by cases c <;> decide
    simp only [Channel.tokens, List.cons_append, List.nil_append, channel, hname]

section

variable (inner : Rule SourceExpr)

/-- The names that mean more than a local do so only before a sign that no operand has after its
first name. -/
theorem atom_ident (name : String) (sign : Symbol) (rest : List Token)
    (hsign : sign ∉ [.leftParen, .colons, .dot, .arrow]) :
    atom inner (.ident name :: .symbol sign :: rest) =
      (((place (.ident name :: .symbol sign :: rest)).map fun (p, ts) => (.load p, ts))
        <|> some (.ref name, .symbol sign :: rest)) := by
  simp only [List.mem_cons, List.not_mem_nil, or_false, not_or] at hsign
  obtain ⟨hparen, hcolons, hdot, harrow⟩ := hsign
  have hclamp : clamp inner (.ident name :: .symbol sign :: rest) = none := by
    simp [clamp, expect, parenthesized, expectSymbol, Ne.symm hparen]
  have hfloor : floorOf inner (.ident name :: .symbol sign :: rest) = none := by
    simp [floorOf, expect, Ne.symm hcolons]
  have hparameter : parameter (.ident name :: .symbol sign :: rest) = none := by
    simp [parameter, expect, Ne.symm hdot]
  have hspectrum : spectrum (.ident name :: .symbol sign :: rest) = none := by
    simp [spectrum, expect, Ne.symm harrow]
  have henergy : energy (.ident name :: .symbol sign :: rest) = none := by
    simp [energy, expect, Ne.symm harrow]
  rw [atom, hclamp, hfloor, hparameter, hspectrum, henergy]
  rfl

/-- A sign that may follow an operand has no use after its first name. -/
theorem not_mem_of_strength {sign : Symbol} {k : Nat} (h : strength? sign = some k) :
    sign ∉ [.leftParen, .colons, .dot, .arrow] := by
  have hnone : ∀ s ∈ [Symbol.leftParen, .colons, .dot, .arrow], strength? s = none := by decide
  intro hmem
  rw [hnone sign hmem] at h
  cases h

/-- A local is an operand. -/
theorem atom_ref (name : String) {rest : List Token} (hrest : Follows 2 rest) :
    atom inner (.ident name :: rest) = some (.ref name, rest) := by
  obtain ⟨sign, after, k, rfl, -, hsign⟩ := hrest.sign
  have hindex : index (.symbol sign :: after) = none := by
    have hbracket : sign ≠ .leftBracket := by
      rintro rfl
      cases hsign
    simp [index, expectSymbol, expect, Ne.symm hbracket]
  have hplace : place (.ident name :: .symbol sign :: after) = none := by
    simp only [place, identifier, Option.bind_eq_bind, Option.bind_some, hindex, Option.bind_none]
  rw [atom_ident inner name sign after (not_mem_of_strength hsign), hplace]
  rfl

end

/-! ## Chains of operands -/

/-- A chain has read `e` and goes on with the tokens `rest`, with fuel for each of them. -/
def Continues (op : Rule BinOp) (operand : Rule SourceExpr) (e : SourceExpr)
    (ts rest : List Token) : Prop :=
  ∃ n, rest.length ≤ n ∧ chain op operand ts = some (chainFrom op operand n e rest)

section

variable {op : Rule BinOp} {operand : Rule SourceExpr} {ts rest : List Token}

/-- The first operand starts a chain. -/
theorem continues_of_operand {e : SourceExpr} (h : operand ts = some (e, rest)) :
    Continues op operand e ts rest :=
  ⟨rest.length, Nat.le_refl _, by simp only [chain, h, Option.bind_eq_bind, Option.bind_some]⟩

/-- An operator and an operand prolong a chain. -/
theorem Continues.step {a b : SourceExpr} {o : BinOp} {before after : List Token}
    (h : Continues op operand a ts before) (hop : op before = some (o, after))
    (hb : operand after = some (b, rest)) (hlength : rest.length < before.length) :
    Continues op operand (.binary o a b) ts rest := by
  obtain ⟨n, hn, hchain⟩ := h
  obtain ⟨n, rfl⟩ : ∃ m, n = m + 1 := ⟨n - 1, by omega⟩
  refine ⟨n, by omega, ?_⟩
  rw [hchain, chainFrom, hop]
  simp only [hb]

/-- A chain ends where no operator follows. -/
theorem Continues.stop {e : SourceExpr} (h : Continues op operand e ts rest)
    (hop : op rest = none) : chain op operand ts = some (e, rest) := by
  obtain ⟨n, -, hchain⟩ := h
  rw [hchain]
  cases n with
  | zero => rfl
  | succ n => rw [chainFrom, hop]

end

/-- Before a weaker sign a product ends. -/
theorem productOp_eq_none {rest : List Token} (h : Follows 1 rest) : productOp rest = none := by
  obtain ⟨sign, after, k, rfl, hk, hsign⟩ := h.sign
  cases sign <;> first | rfl | (cases hsign; omega)

/-- Before a weaker sign a sum ends. -/
theorem sumOp_eq_none {rest : List Token} (h : Follows 0 rest) : sumOp rest = none := by
  obtain ⟨sign, after, k, rfl, hk, hsign⟩ := h.sign
  cases sign <;> first | rfl | (cases hsign; omega)

/-! ## Repetitions -/

section

variable {α β : Type} {item : Rule β} {tokens : α → List Token}

/-- Items are taken off as far as they go, if none can be taken off what follows. -/
theorem many_flatMap (value : α → β) (hitem : ∀ a r, item (tokens a ++ r) = some (value a, r))
    {r : List Token} (hr : item r = none) {items : List α} {fuel : Nat}
    (hfuel : items.length ≤ fuel) :
    many item fuel (items.flatMap tokens ++ r) = (items.map value, r) := by
  induction items generalizing fuel with
  | nil =>
    cases fuel with
    | zero => rfl
    | succ fuel => simp only [List.flatMap_nil, List.nil_append, many, hr, List.map_nil]
  | cons a items ih =>
    obtain ⟨fuel, rfl⟩ : ∃ m, fuel = m + 1 := ⟨fuel - 1, by rw [List.length_cons] at hfuel; omega⟩
    have hmore := ih (Nat.le_of_succ_le_succ hfuel)
    simp only [List.flatMap_cons, List.append_assoc, many, hitem, hmore, List.map_cons]

/-- Items that each have a token are no more than their tokens. -/
theorem length_le_flatMap (hne : ∀ a, tokens a ≠ []) (items : List α) :
    items.length ≤ (items.flatMap tokens).length := by
  induction items with
  | nil => exact Nat.le_refl 0
  | cons a items ih =>
    have hpos := List.length_pos_of_ne_nil (hne a)
    rw [List.flatMap_cons, List.length_append, List.length_cons]
    omega

/-- The number of tokens is enough for all items. -/
theorem many_items (value : α → β) (hitem : ∀ a r, item (tokens a ++ r) = some (value a, r))
    (hne : ∀ a, tokens a ≠ []) (items : List α) {r : List Token} (hr : item r = none) :
    many item (items.flatMap tokens ++ r).length (items.flatMap tokens ++ r) =
      (items.map value, r) := by
  have hlength := length_le_flatMap hne items
  refine many_flatMap value hitem hr ?_
  rw [List.length_append]
  omega

end

/-! ## Statements and declarations -/

/-- A test between parentheses is taken off. -/
theorem test_tokens (t : Test) (rest : List Token) :
    test (.symbol .leftParen :: (t.tokens ++ .symbol .rightParen :: rest)) = some (t, rest) := by
  cases t <;> rfl

/-- The closing brace of a sequence starts no statement. -/
theorem bodyWithin_close (fuel : Nat) (rest : List Token) :
    bodyWithin fuel (.symbol .rightBrace :: rest) = (.done, .symbol .rightBrace :: rest) := by
  cases fuel <;> rfl

/-- A name and a length are taken off. -/
theorem arrayDeclaration_tokens (symbol : String) (len : Nat) (rest : List Token) :
    arrayDeclaration (.ident symbol :: (lengthTokens len ++ rest)) =
      some ((symbol, len), rest) := by
  simp [arrayDeclaration, lengthTokens, identifier, Parser.count, expect]

/-- The declaration of a slot is taken off, with the symbol for an owner. -/
theorem slot_tokens (s : Slot) (rest : List Token) :
    slot (s.tokens ++ rest) = some (⟨s.symbol, s.symbol, s.len⟩, rest) := by
  simp [slot, Slot.tokens, expect, arrayDeclaration_tokens]

/-- The declaration of a temporary is taken off. -/
theorem temp_tokens (t : Temp) (rest : List Token) : temp (t.tokens ++ rest) = some (t, rest) := by
  obtain ⟨symbol, elem, len⟩ := t
  cases elem <;> simp [temp, Temp.tokens, Elem.token, Parser.elem, arrayDeclaration_tokens]

end Parser

end LedPattern
