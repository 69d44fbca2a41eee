import LedPattern.Proofs.Grammar
import LedPattern.Proofs.Parsing

/-!
# The grammar of artifacts is unambiguous

No tokens have two derivations (`ArtifactTree.tokens_injective`). For an operand, its first tokens
tell the production (`ExprTree.lead_tokens`). A chain is taken apart into its operands from left to
right (`ExprTree.exists_graft`), and where an operand ends is told by the sign that comes next, as
for the parser (`Parser.Follows`). All this is for derivations with any tokens behind them, by
induction on the number of tokens (`ExprTree.unique`).
-/

namespace LedPattern

open LedPattern.Parser

/-! ## What may follow -/

/-- The strength of the signs that may follow an expression of some level. -/
def Level.strength : Level → Nat
  | .operand => 2
  | .chain .product => 1
  | .chain .sum => 0

/-- The operands of a tier may be followed by stronger signs than its chains. -/
theorem Tier.strength_operand (t : Tier) :
    t.operand.strength = (Level.chain t).strength + 1 := by
  cases t <;> rfl

/-- An operator follows the operands of its tier. -/
theorem BinOp.follows {op : BinOp} {t : Tier} (hop : op.tier = t) (ts : List Token) :
    Follows t.operand.strength (.symbol op.sign :: ts) := by
  subst hop
  cases op <;> exact follows_cons _ rfl ts

/-- An operator does not follow a whole chain of its tier. -/
theorem BinOp.not_follows {op : BinOp} {t : Tier} (hop : op.tier = t) (ts : List Token) :
    ¬Follows (Level.chain t).strength (.symbol op.sign :: ts) := by
  rintro ⟨k, hk, hsign⟩
  subst hop
  rw [strength?_sign, Option.some.injEq] at hsign
  subst hsign
  cases op <;> exact absurd hk (by decide)

/-- Operators differ in their signs. -/
theorem BinOp.sign_injective {op op' : BinOp} (h : op.sign = op'.sign) : op = op' := by
  cases op <;> cases op' <;> first | rfl | cases h

/-! ## Places -/

/-- The tokens of a place determine it, unless more of it follows. -/
theorem PlaceTree.unique {p p' : PlaceTree} {r r' : List Token}
    (hr : r.head? ≠ some (.symbol .dot)) (hr' : r'.head? ≠ some (.symbol .dot))
    (h : p.tokens ++ r = p'.tokens ++ r') : p = p' ∧ r = r' := by
  obtain ⟨name, index, channel⟩ := p
  obtain ⟨name', index', channel'⟩ := p'
  simp only [tokens, List.cons_append, List.append_assoc, List.cons.injEq, Token.ident.injEq,
    true_and] at h
  obtain ⟨rfl, h⟩ := h
  -- The parser reads each of the two off the same tokens.
  have hindex := congrArg (fun ts => Parser.index (.symbol .leftBracket :: ts)) h
  simp only [index_tokens, Option.some.injEq, Prod.mk.injEq] at hindex
  obtain ⟨rfl, hrest⟩ := hindex
  have hchannel := congrArg Parser.channel hrest
  rw [channel_tokens _ hr, channel_tokens _ hr', Prod.mk.injEq] at hchannel
  obtain ⟨rfl, rfl⟩ := hchannel
  exact ⟨rfl, rfl⟩

/-- A sign that may follow an operand is no dot. -/
theorem Parser.Follows.head_ne_dot {n : Nat} {r : List Token} (h : Follows n r) :
    r.head? ≠ some (.symbol .dot) := by
  obtain ⟨sign, after, k, rfl, -, hsign⟩ := h.sign
  rintro heq
  cases heq
  cases hsign

/-- Parameters differ in their names. -/
theorem ParamField.name_injective {a b : ParamField} (h : a.name = b.name) : a = b := by
  cases a <;> cases b <;> first | rfl | exact absurd h (by decide)

/-! ## Operands -/

/-- The productions of operands. -/
inductive Lead where
  | literal
  | cast
  | group
  | call
  | path
  | field
  | bin
  | energy
  | element
  | name

/-- The production of an operand, read off its first tokens. -/
def Lead.of : List Token → Lead
  | .symbol _ :: .keyword _ :: _ => .cast
  | .symbol _ :: _ => .group
  | .ident _ :: .symbol .leftParen :: _ => .call
  | .ident _ :: .symbol .colons :: _ => .path
  | .ident _ :: .symbol .dot :: _ => .field
  | .ident _ :: .symbol .arrow :: .ident word :: _ => if word = "spectrum" then .bin else .energy
  | .ident _ :: .symbol .leftBracket :: _ => .element
  | .ident _ :: _ => .name
  | _ => .literal

namespace ExprTree

/-- The production of an operand. -/
def lead : ExprTree .operand → Lead
  | .const _ => .literal
  | .counter => .cast
  | .paren _ => .group
  | .clamp _ _ _ _ _ => .call
  | .floor _ => .path
  | .param _ => .field
  | .spectrum _ => .bin
  | .energy => .energy
  | .load _ => .element
  | .ref _ => .name

/-- An expression has a first token, which is no keyword. -/
theorem tokens_head {l : Level} (d : ExprTree l) :
    ∃ t ts, d.tokens = t :: ts ∧ ∀ word, t ≠ .keyword word := by
  induction d with
  | const | counter | paren | clamp | floor | param | spectrum | energy | load | ref =>
    exact ⟨_, _, rfl, fun _ => Token.noConfusion⟩
  | single _ ih => exact ih
  | join op _ lhs rhs ih _ =>
    obtain ⟨t, ts, hts, ht⟩ := ih
    exact ⟨t, ts ++ .symbol op.sign :: rhs.tokens, by rw [tokens, hts]; rfl, ht⟩

/-- The first tokens of an operand tell its production. -/
theorem lead_tokens (d : ExprTree .operand) {r : List Token} (hr : Follows 2 r) :
    Lead.of (d.tokens ++ r) = d.lead := by
  cases d with
  | const | counter | clamp | floor | param | spectrum | energy | load => rfl
  | paren inside =>
    obtain ⟨t, ts, hts, ht⟩ := inside.tokens_head
    rw [tokens, hts]
    cases t with
    | keyword word => exact absurd rfl (ht word)
    | _ => rfl
  | ref name =>
    obtain ⟨sign, after, k, rfl, -, hsign⟩ := hr.sign
    cases sign <;> first | rfl | cases hsign

/-- Derivations of level `l` with at most `n` tokens are determined by their tokens, before signs
that may follow. -/
def Unique (l : Level) (n : Nat) : Prop :=
  ∀ (d d' : ExprTree l) {r r' : List Token}, d.tokens.length ≤ n → Follows l.strength r →
    Follows l.strength r' → d.tokens ++ r = d'.tokens ++ r' → d = d' ∧ r = r'

/-- An expression inside an operand is determined by its tokens, since it is shorter and ends at a
parenthesis or a comma. -/
theorem inside_unique {n : Nat} (hinside : ∀ m < n, Unique (.chain .sum) m) (x y : SumTree)
    {sign sign' : Symbol} {u u' : List Token} (hlt : x.tokens.length < n)
    (hsign : strength? sign = some 0) (hsign' : strength? sign' = some 0)
    (h : x.tokens ++ .symbol sign :: u = y.tokens ++ .symbol sign' :: u') : x = y ∧ u = u' := by
  obtain ⟨rfl, hrest⟩ := hinside x.tokens.length hlt x y (Nat.le_refl _)
    (follows_cons sign hsign u) (follows_cons sign' hsign' u') h
  exact ⟨rfl, (List.cons.inj hrest).2⟩

/-- Operands are determined by their tokens, if the shorter expressions inside them are. -/
theorem operand_unique {n : Nat} (hinside : ∀ m < n, Unique (.chain .sum) m) :
    Unique .operand n := by
  intro d d' r r' hlength hr hr' h
  -- Two derivations of the same tokens use the same production, so only equal cases are left.
  have hlead : d.lead = d'.lead := by rw [← lead_tokens d hr, h, lead_tokens d' hr']
  cases d with
  | const v =>
    cases d' with
    | const w =>
      cases h
      exact ⟨rfl, rfl⟩
    | _ => cases hlead
  | counter =>
    cases d' with
    | counter =>
      cases h
      exact ⟨rfl, rfl⟩
    | _ => cases hlead
  | paren x =>
    cases d' with
    | paren y =>
      simp only [tokens, List.length_cons, List.length_append] at hlength
      simp only [tokens, List.cons_append, List.append_assoc, List.cons.injEq, true_and] at h
      obtain ⟨rfl, hrest⟩ := inside_unique hinside x y (by omega) rfl rfl h
      cases hrest
      exact ⟨rfl, rfl⟩
    | _ => cases hlead
  | clamp x low high hlow hhigh =>
    cases d' with
    | clamp y low' high' hlow' hhigh' =>
      simp only [tokens, List.length_cons, List.length_append] at hlength
      simp only [tokens, List.cons_append, List.append_assoc, List.cons.injEq, true_and] at h
      obtain ⟨rfl, hrest⟩ := inside_unique hinside x y (by omega) rfl rfl h
      cases hrest
      exact ⟨rfl, rfl⟩
    | _ => cases hlead
  | floor x =>
    cases d' with
    | floor y =>
      simp only [tokens, List.length_cons, List.length_append] at hlength
      simp only [tokens, List.cons_append, List.append_assoc, List.cons.injEq, true_and] at h
      obtain ⟨rfl, hrest⟩ := inside_unique hinside x y (by omega) rfl rfl h
      cases hrest
      exact ⟨rfl, rfl⟩
    | _ => cases hlead
  | param field =>
    cases d' with
    | param field' =>
      simp only [tokens, List.cons_append, List.cons.injEq, Token.ident.injEq, true_and] at h
      obtain rfl := ParamField.name_injective h.1
      exact ⟨rfl, h.2⟩
    | _ => cases hlead
  | spectrum index =>
    cases d' with
    | spectrum index' =>
      simp only [tokens, List.cons_append, List.append_assoc, List.cons.injEq, true_and] at h
      have hindex := congrArg (fun ts => Parser.index (.symbol .leftBracket :: ts)) h
      simp only [List.nil_append, index_tokens, Option.some.injEq, Prod.mk.injEq] at hindex
      obtain ⟨rfl, rfl⟩ := hindex
      exact ⟨rfl, rfl⟩
    | _ => cases hlead
  | energy =>
    cases d' with
    | energy =>
      cases h
      exact ⟨rfl, rfl⟩
    | _ => cases hlead
  | load p =>
    cases d' with
    | load p' =>
      obtain ⟨rfl, rfl⟩ := PlaceTree.unique hr.head_ne_dot hr'.head_ne_dot h
      exact ⟨rfl, rfl⟩
    | _ => cases hlead
  | ref name =>
    cases d' with
    | ref name' =>
      cases h
      exact ⟨rfl, rfl⟩
    | _ => cases hlead

/-! ## Chains -/

/-- An operator of a tier and the operand after it. -/
structure Link (t : Tier) where
  op : BinOp
  hop : op.tier = t
  rhs : ExprTree t.operand

/-- The tokens of a link. -/
def Link.tokens {t : Tier} (link : Link t) : List Token := .symbol link.op.sign :: link.rhs.tokens

/-- A chain prolonged by some links. -/
def graft {t : Tier} (d : ExprTree (.chain t)) (links : List (Link t)) : ExprTree (.chain t) :=
  links.foldl (fun lhs link => .join link.op link.hop lhs link.rhs) d

/-- A chain consists of an operand and of links. -/
theorem exists_graft {t : Tier} : (d : ExprTree (.chain t)) →
    ∃ first links, d = graft (.single first) links
  | .single first => ⟨first, [], rfl⟩
  | .join op hop lhs rhs => by
    obtain ⟨first, links, hlhs⟩ := exists_graft lhs
    refine ⟨first, links ++ [⟨op, hop, rhs⟩], ?_⟩
    rw [hlhs, graft, graft, List.foldl_append]
    rfl

/-- The tokens of a chain are those of its parts. -/
theorem tokens_graft {t : Tier} (d : ExprTree (.chain t)) (links : List (Link t)) :
    (graft d links).tokens = d.tokens ++ links.flatMap Link.tokens := by
  induction links generalizing d with
  | nil => exact (List.append_nil _).symm
  | cons link links ih =>
    show (graft (.join link.op link.hop d link.rhs) links).tokens = _
    rw [ih, tokens, List.flatMap_cons, Link.tokens, List.append_assoc]

section

variable {t : Tier} {n : Nat} {r r' : List Token}

/-- An operand of a chain may be followed by more links, or by what follows the chain. -/
theorem follows_links (links : List (Link t)) (hr : Follows (Level.chain t).strength r) :
    Follows t.operand.strength (links.flatMap Link.tokens ++ r) := by
  cases links with
  | nil =>
    refine hr.mono ?_
    rw [t.strength_operand]
    exact Nat.le_succ _
  | cons link links => exact BinOp.follows link.hop _

/-- Links are determined by their tokens, if operands are. -/
theorem links_unique (hoperand : Unique t.operand n) {links links' : List (Link t)}
    (hlength : (links.flatMap Link.tokens).length ≤ n) (hr : Follows (Level.chain t).strength r)
    (hr' : Follows (Level.chain t).strength r')
    (h : links.flatMap Link.tokens ++ r = links'.flatMap Link.tokens ++ r') :
    links = links' ∧ r = r' := by
  induction links generalizing links' with
  | nil =>
    cases links' with
    | nil => exact ⟨rfl, h⟩
    | cons link' links' =>
      -- What follows the one chain would be an operator of the other.
      rw [List.flatMap_nil, List.nil_append] at h
      rw [h] at hr
      exact absurd hr (BinOp.not_follows link'.hop _)
  | cons link links ih =>
    cases links' with
    | nil =>
      rw [List.flatMap_nil, List.nil_append] at h
      rw [← h] at hr'
      exact absurd hr' (BinOp.not_follows link.hop _)
    | cons link' links' =>
      obtain ⟨op, hop, rhs⟩ := link
      obtain ⟨op', hop', rhs'⟩ := link'
      simp only [List.flatMap_cons, Link.tokens, List.length_append, List.length_cons] at hlength
      simp only [List.flatMap_cons, Link.tokens, List.cons_append, List.append_assoc,
        List.cons.injEq, Token.symbol.injEq] at h
      obtain ⟨hsign, h⟩ := h
      obtain rfl := BinOp.sign_injective hsign
      obtain ⟨rfl, hrest⟩ := hoperand rhs rhs' (by omega) (follows_links links hr)
        (follows_links links' hr') h
      obtain ⟨rfl, rfl⟩ := ih (by omega) hrest
      exact ⟨rfl, rfl⟩

/-- Chains are determined by their tokens, if their operands are. -/
theorem chain_unique (hoperand : Unique t.operand n) : Unique (.chain t) n := by
  intro d d' r r' hlength hr hr' h
  obtain ⟨first, links, rfl⟩ := exists_graft d
  obtain ⟨first', links', rfl⟩ := exists_graft d'
  rw [tokens_graft, List.length_append] at hlength
  rw [tokens_graft, tokens_graft, List.append_assoc, List.append_assoc] at h
  obtain ⟨rfl, hrest⟩ := hoperand first first' (Nat.le_trans (Nat.le_add_right _ _) hlength)
    (follows_links links hr) (follows_links links' hr') h
  obtain ⟨rfl, rfl⟩ := links_unique hoperand (by omega) hr hr' hrest
  exact ⟨rfl, rfl⟩

end

/-- Expressions are determined by their tokens. -/
theorem sum_unique (n : Nat) : Unique (.chain .sum) n := by
  induction n using Nat.strongRecOn with
  | ind n ih => exact chain_unique (t := .sum) (chain_unique (t := .product) (operand_unique ih))

/-- Expressions are determined by their tokens, before a sign that ends them. -/
theorem unique {d d' : SumTree} {sign sign' : Symbol} {r r' : List Token}
    (hsign : strength? sign = some 0) (hsign' : strength? sign' = some 0)
    (h : d.tokens ++ .symbol sign :: r = d'.tokens ++ .symbol sign' :: r') : d = d' ∧ r = r' := by
  obtain ⟨rfl, hrest⟩ := sum_unique _ d d' (Nat.le_refl _) (follows_cons sign hsign r)
    (follows_cons sign' hsign' r') h
  exact ⟨rfl, (List.cons.inj hrest).2⟩

end ExprTree

/-! ## Statements -/

/-- Instructions are determined by their tokens. -/
theorem InstrTree.unique {i i' : InstrTree} {r r' : List Token}
    (h : i.tokens ++ r = i'.tokens ++ r') : i = i' ∧ r = r' := by
  cases i with
  | bind name value =>
    cases i' with
    | bind name' value' =>
      simp only [tokens, List.cons_append, List.append_assoc, List.cons.injEq, Token.ident.injEq,
        true_and, List.nil_append] at h
      obtain ⟨rfl, h⟩ := h
      obtain ⟨rfl, rfl⟩ := ExprTree.unique rfl rfl h
      exact ⟨rfl, rfl⟩
    | store => cases h
  | store place value =>
    cases i' with
    | bind => cases h
    | store place' value' =>
      simp only [tokens, List.append_assoc, List.cons_append] at h
      obtain ⟨rfl, hassign⟩ := PlaceTree.unique (by simp) (by simp) h
      have hvalue := (List.cons.inj hassign).2
      -- The places are the same, so both values are converted to bytes or neither is.
      split at hvalue
      · simp only [List.cons_append, List.append_assoc, List.cons.injEq, true_and,
          List.nil_append] at hvalue
        obtain ⟨rfl, hrest⟩ := ExprTree.unique rfl rfl hvalue
        exact ⟨rfl, (List.cons.inj hrest).2⟩
      · simp only [List.append_assoc, List.cons_append, List.nil_append] at hvalue
        obtain ⟨rfl, rfl⟩ := ExprTree.unique rfl rfl hvalue
        exact ⟨rfl, rfl⟩

/-- Lists are determined by the tokens of their items, if each item is, and if what follows the
list starts no item. -/
theorem flatMap_unique {α : Type} {tokens : α → List Token}
    (hitem : ∀ {a a' : α} {r r' : List Token}, tokens a ++ r = tokens a' ++ r' → a = a' ∧ r = r')
    {l l' : List α} {r r' : List Token} (hr : ∀ a ts, tokens a ++ ts ≠ r)
    (hr' : ∀ a ts, tokens a ++ ts ≠ r') (h : l.flatMap tokens ++ r = l'.flatMap tokens ++ r') :
    l = l' ∧ r = r' := by
  induction l generalizing l' with
  | nil =>
    cases l' with
    | nil => exact ⟨rfl, h⟩
    | cons a' l' =>
      -- What follows the one list would start with an item of the other.
      rw [List.flatMap_nil, List.nil_append, List.flatMap_cons, List.append_assoc] at h
      exact absurd h.symm (hr a' _)
  | cons a l ih =>
    cases l' with
    | nil =>
      rw [List.flatMap_nil, List.nil_append, List.flatMap_cons, List.append_assoc] at h
      exact absurd h (hr' a _)
    | cons a' l' =>
      simp only [List.flatMap_cons, List.append_assoc] at h
      obtain ⟨rfl, hrest⟩ := hitem h
      obtain ⟨rfl, rfl⟩ := ih hrest
      exact ⟨rfl, rfl⟩

/-- A closing brace starts no instruction. -/
theorem InstrTree.tokens_ne_brace (i : InstrTree) (ts r : List Token) :
    i.tokens ++ ts ≠ .symbol .rightBrace :: r := by
  cases i <;> exact fun h => by cases h

/-- Sequences of statements are determined by their tokens, up to a closing brace. -/
theorem BodyTree.unique {b b' : BodyTree} {r r' : List Token}
    (h : b.tokens ++ .symbol .rightBrace :: r = b'.tokens ++ .symbol .rightBrace :: r') :
    b = b' ∧ r = r' := by
  induction b generalizing b' r r' with
  | done =>
    cases b' with
    | done =>
      cases h
      exact ⟨rfl, rfl⟩
    | loop | branch => cases h
  | loop count instrs rest ih =>
    cases b' with
    | done | branch => cases h
    | loop count' instrs' rest' =>
      simp only [tokens, loopHead, List.cons_append, List.nil_append, List.append_assoc,
        List.cons.injEq, Token.int.injEq, true_and] at h
      obtain ⟨rfl, h⟩ := h
      obtain ⟨rfl, hrest⟩ := flatMap_unique InstrTree.unique
        (fun i ts => i.tokens_ne_brace ts _) (fun i ts => i.tokens_ne_brace ts _) h
      obtain ⟨rfl, rfl⟩ := ih (List.cons.inj hrest).2
      exact ⟨rfl, rfl⟩
  | branch test yes no rest ihyes ihno ih =>
    cases b' with
    | done | loop => cases h
    | branch test' yes' no' rest' =>
      simp only [tokens, List.cons_append, List.append_assoc, List.cons.injEq, true_and] at h
      -- The parser reads the two tests off the same tokens. A brace ends each of the two ways.
      have htest := congrArg (fun ts => Parser.test (.symbol .leftParen :: ts)) h
      simp only [test_tokens, Option.some.injEq, Prod.mk.injEq] at htest
      obtain ⟨rfl, hways⟩ := htest
      obtain ⟨rfl, hno⟩ := ihyes (List.cons.inj hways).2
      simp only [List.cons.injEq, true_and] at hno
      obtain ⟨rfl, hrest⟩ := ihno hno
      obtain ⟨rfl, rfl⟩ := ih hrest
      exact ⟨rfl, rfl⟩

/-! ## Artifacts -/

namespace ArtifactTree

/-- Slots are determined by their declarations. -/
theorem slot_unique {a a' : String × Nat} {r r' : List Token}
    (h : (slotOf a).tokens ++ r = (slotOf a').tokens ++ r') : a = a' ∧ r = r' := by
  have hslot := congrArg Parser.slot h
  simp only [slot_tokens, Option.some.injEq, Prod.mk.injEq, slotOf,
    Slot.mk.injEq] at hslot
  exact ⟨Prod.ext hslot.1.1 hslot.1.2.2, hslot.2⟩

/-- Temporaries are determined by their declarations. -/
theorem temp_unique {a a' : Temp} {r r' : List Token} (h : a.tokens ++ r = a'.tokens ++ r') :
    a = a' ∧ r = r' := by
  have htemp := congrArg Parser.temp h
  simpa only [temp_tokens, Option.some.injEq, Prod.mk.injEq] using htemp

/-- Names are determined by their tokens. -/
theorem name_unique {a a' : String} {r r' : List Token}
    (h : [Token.ident a] ++ r = [Token.ident a'] ++ r') : a = a' ∧ r = r' := by
  cases h
  exact ⟨rfl, rfl⟩

/-- Artifacts are determined by their tokens. -/
theorem tokens_injective {d d' : ArtifactTree} (h : d.tokens = d'.tokens) : d = d' := by
  obtain ⟨slots, attributes, function, temps, body⟩ := d
  obtain ⟨slots', attributes', function', temps', body'⟩ := d'
  unfold tokens at h
  obtain ⟨rfl, hsignature⟩ := flatMap_unique slot_unique (fun a ts hts => by cases hts)
    (fun a ts hts => by cases hts) h
  simp only [signature, List.cons_append, List.append_assoc, List.cons.injEq, true_and]
    at hsignature
  -- The names end before a parenthesis, and the last of them is the function's.
  obtain ⟨hnames, hparameters⟩ := flatMap_unique name_unique (fun a ts hts => by cases hts)
    (fun a ts hts => by cases hts) hsignature
  obtain ⟨hattributes, hfunction⟩ := List.append_inj' hnames rfl
  obtain rfl := List.replicate_left_injective _ hattributes
  obtain rfl := (List.cons.inj hfunction).1
  have htemps := (List.cons.inj (List.append_cancel_left hparameters)).2
  have hbody : ∀ (b : BodyTree) (a : Temp) (ts : List Token),
      a.tokens ++ ts ≠ b.tokens ++ [.symbol .rightBrace] := by
    intro b a ts hts
    have htemp := congrArg Parser.temp hts
    rw [temp_tokens] at htemp
    cases b <;> cases htemp
  obtain ⟨rfl, hend⟩ := flatMap_unique temp_unique (hbody body) (hbody body') htemps
  obtain ⟨rfl, -⟩ := BodyTree.unique hend
  rfl

end ArtifactTree

end LedPattern
