import LedPattern.Proofs.Rendering
import LedPattern.Proofs.SignedZero

/-!
# Code up to the signs of zeros

The comparison of structures takes constants for equal that compare as numbers, and so it does not
tell the two zeros apart. Code that it takes for equal is `Same` here: equal but for the signs of
zeros (`Block.same_of_beq`). It touches the same elements (`Block.Same.loops`), and it keeps stores
the same if it is `Steady`, that is, if it divides by nothing but constants other than zero
(`Block.Same.apply`). The same stores show the same pixels.
-/

namespace LedPattern

/-! ## Code -/

/-- Expressions that are equal up to the signs of zeros. -/
inductive Expr.Same : Expr Place String → Expr Place String → Prop where
  | const {v w : Float32} (h : Single.Same v w) : Same (.const v) (.const w)
  | counter : Same .counter .counter
  | load (place : Place) : Same (.load place) (.load place)
  | ref (name : String) : Same (.ref name) (.ref name)
  | param (field : ParamField) : Same (.param field) (.param field)
  | spectrum (index : Index) : Same (.spectrum index) (.spectrum index)
  | energy : Same .energy .energy
  | binary (op : BinOp) {a a' b b' : Expr Place String} (ha : Same a a') (hb : Same b b') :
      Same (.binary op a b) (.binary op a' b')
  | clamp01 {a a' : Expr Place String} (h : Same a a') : Same (.clamp01 a) (.clamp01 a')
  | floor {a a' : Expr Place String} (h : Same a a') : Same (.floor a) (.floor a')

/-- Instructions that are equal up to the signs of zeros. -/
inductive Instr.Same : Instr Place String → Instr Place String → Prop where
  | bind (name : String) {e e' : Expr Place String} (h : e.Same e') :
      Same (.bind name e) (.bind name e')
  | store (place : Place) {e e' : Expr Place String} (h : e.Same e') :
      Same (.store place e) (.store place e')

/-- Sequences that are equal up to the signs of zeros. -/
inductive Block.Same : Body → Body → Prop where
  | done : Same .done .done
  | note (text : String) {b b' : Body} (h : Same b b') : Same (.note text b) (.note text b')
  | loop (count : Nat) {is is' : List (Instr Place String)} {b b' : Body}
      (hbody : List.Forall₂ Instr.Same is is') (h : Same b b') :
      Same (.loop count is b) (.loop count is' b')
  | branch {test test' : Test} {y y' n n' b b' : Body}
      (htest : ∀ f, test.holds f = test'.holds f) (hyes : Same y y') (hno : Same n n')
      (h : Same b b') : Same (.branch test y n b) (.branch test' y' n' b')

/-- Expressions that compare as equal are the same. -/
theorem Expr.same_of_beq {e e' : Expr Place String} (h : (e == e') = true) : e.Same e' := by
  induction e generalizing e' with
  | const v =>
    cases e' with
    | const w => exact .const (.of_beq h)
    | _ => cases h
  | counter =>
    cases e' with
    | counter => exact .counter
    | _ => cases h
  | load place =>
    cases e' with
    | load place' =>
      obtain rfl : place = place' := eq_of_beq h
      exact .load place
    | _ => cases h
  | ref name =>
    cases e' with
    | ref name' =>
      obtain rfl : name = name' := eq_of_beq h
      exact .ref name
    | _ => cases h
  | param field =>
    cases e' with
    | param field' =>
      obtain rfl : field = field' := eq_of_beq h
      exact .param field
    | _ => cases h
  | spectrum index =>
    cases e' with
    | spectrum index' =>
      obtain rfl : index = index' := eq_of_beq h
      exact .spectrum index
    | _ => cases h
  | energy =>
    cases e' with
    | energy => exact .energy
    | _ => cases h
  | binary op a b iha ihb =>
    cases e' with
    | binary op' a' b' =>
      have hparts : (op == op' && (a == a' && b == b')) = true := h
      simp only [Bool.and_eq_true] at hparts
      obtain rfl : op = op' := eq_of_beq hparts.1
      exact .binary op (iha hparts.2.1) (ihb hparts.2.2)
    | _ => cases h
  | clamp01 a ih =>
    cases e' with
    | clamp01 a' => exact .clamp01 (ih h)
    | _ => cases h
  | floor a ih =>
    cases e' with
    | floor a' => exact .floor (ih h)
    | _ => cases h

/-- Instructions that compare as equal are the same. -/
theorem Instr.same_of_beq {i i' : Instr Place String} (h : (i == i') = true) : i.Same i' := by
  cases i with
  | bind name e =>
    cases i' with
    | bind name' e' =>
      have hparts : (name == name' && e == e') = true := h
      rw [Bool.and_eq_true] at hparts
      obtain rfl : name = name' := eq_of_beq hparts.1
      exact .bind name (Expr.same_of_beq hparts.2)
    | store => cases h
  | store place e =>
    cases i' with
    | bind => cases h
    | store place' e' =>
      have hparts : (place == place' && e == e') = true := h
      rw [Bool.and_eq_true] at hparts
      obtain rfl : place = place' := eq_of_beq hparts.1
      exact .store place (Expr.same_of_beq hparts.2)

/-- Lists that compare as equal are related element by element if their elements are. -/
theorem forall₂_of_beq {α : Type} [BEq α] {R : α → α → Prop} (hR : ∀ {a b}, (a == b) = true → R a b)
    {l l' : List α} (h : (l == l') = true) : List.Forall₂ R l l' := by
  induction l generalizing l' with
  | nil =>
    cases l' with
    | nil => exact .nil
    | cons => cases h
  | cons a rest ih =>
    cases l' with
    | nil => cases h
    | cons b rest' =>
      rw [List.cons_beq_cons, Bool.and_eq_true] at h
      exact .cons (hR h.1) (ih h.2)

/-- What related elements pass on holds of all elements of a list if it does of those of the
other. -/
theorem forall_mem_of_forall₂ {α β : Type} {R : α → β → Prop} {P : α → Prop} {Q : β → Prop}
    {l : List α} {l' : List β} (h : List.Forall₂ R l l') (hR : ∀ a b, R a b → P a → Q b)
    (hl : ∀ a ∈ l, P a) : ∀ b ∈ l', Q b := by
  induction h with
  | nil => exact fun b hb => nomatch hb
  | cons hab _ ih =>
    rw [List.forall_mem_cons] at hl ⊢
    exact ⟨hR _ _ hab hl.1, ih hl.2⟩

/-- Tests that compare as equal have the same outcome. -/
theorem Test.holds_of_beq {t t' : Test} (h : (t == t') = true) (f : Frame) :
    t.holds f = t'.holds f := by
  cases t with
  | audioPresent =>
    cases t' with
    | audioPresent => rfl
    | energyAbove => cases h
  | energyAbove v =>
    cases t' with
    | audioPresent => cases h
    | energyAbove w =>
      have hvw : Single.Same v w := .of_beq h
      unfold Test.holds
      cases f.audio with
      | none => rfl
      | some audio => simp only [hvw.lt_iff (.refl audio.energy)]

/-- Sequences that compare as equal are the same. -/
theorem Block.same_of_beq {b b' : Body} (h : (b == b') = true) : b.Same b' := by
  induction b generalizing b' with
  | done =>
    cases b' with
    | done => exact .done
    | _ => cases h
  | note text rest ih =>
    cases b' with
    | note text' rest' =>
      have hparts : (text == text' && rest == rest') = true := h
      rw [Bool.and_eq_true] at hparts
      obtain rfl : text = text' := eq_of_beq hparts.1
      exact .note text (ih hparts.2)
    | _ => cases h
  | loop count is rest ih =>
    cases b' with
    | loop count' is' rest' =>
      have hparts : (count == count' && (is == is' && rest == rest')) = true := h
      simp only [Bool.and_eq_true] at hparts
      obtain rfl : count = count' := eq_of_beq hparts.1
      exact .loop count (forall₂_of_beq Instr.same_of_beq hparts.2.1) (ih hparts.2.2)
    | _ => cases h
  | branch test yes no rest ihyes ihno ih =>
    cases b' with
    | branch test' yes' no' rest' =>
      have hparts : (test == test' && (yes == yes' && (no == no' && rest == rest'))) = true := h
      simp only [Bool.and_eq_true] at hparts
      obtain ⟨htest, hyes, hno, hrest⟩ := hparts
      exact .branch (Test.holds_of_beq htest) (ihyes hyes) (ihno hno) (ih hrest)
    | _ => cases h

/-! ## What the same code touches -/

/-- The same expressions load from the same places and read the same bins. -/
theorem Expr.Same.reads {e e' : Expr Place String} (h : e.Same e') :
    e.places = e'.places ∧ e.bins = e'.bins := by
  induction h with
  | const | counter | load | ref | param | spectrum | energy => exact ⟨rfl, rfl⟩
  | binary _ _ _ iha ihb => simp only [places, bins, iha, ihb, and_self]
  | clamp01 _ ih => exact ih
  | floor _ ih => exact ih

/-- The same instructions fit if one of them does. -/
theorem Instr.Same.fits {i i' : Instr Place String} (h : i.Same i') (p : Program) (count : Nat) :
    p.instrFits count i = p.instrFits count i' := by
  cases h with
  | bind name h => simp only [Program.instrFits, places, value, h.reads]
  | store place h => simp only [Program.instrFits, places, value, h.reads]

/-- The same sequences have the same loops. -/
theorem Block.Same.loops {b b' : Body} (h : b.Same b') :
    List.Forall₂ (fun l l' => l.1 = l'.1 ∧ List.Forall₂ Instr.Same l.2 l'.2) b.loops b'.loops := by
  induction h with
  | done => exact .nil
  | note text _ ih => exact ih
  | loop count hbody _ ih => exact .cons ⟨rfl, hbody⟩ ih
  | branch _ _ _ _ ihyes ihno ih => exact List.rel_append (List.rel_append ihyes ihno) ih

/-! ## Stores -/

/-- An expression that divides by nothing but constants other than zero. -/
def Expr.Steady : Expr Place String → Prop
  | .binary op a b => a.Steady ∧ b.Steady ∧ (op = .div → ∃ v, b = .const v ∧ Single.Nonzero v)
  | .clamp01 a => a.Steady
  | .floor a => a.Steady
  | _ => True

/-- Code whose expressions are all steady, those in loops without a round apart. -/
def Block.Steady (b : Body) : Prop := ∀ l ∈ b.loops, 0 < l.1 → ∀ i ∈ l.2, i.value.Steady

/-- Stores that are equal up to the signs of zeros, and that show the same pixels. -/
structure Store.Same (σ τ : Store) : Prop where
  cell : ∀ symbol j lane, Single.Same (σ.cell symbol j lane) (τ.cell symbol j lane)
  locals : ∀ name, Single.Same (σ.locals name) (τ.locals name)
  pixel : σ.pixel = τ.pixel

namespace Store.Same

variable {σ τ : Store}

/-- A store is the same as itself. -/
theorem refl (σ : Store) : σ.Same σ where
  cell := fun _ _ _ => .refl _
  locals := fun _ => .refl _
  pixel := rfl

/-- The same stores have the same value at every place. -/
theorem read (h : σ.Same τ) (p : Place) (i : Nat) : Single.Same (σ.read p i) (τ.read p i) := by
  unfold Store.read
  split
  · exact h.cell _ _ _
  · rw [h.pixel]
    exact .refl _

/-- The same value at a place leaves the same stores. For a pixel only the byte matters. -/
theorem write (h : σ.Same τ) (p : Place) (i : Nat) {x y : Float32} (hxy : Single.Same x y) :
    (σ.write p i x).Same (τ.write p i y) := by
  unfold Store.write
  split
  · refine ⟨fun symbol j lane => ?_, h.locals, h.pixel⟩
    dsimp only
    split
    · exact hxy
    · exact h.cell _ _ _
  · refine ⟨h.cell, h.locals, ?_⟩
    simp only [h.pixel, hxy.toUInt8_eq]

/-- The same value for a local leaves the same stores. -/
theorem bind (h : σ.Same τ) (name : String) {x y : Float32} (hxy : Single.Same x y) :
    (σ.bind name x).Same (τ.bind name y) := by
  refine ⟨h.cell, fun other => ?_, h.pixel⟩
  dsimp only [Store.bind]
  split
  · exact hxy
  · exact h.locals _

/-- Clearing the temporaries leaves the same stores. -/
theorem refresh (h : σ.Same τ) (p : Program) : (p.refresh σ).Same (p.refresh τ) := by
  refine ⟨fun symbol j lane => ?_, h.locals, h.pixel⟩
  dsimp only [Program.refresh]
  split
  · exact .refl _
  · exact h.cell _ _ _

end Store.Same

variable {σ τ : Store}

/-- The same steady expressions have the same value. -/
theorem Expr.Same.value {e e' : Expr Place String} (h : e.Same e') (hsteady : e.Steady) (f : Frame)
    (hστ : σ.Same τ) (i : Nat) : Single.Same (e.value f σ i) (e'.value f τ i) := by
  induction h with
  | const h => exact h
  | counter | param | spectrum | energy => exact .refl _
  | load place => exact hστ.read place i
  | ref name => exact hστ.locals name
  | binary op _ _ iha ihb =>
    obtain ⟨ha, hb, hdiv⟩ := hsteady
    refine .apply op (iha ha) (ihb hb) fun hop => ?_
    obtain ⟨v, rfl, hv⟩ := hdiv hop
    exact hv
  | clamp01 _ ih => exact .clamp01 (ih hsteady)
  | floor _ ih => exact .floor (ih hsteady)

/-- The same steady instructions leave the same stores. -/
theorem Instr.Same.apply {i i' : Instr Place String} (h : i.Same i') (hsteady : i.value.Steady)
    (f : Frame) (hστ : σ.Same τ) (n : Nat) : (i.apply f n σ).Same (i'.apply f n τ) := by
  cases h with
  | bind name h => exact hστ.bind name (h.value hsteady f hστ n)
  | store place h => exact hστ.write place n (h.value hsteady f hστ n)

/-- The same steady bodies leave the same stores. -/
theorem applyBody_same {is is' : List (Instr Place String)} (h : List.Forall₂ Instr.Same is is')
    (hsteady : ∀ i ∈ is, i.value.Steady) (f : Frame) (hστ : σ.Same τ) (n : Nat) :
    (applyBody f n is σ).Same (applyBody f n is' τ) := by
  induction h generalizing σ τ with
  | nil => exact hστ
  | cons hi _ ih =>
    rw [List.forall_mem_cons] at hsteady
    exact ih hsteady.2 (hi.apply hsteady.1 f hστ n)

/-- The same steady loops leave the same stores. -/
theorem applyLoop_same {is is' : List (Instr Place String)} (h : List.Forall₂ Instr.Same is is')
    (f : Frame) (hστ : σ.Same τ) (rounds n : Nat)
    (hsteady : 0 < rounds → ∀ i ∈ is, i.value.Steady) :
    (applyLoop f is rounds n σ).Same (applyLoop f is' rounds n τ) := by
  induction rounds generalizing n σ τ with
  | zero => exact hστ
  | succ rounds ih =>
    have hbody := hsteady (Nat.succ_pos rounds)
    exact ih (applyBody_same h hbody f hστ n) (n + 1) fun _ => hbody

/-- The same steady sequences leave the same stores. -/
theorem Block.Same.apply {b b' : Body} (h : b.Same b') (hsteady : b.Steady) (f : Frame)
    (hστ : σ.Same τ) : (b.apply f σ).Same (b'.apply f τ) := by
  induction h generalizing σ τ with
  | done => exact hστ
  | note _ _ ih => exact ih hsteady hστ
  | loop count hbody _ ih =>
    unfold Block.Steady at hsteady
    rw [Block.loops, List.forall_mem_cons] at hsteady
    exact ih hsteady.2 (applyLoop_same hbody f hστ count 0 hsteady.1)
  | branch htest _ _ _ ihyes ihno ih =>
    unfold Block.Steady at hsteady
    rw [Block.loops, List.forall_mem_append, List.forall_mem_append] at hsteady
    obtain ⟨⟨hyes, hno⟩, hrest⟩ := hsteady
    simp only [Block.apply, htest]
    refine ih hrest ?_
    split
    · exact ihyes hyes hστ
    · exact ihno hno hστ

end LedPattern
