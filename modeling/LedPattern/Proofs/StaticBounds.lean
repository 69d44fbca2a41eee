import LedPattern.Proofs.Addressing

/-!
# The check of indices is exact

The certificate of a program looks only at the ends of each loop: it compares the greatest element
of an index with the length of a buffer, and it collects places and bins by recursion.
`indicesInBounds_iff` says what it decides: whether every element that any loop names exists for
every value of the counter.

The other side is said without the check. `Block.HasLoop` says where loops stand, `Expr.Contains`
what occurs in an expression, `Program.HasLength` which declaration gives a buffer its length, and
`Index.StaysBelow` goes through the counters one by one. Each of them has a lemma that ties it to
the function that the check uses.
-/

namespace LedPattern

variable {P L : Type}

/-! ## What occurs in a program -/

/-- The expressions that an expression is directly made of. -/
def Expr.parts : Expr P L → List (Expr P L)
  | .binary _ a b => [a, b]
  | .clamp01 x | .floor x => [x]
  | _ => []

/-- An expression has another in it, at some depth. -/
inductive Expr.Contains : Expr P L → Expr P L → Prop where
  | self {e : Expr P L} : Contains e e
  | part {e part sub : Expr P L} (hpart : part ∈ e.parts) (h : Contains part sub) : Contains e sub

/-- An instruction stores to a place or loads it. -/
inductive Instr.Touches (place : P) : Instr P L → Prop where
  | target {value : Expr P L} : Touches place (.store place value)
  | load {i : Instr P L} (h : i.value.Contains (.load place)) : Touches place i

/-- A loop stands somewhere in a sequence of statements. -/
inductive Block.HasLoop (count : Nat) (body : List (Instr P L)) : Block P L → Prop where
  | here {rest : Block P L} : HasLoop count body (.loop count body rest)
  | note {text : String} {rest : Block P L} (h : rest.HasLoop count body) :
      HasLoop count body (.note text rest)
  | loop {n : Nat} {other : List (Instr P L)} {rest : Block P L} (h : rest.HasLoop count body) :
      HasLoop count body (.loop n other rest)
  | yes {test : Test} {yes no rest : Block P L} (h : yes.HasLoop count body) :
      HasLoop count body (.branch test yes no rest)
  | no {test : Test} {yes no rest : Block P L} (h : no.HasLoop count body) :
      HasLoop count body (.branch test yes no rest)
  | rest {test : Test} {yes no rest : Block P L} (h : rest.HasLoop count body) :
      HasLoop count body (.branch test yes no rest)

/-- What occurs in an expression is the expression or occurs in a part of it. -/
theorem Expr.contains_iff {sub e : Expr P L} :
    e.Contains sub ↔ sub = e ∨ ∃ part ∈ e.parts, part.Contains sub := by
  constructor
  · intro h
    cases h with
    | self => exact .inl rfl
    | part hpart h => exact .inr ⟨_, hpart, h⟩
  · rintro (rfl | ⟨part, hpart, h⟩)
    · exact .self
    · exact .part hpart h

/-- The collected places are those that are loaded. -/
theorem Expr.mem_places {place : P} {e : Expr P L} :
    place ∈ e.places ↔ e.Contains (.load place) := by
  induction e with
  | binary _ a b iha ihb => rw [contains_iff]; simp [places, parts, iha, ihb]
  | clamp01 _ ih | floor _ ih => rw [contains_iff]; simp [places, parts, ih]
  | const | counter | load | ref | param | spectrum | energy =>
    rw [contains_iff]
    simp [places, parts]

/-- The collected bins are those that are read. -/
theorem Expr.mem_bins {index : Index} {e : Expr P L} :
    index ∈ e.bins ↔ e.Contains (.spectrum index) := by
  induction e with
  | binary _ a b iha ihb => rw [contains_iff]; simp [bins, parts, iha, ihb]
  | clamp01 _ ih | floor _ ih => rw [contains_iff]; simp [bins, parts, ih]
  | const | counter | load | ref | param | spectrum | energy =>
    rw [contains_iff]
    simp [bins, parts]

/-- The collected places of an instruction are those that it touches. -/
theorem Instr.mem_places {place : P} {i : Instr P L} : place ∈ i.places ↔ i.Touches place := by
  cases i with
  | bind name value =>
    refine Expr.mem_places.trans ⟨fun h => .load h, fun h => ?_⟩
    cases h with
    | load h => exact h
  | store other value =>
    refine List.mem_cons.trans ⟨fun h => ?_, fun h => ?_⟩
    · rcases h with rfl | h
      · exact .target
      · exact .load (Expr.mem_places.1 h)
    · cases h with
      | target => exact .inl rfl
      | load h => exact .inr (Expr.mem_places.2 h)

/-- The collected loops are those of the statement tree. -/
theorem Block.mem_loops {count : Nat} {body : List (Instr P L)} {b : Block P L} :
    (count, body) ∈ b.loops ↔ b.HasLoop count body := by
  constructor
  · intro h
    induction b with
    | done => cases h
    | note text rest ih => exact .note (ih h)
    | loop n other rest ih =>
      rcases List.mem_cons.1 h with heq | h
      · cases heq
        exact .here
      · exact .loop (ih h)
    | branch test yes no rest ihyes ihno ihrest =>
      rcases List.mem_append.1 h with h | h
      · rcases List.mem_append.1 h with h | h
        · exact .yes (ihyes h)
        · exact .no (ihno h)
      · exact .rest (ihrest h)
  · intro h
    induction h with
    | here => exact List.mem_cons_self
    | note _ ih => exact ih
    | loop _ ih => exact List.mem_cons_of_mem _ ih
    | yes _ ih => exact List.mem_append_left _ (List.mem_append_left _ ih)
    | no _ ih => exact List.mem_append_left _ (List.mem_append_right _ ih)
    | rest _ ih => exact List.mem_append_right _ ih

/-! ## Lengths and indices -/

/-- A target has a length. The pixels are as many as the frame is wide. Of all buffers with one
symbol the first temporary counts, and the first slot only if there is no temporary. -/
inductive Program.HasLength (p : Program) : Target → Nat → Prop where
  | out : HasLength p .out p.frameWidth
  | temp {before after : List Temp} {t : Temp} (htemps : p.temps = before ++ t :: after)
      (hfirst : ∀ u ∈ before, u.symbol ≠ t.symbol) : HasLength p (.buffer t.symbol) t.len
  | slot {before after : List Slot} {s : Slot} (hslots : p.slots = before ++ s :: after)
      (hfirst : ∀ u ∈ before, u.symbol ≠ s.symbol) (hnone : ∀ t ∈ p.temps, t.symbol ≠ s.symbol) :
      HasLength p (.buffer s.symbol) s.len

/-- An index gives an element below `len` for every counter below `count`. -/
def Index.StaysBelow (index : Index) (count len : Nat) : Prop :=
  ∀ i < count, ∃ j, index.resolve i = some j ∧ j < len

/-- Looking for a key finds the first element that has it. -/
theorem find?_key_eq_some {α : Type} {key : α → String} {k : String} {l : List α} {a : α} :
    l.find? (fun x => decide (key x = k)) = some a ↔
      key a = k ∧ ∃ before after, l = before ++ a :: after ∧ ∀ x ∈ before, key x ≠ k := by
  simp [List.find?_eq_some_iff_append]

/-- The length that the check looks up is the declared one. -/
theorem Program.targetLength?_eq_some {p : Program} {target : Target} {len : Nat} :
    p.targetLength? target = some len ↔ p.HasLength target len := by
  cases target with
  | out =>
    refine ⟨fun h => ?_, fun h => ?_⟩
    · cases h
      exact .out
    · cases h
      rfl
  | buffer symbol =>
    simp only [targetLength?, temp?, slot?]
    constructor
    · intro h
      -- A temporary hides a slot of the same name.
      rcases htemp : p.temps.find? (fun t => t.symbol = symbol) with _ | t
      · simp only [htemp, Option.map_eq_some_iff] at h
        obtain ⟨s, hslot, rfl⟩ := h
        obtain ⟨rfl, before, after, hslots, hfirst⟩ := find?_key_eq_some.1 hslot
        exact .slot hslots hfirst (by simpa using htemp)
      · simp only [htemp, Option.some.injEq] at h
        obtain ⟨rfl, before, after, htemps, hfirst⟩ := find?_key_eq_some.1 htemp
        exact h ▸ .temp htemps hfirst
    · intro h
      cases h with
      | temp htemps hfirst =>
        rw [find?_key_eq_some.2 ⟨rfl, _, _, htemps, hfirst⟩]
      | @slot _ _ s hslots hfirst hnone =>
        have htemp : p.temps.find? (fun t => t.symbol = s.symbol) = none := by simpa using hnone
        rw [htemp, find?_key_eq_some.2 ⟨rfl, _, _, hslots, hfirst⟩]
        rfl

/-- The ends of a loop decide about all its counters. -/
theorem Index.fits_iff {index : Index} {count len : Nat} :
    index.fits count len = true ↔ index.StaysBelow count len := by
  constructor
  · intro h i hi
    exact ⟨index.at i, resolve_of_fits h hi⟩
  · intro h
    unfold fits
    split
    · rfl
    · -- The last counter gives the greatest element, or the least one of a reversed index.
      obtain ⟨last, hlast, hlt⟩ := h (count - 1) (by omega)
      cases index with
      | counter =>
        cases hlast
        exact decide_eq_true hlt
      | reverse top =>
        obtain ⟨first, hfirst, hbelow⟩ := h 0 (by omega)
        simp only [resolve, Nat.zero_le, if_true, Nat.sub_zero, Option.some.injEq] at hfirst
        simp only [resolve, Option.ite_none_right_eq_some] at hlast
        simp only [Bool.and_eq_true, decide_eq_true_eq]
        exact ⟨hlast.1, hfirst ▸ hbelow⟩
      | offset base =>
        simp only [resolve, Option.ite_none_right_eq_some, Option.some.injEq] at hlast
        simp only [Bool.and_eq_true, decide_eq_true_eq]
        exact ⟨hlast.1, hlast.2 ▸ hlt⟩

/-- The check of a place asks for a declaration, also where the loop has no rounds. -/
theorem Program.placeFits_iff {p : Program} {count : Nat} {place : Place} :
    p.placeFits count place = true ↔
      ∃ len, p.HasLength place.target len ∧ place.index.StaysBelow count len := by
  unfold placeFits
  rcases hlength : p.targetLength? place.target with _ | len
  · refine ⟨fun h => absurd h Bool.false_ne_true, ?_⟩
    rintro ⟨len, hlen, -⟩
    rw [targetLength?_eq_some.2 hlen] at hlength
    cases hlength
  · refine ⟨fun h => ⟨len, targetLength?_eq_some.1 hlength, Index.fits_iff.1 h⟩, ?_⟩
    rintro ⟨other, hother, hbelow⟩
    rw [targetLength?_eq_some.2 hother] at hlength
    cases hlength
    exact Index.fits_iff.2 hbelow

/-- The check of indices is exact. It passes a program if and only if for every loop of the
statement tree, every place that an instruction of it stores to or loads at any depth is in a buffer
with a declared length, and both this place's index and the index of every bin that is read stay
below their lengths for all counters of the loop. -/
theorem indicesInBounds_iff (p : Program) :
    p.certificate.indicesInBounds = true ↔
      ∀ count body, p.body.HasLoop count body → ∀ instr ∈ body,
        (∀ place : Place, instr.Touches place →
          ∃ len, p.HasLength place.target len ∧
            ∀ i < count, ∃ j, place.index.resolve i = some j ∧ j < len) ∧
        ∀ index, instr.value.Contains (.spectrum index) →
          ∀ i < count, ∃ j, index.resolve i = some j ∧ j < spectrumBins := by
  simp only [Program.certificate, List.all_eq_true, Prod.forall, Block.mem_loops,
    Program.instrFits, Bool.and_eq_true, Instr.mem_places, Program.placeFits_iff, Expr.mem_bins,
    Index.fits_iff, Index.StaysBelow]

end LedPattern
