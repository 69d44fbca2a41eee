import LedPattern.Proofs.Constants
import LedPattern.Proofs.Rendering
import LedPattern.Proofs.RoundTrip

/-!
# What an artifact forgets

A program that is read back from its artifact has lost its notes, and its slots belong to their own
symbols (`Program.erased`). Neither matters when it runs: it is sound if the program was
(`Sound.erased`), and it does the same to a store on every frame (`stores_erased`). With finite
constants the comparison of structures sees no difference either (`sameStructure_erased`).
-/

namespace LedPattern

/-! ## Notes -/

namespace Block

/-- Dropping notes twice is dropping them once. -/
theorem withoutNotes_withoutNotes {P L : Type} (b : Block P L) :
    b.withoutNotes.withoutNotes = b.withoutNotes := by
  induction b with
  | done => rfl
  | note _ _ ih => exact ih
  | loop count body _ ih => simp only [withoutNotes, ih]
  | branch _ _ _ _ ihyes ihno ih => simp only [withoutNotes, ihyes, ihno, ih]

/-- The loops that run without audio are not notes. -/
theorem silentLoops_withoutNotes {P L : Type} (b : Block P L) :
    b.withoutNotes.silentLoops = b.silentLoops := by
  induction b with
  | done => rfl
  | note _ _ ih => exact ih
  | loop count body _ ih => simp only [withoutNotes, silentLoops, ih]
  | branch _ _ _ _ _ ihno ih => simp only [withoutNotes, silentLoops, ihno, ih]

/-- Notes have no effect. -/
theorem apply_withoutNotes (f : Frame) (b : Body) (σ : Store) :
    b.withoutNotes.apply f σ = b.apply f σ := by
  induction b generalizing σ with
  | done => rfl
  | note _ _ ih => exact ih σ
  | loop count body _ ih => exact ih _
  | branch _ _ _ _ ihyes ihno ih => simp only [withoutNotes, apply, ihyes, ihno, ih]

/-- What can be printed can be printed without notes. -/
theorem isPrintable_withoutNotes (b : Body) : b.withoutNotes.isPrintable = b.isPrintable := by
  induction b with
  | done => rfl
  | note _ _ ih => exact ih
  | loop count body _ ih => simp only [withoutNotes, isPrintable, ih]
  | branch _ _ _ _ ihyes ihno ih => simp only [withoutNotes, isPrintable, ihyes, ihno, ih]

end Block

/-- Notes get no addresses. -/
theorem Scope.body_withoutNotes (s : Scope) (b : Body) : s.body b.withoutNotes = s.body b := by
  induction b generalizing s with
  | done => rfl
  | note _ _ ih => exact ih s
  | loop count body _ ih => simp only [Block.withoutNotes, Scope.body, ih]
  | branch _ _ _ _ ihyes ihno ih => simp only [Block.withoutNotes, Scope.body, ihyes, ihno, ih]

/-! ## Owners -/

/-- The bindings of slots of new owners: the states are numbered in order. -/
theorem Instance.bindSlots_bindings {bs : List Binding} {arena : Arena} {slots : List Slot}
    (hn : (slots.map Slot.owner).Nodup) (hfree : Free arena slots) :
    (bindSlots bs arena slots).1 = ((slots.map Slot.symbol).zipIdx arena.size).reverse.map
      (fun entry => ⟨entry.1, .slot entry.2, .float⟩) ++ bs := by
  induction slots generalizing bs arena with
  | nil => rfl
  | cons s rest ih =>
    rw [List.map_cons, List.nodup_cons] at hn
    rw [bindSlots_cons hfree, ih hn.2 (hfree.push hn.1)]
    simp

namespace Program

variable {p : Program}

/-- The symbols of an erased program are the same. -/
theorem symbols_erased (p : Program) : p.erased.storage.symbols = p.storage.symbols := by
  simp [erased, storage, Storage.symbols, Function.comp_def]

/-- The names of an erased program differ. -/
theorem Distinct.erased (hp : p.Distinct) : p.erased.Distinct where
  symbols := by
    rw [symbols_erased]
    exact hp.symbols
  owners := by
    have howners : p.erased.slots.map Slot.owner = p.slots.map Slot.symbol := by
      simp [Program.erased, Function.comp_def]
    rw [howners]
    exact (List.nodup_append.1 hp.symbols).2.1

/-- The symbols of an erased program stand for the same buffers. -/
theorem Distinct.layout_erased (hp : p.Distinct) : p.erased.layout.1 = p.layout.1 := by
  have hfree : ∀ slots, Instance.Free #[] slots := by simp [Instance.Free]
  rw [layout, layout, Instance.bindSlots_bindings hp.erased.owners (hfree _),
    Instance.bindSlots_bindings hp.owners (hfree _)]
  simp [Program.erased, Function.comp_def]

/-- Whether an instruction fits depends on the buffers of the program and on their lengths. -/
theorem instrFits_congr {q : Program} (hwidth : q.frameWidth = p.frameWidth)
    (htemps : q.temps = p.temps)
    (hslots : q.slots.map (fun s => (s.symbol, s.len)) = p.slots.map fun s => (s.symbol, s.len))
    (count : Nat) (i : Instr Place String) : q.instrFits count i = p.instrFits count i := by
  have hslot : ∀ symbol, (q.slot? symbol).map Slot.len = (p.slot? symbol).map Slot.len := by
    intro symbol
    have hfind := congrArg (fun l => (l.find? fun s => s.1 = symbol).map Prod.snd) hslots
    simpa [slot?, List.find?_map, Function.comp_def] using hfind
  have hlength : ∀ target, q.targetLength? target = p.targetLength? target := by
    intro target
    cases target with
    | out => exact congrArg some hwidth
    | buffer symbol => simp only [targetLength?, temp?, htemps, hslot]
  have hplace : q.placeFits count = p.placeFits count := by
    funext place
    simp only [placeFits, hlength]
  simp only [instrFits, hplace]

/-- The places of an erased program are the same. -/
theorem instrFits_erased (p : Program) (count : Nat) (i : Instr Place String) :
    p.erased.instrFits count i = p.instrFits count i := by
  refine instrFits_congr (p := p) (q := p.erased) rfl rfl ?_ count i
  simp [erased, Function.comp_def]

/-- An erased program runs without a fault if the program does. -/
theorem Sound.erased (hp : p.Sound) : p.erased.Sound where
  distinct := hp.distinct.erased
  fits := by
    intro l hl i hi
    rw [instrFits_erased]
    exact hp.fits l (Block.loops_withoutNotes p.body ▸ hl) i hi
  quiet := by
    intro l hl
    exact hp.quiet l (Block.silentLoops_withoutNotes p.body ▸ hl)
  addressed := by
    rw [hp.distinct.layout_erased]
    obtain ⟨r, hr⟩ := hp.addressed
    exact ⟨r, (Scope.body_withoutNotes _ _).trans hr⟩

/-- An erased program does to a store what the program does. -/
theorem frameStore_erased (p : Program) (f : Frame) (σ : Store) :
    p.erased.frameStore f σ = p.frameStore f σ := Block.apply_withoutNotes f p.body _

/-- An erased program does to a store what the program does, on every frame of a sequence. -/
theorem stores_erased (p : Program) (σ : Store) (frames : List Frame) :
    p.erased.stores σ frames = p.stores σ frames := by
  induction frames generalizing σ with
  | nil => rfl
  | cons f rest ih => simp only [stores, frameStore_erased, ih]

end Program

/-! ## Structure

Constants are compared as numbers, and what is no number differs from itself. What can be printed
has finite constants. -/

/-- A list equals itself if its elements do. -/
theorem list_beq_self {α : Type} [BEq α] {l : List α} (h : ∀ a ∈ l, (a == a) = true) :
    (l == l) = true := by
  induction l with
  | nil => rfl
  | cons a rest ih =>
    rw [List.forall_mem_cons] at h
    rw [List.cons_beq_cons, h.1, ih h.2, Bool.and_self]

/-- An expression with finite constants equals itself. -/
theorem Expr.beq_self {e : Expr Place String} (h : e.isPrintable = true) : (e == e) = true := by
  induction e with
  | const v => exact Single.beq_self_of_isFinite h
  | counter | energy => rfl
  | load place => exact beq_self_eq_true place
  | ref name => exact beq_self_eq_true name
  | param field => exact beq_self_eq_true field
  | spectrum index => exact beq_self_eq_true index
  | binary op a b iha ihb =>
    simp only [isPrintable, Bool.and_eq_true] at h
    show (op == op && (a == a && b == b)) = true
    rw [iha h.1, ihb h.2, beq_self_eq_true, Bool.and_self, Bool.and_self]
  | clamp01 x ih => exact ih h
  | floor x ih => exact ih h

/-- An instruction with finite constants equals itself. -/
theorem Instr.beq_self {i : Instr Place String} (h : i.isPrintable = true) : (i == i) = true := by
  cases i with
  | bind name value =>
    simp only [isPrintable, Bool.and_eq_true] at h
    show (name == name && value == value) = true
    rw [beq_self_eq_true, Expr.beq_self h.2, Bool.and_self]
  | store place value =>
    simp only [isPrintable, Bool.and_eq_true] at h
    show (place == place && value == value) = true
    rw [beq_self_eq_true, Expr.beq_self h.2, Bool.and_self]

/-- A test with a finite threshold equals itself. -/
theorem Test.beq_self {t : Test} (h : t.isPrintable = true) : (t == t) = true := by
  cases t with
  | audioPresent => rfl
  | energyAbove threshold => exact Single.beq_self_of_isFinite h

/-- Code with finite constants equals itself. -/
theorem Block.beq_self {b : Body} (h : b.isPrintable = true) : (b == b) = true := by
  induction b with
  | done => rfl
  | note text rest ih =>
    show (text == text && rest == rest) = true
    rw [beq_self_eq_true, ih h, Bool.and_self]
  | loop count body rest ih =>
    simp only [isPrintable, Bool.and_eq_true, List.all_eq_true] at h
    have hbody : (body == body) = true := list_beq_self fun i hi => Instr.beq_self (h.1.2 i hi)
    show (count == count && (body == body && rest == rest)) = true
    rw [beq_self_eq_true, hbody, ih h.2, Bool.and_self, Bool.and_self]
  | branch test yes no rest ihyes ihno ih =>
    simp only [isPrintable, Bool.and_eq_true] at h
    obtain ⟨⟨⟨htest, hyes⟩, hno⟩, hrest⟩ := h
    show (test == test && (yes == yes && (no == no && rest == rest))) = true
    rw [Test.beq_self htest, ihyes hyes, ihno hno, ih hrest, Bool.and_self, Bool.and_self,
      Bool.and_self]

/-- A program that can be printed has the structure of what its artifact gives back. -/
theorem Program.sameStructure_erased {p : Program} (hp : p.Printable) :
    p.sameStructure p.erased = true := by
  have hbody : (p.body.withoutNotes == p.erased.body.withoutNotes) = true := by
    rw [erased, Block.withoutNotes_withoutNotes]
    refine Block.beq_self ?_
    rw [Block.isPrintable_withoutNotes]
    exact hp.body
  rw [sameStructure, hbody]
  simp [erased, Function.comp_def]

end LedPattern
