import LedPattern.Proofs.Emitting
import Mathlib.Data.List.Forall2

/-!
# Each slot has a loop of its own

Every stage stores to the buffer that it leaves and to no other (`stage_targets`), so a slot is
written by the stage that declares it. `Slot.KeptBy` says what the loop of that stage does: it runs
through the whole slot, stores to nothing else, and takes its input from a buffer of the same
length.

The loops that store to slots, in the order of the text, are those of the slots that storage gains
on the way (`Program.KeepsNew`). This holds of a stage, as only one kind of stage declares a slot,
and is put together along stages and over a fork, whose primary way comes first both in the text and
in storage. Which of these loops stores to a given slot is then clear from the names, which all
differ (`Graph.exists_slot_loop`).
-/

namespace LedPattern

/-- The buffers of a program. -/
def Program.storage (p : Program) : Storage := ⟨p.slots, p.temps⟩

/-- What an instruction stores to. -/
def Instr.target? {L : Type} : Instr Place L → Option Target
  | .store place _ => some place.target
  | .bind _ _ => none

namespace Program

variable {p : Program}

/-- The first temporary with the symbol of a temporary is that one. -/
theorem temp?_eq_some (hp : p.storage.symbols.Nodup) {t : Temp} (ht : t ∈ p.temps) :
    p.temp? t.symbol = some t :=
  find?_key (List.nodup_append.1 hp).1 ht

/-- No temporary has the symbol of a slot. -/
theorem temp?_slot (hp : p.storage.symbols.Nodup) {slot : Slot} (hslot : slot ∈ p.slots) :
    p.temp? slot.symbol = none := by
  refine List.find?_eq_none.2 fun t ht => ?_
  have hne := (List.nodup_append.1 hp).2.2 _ (List.mem_map_of_mem ht) _ (List.mem_map_of_mem hslot)
  simpa using hne

/-- The first slot with the symbol of a slot is that one. -/
theorem slot?_eq_some (hp : p.storage.symbols.Nodup) {slot : Slot} (hslot : slot ∈ p.slots) :
    p.slot? slot.symbol = some slot :=
  find?_key (List.nodup_append.1 hp).2.1 hslot

/-- No slot has the symbol of a temporary. -/
theorem slot?_temp (hp : p.storage.symbols.Nodup) {t : Temp} (ht : t ∈ p.temps) :
    p.slot? t.symbol = none := by
  refine List.find?_eq_none.2 fun slot hslot => ?_
  have hne := (List.nodup_append.1 hp).2.2 _ (List.mem_map_of_mem ht) _ (List.mem_map_of_mem hslot)
  simpa using hne.symm

/-- An instruction stores to a slot exactly if it stores to what has the slot's symbol. -/
theorem storedSlot?_eq_some_iff {instr : Instr Place String} {symbol : String} :
    p.storedSlot? instr = some symbol ↔
      instr.target? = some (.buffer symbol) ∧ (p.slot? symbol).isSome := by
  rcases instr with ⟨name, value⟩ | ⟨⟨_ | _, index, channel⟩, value⟩
  · simp [storedSlot?, Instr.target?]
  · next name =>
    simp only [storedSlot?, Instr.target?, Option.some.injEq, Target.buffer.injEq]
    constructor
    · intro h
      split at h
      · next hslot =>
        obtain rfl := Option.some.inj h
        exact ⟨rfl, hslot⟩
      · cases h
    · rintro ⟨rfl, hslot⟩
      exact if_pos hslot
  · simp [storedSlot?, Instr.target?]

end Program

/-- Whether the body of a loop stores to a buffer, once or more often. -/
def storesTo (symbol : String) (body : List (Instr Place String)) : Bool :=
  body.any fun instr => instr.target? = some (.buffer symbol)

/-- A loop, given by its count and body, that computes a slot from a buffer of storage. -/
structure Slot.KeptBy (s : Storage) (slot : Slot) (l : Nat × List (Instr Place String)) :
    Prop where
  /-- The loop is run once for each sample of the slot. -/
  count : l.1 = slot.len
  /-- The loop stores to the slot and to no other buffer. -/
  stores : ∀ symbol, storesTo symbol l.2 = true ↔ symbol = slot.symbol
  /-- Each sample is stored to for some value of the counter. -/
  covers : ∀ j < slot.len, ∃ i < l.1, ∃ place value, .store place value ∈ l.2 ∧
    place.target = .buffer slot.symbol ∧ place.index.resolve i = some j
  /-- Its input is another buffer, as long as the slot. -/
  input : ∃ src, s.Declares src ∧ src.symbol ≠ slot.symbol ∧ src.len = slot.len ∧
    (∃ instr ∈ l.2, ∃ place ∈ instr.value.places, place.target = .buffer src.symbol) ∧
    ∀ instr ∈ l.2, ∀ place ∈ instr.value.places,
      place.target = .buffer slot.symbol ∨ place.target = .buffer src.symbol

namespace Program

variable {p : Program}

/-- The loops of some code that store to a slot of the program, in the order of the text. -/
def slotLoops (p : Program) (code : Body) : List (Nat × List (Instr Place String)) :=
  code.loops.filter fun l => l.2.any fun instr => (p.storedSlot? instr).isSome

/-- The loops of some code that store to slots are those of the slots that storage has gained
between `s` and `t`, one for each and in the same order. -/
def KeepsNew (p : Program) (s t : Storage) (code : Body) : Prop :=
  ∃ new, t.slots = s.slots ++ new ∧ List.Forall₂ (Slot.KeptBy p.storage) new (p.slotLoops code)

/-- Code none of whose instructions stores to a slot. -/
theorem slotLoops_eq_nil {code : Body}
    (h : ∀ l ∈ code.loops, ∀ instr ∈ l.2, p.storedSlot? instr = none) : p.slotLoops code = [] := by
  refine List.filter_eq_nil_iff.2 fun l hl => ?_
  rw [List.any_eq_true]
  rintro ⟨instr, hinstr, hstored⟩
  rw [h l hl instr hinstr] at hstored
  cases hstored

/-- A store to a temporary is none to a slot. -/
theorem storedSlot?_temp (hp : p.storage.symbols.Nodup) {instr : Instr Place String}
    (h : ∀ target ∈ instr.target?, ∃ t ∈ p.temps, target = .buffer t.symbol) :
    p.storedSlot? instr = none := by
  rcases hstored : p.storedSlot? instr with _ | symbol
  · rfl
  · obtain ⟨htarget, hslot⟩ := storedSlot?_eq_some_iff.1 hstored
    obtain ⟨t, ht, heq⟩ := h _ htarget
    obtain rfl := Target.buffer.inj heq
    rw [slot?_temp hp ht] at hslot
    cases hslot

/-- A loop that stores to the symbol of a slot stores to a slot. -/
theorem storesSlot_of_storesTo (hp : p.storage.symbols.Nodup) {slot : Slot} (hslot : slot ∈ p.slots)
    {body : List (Instr Place String)} (h : storesTo slot.symbol body = true) :
    (body.any fun instr => (p.storedSlot? instr).isSome) = true := by
  have hfound : (p.slot? slot.symbol).isSome := by rw [slot?_eq_some hp hslot, Option.isSome_some]
  rw [storesTo, List.any_eq_true] at h
  obtain ⟨instr, hinstr, htarget⟩ := h
  have hstored := storedSlot?_eq_some_iff.2 ⟨of_decide_eq_true htarget, hfound⟩
  exact List.any_eq_true.2 ⟨instr, hinstr, by rw [hstored, Option.isSome_some]⟩

namespace KeepsNew

variable {s t u : Storage} {a b code : Body}

/-- Code that stores to no slot and declares none. -/
theorem quiet (hslots : t.slots = s.slots) (h : p.slotLoops code = []) : p.KeepsNew s t code := by
  refine ⟨[], by rw [hslots, List.append_nil], ?_⟩
  rw [h]
  exact .nil

/-- Two pieces of code, one after another in the text. -/
theorem append (ha : p.KeepsNew s t a) (hb : p.KeepsNew t u b)
    (hcode : code.loops = a.loops ++ b.loops) : p.KeepsNew s u code := by
  obtain ⟨new, hnew, hloops⟩ := ha
  obtain ⟨more, hmore, hloops'⟩ := hb
  refine ⟨new ++ more, by rw [hmore, hnew, List.append_assoc], ?_⟩
  rw [slotLoops, hcode, List.filter_append]
  exact List.rel_append hloops hloops'

end KeepsNew

end Program

namespace Kernel

variable {width : Nat} {s : Storage} {cur : Buffer} {t u : Option Shape} {p : Program}

/-- A stage stores to the buffer that it leaves and to no other. -/
theorem stage_targets (width : Nat) (s : Storage) (cur : Buffer) (st : Stage) :
    ∀ l ∈ (stage width s cur st).code.loops, ∀ instr ∈ l.2, ∀ target ∈ instr.target?,
      target = .buffer (stage width s cur st).buffer.symbol := by
  cases st with
  | mirror id variant =>
    cases variant <;> simp [stage, note, mirror, loop, copyColors, Channel.all, store, place,
      Block.loops, Instr.target?]
  | _ => simp [stage, note, sample, ramp, decay, color, loop, Channel.all, store, place,
      Block.loops, Instr.target?]

/-- A copy stores to the buffer that it fills and to no other. -/
theorem join_targets (dst src : Buffer) :
    ∀ l ∈ (join dst src).loops, ∀ instr ∈ l.2, ∀ target ∈ instr.target?,
      target = .buffer dst.symbol := by
  unfold join
  split
  · simp [Block.loops]
  · unfold copy
    split <;> simp [loop, copyColors, Channel.all, store, place, Block.loops, Instr.target?]

/-- The loop of a decay keeps its slot. -/
theorem decay_keeps {S : Storage} {dst src : Buffer} (owner : String) (factor : Float32)
    (hsrc : S.Declares src) (hne : src.symbol ≠ dst.symbol) :
    ∃ l, (decay dst src factor).loops = [l] ∧
      Slot.KeptBy S ⟨dst.symbol, owner, src.len⟩ l := by
  refine ⟨_, rfl, rfl, ?_, ?_, src, hsrc, hne, rfl, ?_, ?_⟩
  · intro symbol
    simp [storesTo, store, place, Instr.target?, eq_comm]
  · intro j hj
    exact ⟨j, hj, place dst .counter none, _, List.mem_singleton.2 rfl, rfl, rfl⟩
  · exact ⟨_, List.mem_singleton.2 rfl, place src .counter none,
      by simp [store, Instr.value, load, Expr.places], rfl⟩
  · simp [store, Instr.value, load, Expr.places, place]

/-- A stage declares a slot and keeps it, or does neither. -/
theorem stage_keeps {st : Stage} (h : st.Fits width t u) (hs : s.Named) (hcur : s.Holds cur t)
    (hp : p.storage.symbols.Nodup) (hgrows : (stage width s cur st).storage.Grows p.storage) :
    p.KeepsNew s (stage width s cur st).storage (stage width s cur st).code := by
  -- All stages but one fill a temporary.
  have htemp : (stage width s cur st).storage.slots = s.slots → ∀ x ∈ p.temps,
      (stage width s cur st).buffer.symbol = x.symbol →
      p.KeepsNew s (stage width s cur st).storage (stage width s cur st).code := by
    intro hslots x hx hsymbol
    refine .quiet hslots (Program.slotLoops_eq_nil fun l hl instr hinstr => ?_)
    refine Program.storedSlot?_temp hp fun target htarget => ⟨x, hx, ?_⟩
    rw [← hsymbol]
    exact stage_targets width s cur st l hl instr hinstr target htarget
  cases h with
  | idle => exact .quiet rfl rfl
  | @sample id bins _ _ =>
    have hdst := (Storage.acquire_spec hs .float bins "").1
    exact htemp hdst.slots _ (hgrows.temps.subset hdst.mem) rfl
  | ramp =>
    have hdst := (Storage.acquire_spec hs .float width cur.symbol).1
    exact htemp hdst.slots _ (hgrows.temps.subset hdst.mem) rfl
  | color =>
    have hdst := (Storage.acquire_spec hs .rgb cur.len "").1
    exact htemp hdst.slots _ (hgrows.temps.subset hdst.mem) rfl
  | mirror =>
    have hdst := (Storage.acquire_spec hs .rgb cur.len cur.symbol).1
    exact htemp hdst.slots _ (hgrows.temps.subset hdst.mem) rfl
  | @decay id factor len =>
    obtain ⟨hdecl, -, rfl, -⟩ := Storage.holds_some.1 hcur
    obtain ⟨symbol, hfree, hbuffer, hstorage, -⟩ := Storage.slotFor_spec hs id cur.len
    have hsame : (stage width s cur (.decay id factor)).storage = _ := hstorage
    have hold : s.Grows p.storage := by
      refine .trans ?_ hgrows
      rw [hsame]
      exact ⟨List.prefix_refl _, List.prefix_append _ _⟩
    -- The slot is new, so the input is another buffer.
    have hne : cur.symbol ≠ (⟨symbol, .float, cur.len⟩ : Buffer).symbol := by
      rintro rfl
      exact hfree hdecl.mem_symbols
    obtain ⟨l, hloops, hkept⟩ := decay_keeps id factor (hold.declares hdecl) hne
    have hslot : ⟨symbol, id, cur.len⟩ ∈ p.slots := hgrows.slots.subset (by rw [hsame]; simp)
    have hstores := Program.storesSlot_of_storesTo hp hslot ((hkept.stores symbol).2 rfl)
    have hcode : (stage width s cur (.decay id factor)).code.loops = [l] := by
      simp only [stage, hbuffer, note, Block.loops_append, Block.loops, List.nil_append, hloops]
    have hkeeps : p.slotLoops (stage width s cur (.decay id factor)).code = [l] := by
      rw [Program.slotLoops, hcode, List.filter_eq_self, List.forall_mem_singleton]
      exact hstores
    refine ⟨[⟨symbol, id, cur.len⟩], by rw [hsame], ?_⟩
    rw [hkeeps]
    exact .cons hkept .nil

/-- Stages keep the slots that they declare. -/
theorem stages_keeps {ss : List Stage} (h : Stage.FitsAll width t ss u)
    (hwidth : width < Index.limit) (hs : s.Named) (hcur : s.Holds cur t)
    (hp : p.storage.symbols.Nodup) (hgrows : (stages width s cur ss).storage.Grows p.storage) :
    p.KeepsNew s (stages width s cur ss).storage (stages width s cur ss).code := by
  induction h generalizing s cur with
  | nil => exact .quiet rfl rfl
  | cons hfirst hrest ih =>
    obtain ⟨hnamed, -, hholds⟩ := stage_storage hfirst hwidth hs hcur
    obtain ⟨-, hmore, -⟩ := stages_storage hrest hwidth hnamed hholds
    exact (stage_keeps hfirst hs hcur hp (hmore.trans hgrows)).append (ih hnamed hholds hgrows)
      (Block.loops_append ..)

/-- A way of a fork keeps the slots that it declares: its end fills a temporary. -/
theorem way_keeps {r : Storage} {code : Body} {dst : Buffer} (src : Buffer)
    (h : p.KeepsNew s r code) (hp : p.storage.symbols.Nodup) {elem : Elem} {len : Nat}
    (hdst : ⟨dst.symbol, elem, len⟩ ∈ p.temps) : p.KeepsNew s r (code ++ join dst src) := by
  refine h.append (.quiet rfl (Program.slotLoops_eq_nil fun l hl instr hinstr => ?_))
    (Block.loops_append code (join dst src))
  exact Program.storedSlot?_temp hp fun target htarget =>
    ⟨_, hdst, join_targets dst src l hl instr hinstr target htarget⟩

/-- A fork keeps the slots that its two ways declare. -/
theorem fork_keeps {f : Fork} {sh : Shape} (hfirst : Stage.FitsAll width t f.primary (some sh))
    (hsecond : Stage.FitsAll width t f.fallback (some sh)) (hwidth : width < Index.limit)
    (hs : s.Named) (hcur : s.Holds cur t) (hp : p.storage.symbols.Nodup)
    (hgrows : (fork width s cur f).storage.Grows p.storage) :
    p.KeepsNew s (fork width s cur f).storage (fork width s cur f).code := by
  obtain ⟨hnamed, hstep, hstep', -, -, -, hdst⟩ := fork_ways hfirst hsecond hwidth hs hcur
  have hdstMem := hgrows.temps.subset hdst.mem
  have hyes := way_keeps (stages width s cur f.primary).buffer
    (stages_keeps hfirst hwidth hs hcur hp ((hstep'.trans hdst.grows).trans hgrows)) hp hdstMem
  have hno := way_keeps
    (stages width (stages width s cur f.primary).storage cur f.fallback).buffer
    (stages_keeps hsecond hwidth hnamed (hstep.holds hcur) hp (hdst.grows.trans hgrows)) hp hdstMem
  have hcode : (fork width s cur f).code.loops = _ ++ _ := List.append_nil _
  -- The buffer in which the ways meet is no slot.
  obtain ⟨new, hnew, hloops⟩ := hyes.append hno hcode
  exact ⟨new, hdst.slots.trans hnew, hloops⟩

/-- A plan that fits keeps all its slots. -/
theorem main_keeps {pl : Plan} (h : pl.Fits width none) (hwidth : width < Index.limit)
    (hp : p.storage = (main width pl).storage) :
    List.Forall₂ (Slot.KeptBy p.storage) p.slots (p.slotLoops (main width pl).code) := by
  have hsymbols := (main_storage h hwidth).1.symbols_nodup
  rw [← hp] at hsymbols
  have hgrows : (main width pl).storage.Grows p.storage := hp ▸ .refl _
  have hkeeps : p.KeepsNew {} (main width pl).storage (main width pl).code := by
    rcases pl with ⟨lead, _ | f, out⟩
    · exact stages_keeps h hwidth Storage.named_empty (holds_none _ _) hsymbols hgrows
    · obtain ⟨t, hlead, hfirst, hsecond⟩ := h
      obtain ⟨hnamed, -, hholds⟩ :=
        stages_storage hlead hwidth Storage.named_empty (holds_none _ _)
      obtain ⟨-, hmore, -⟩ := fork_storage hfirst hsecond hwidth hnamed hholds
      exact (stages_keeps hlead hwidth Storage.named_empty (holds_none _ _) hsymbols
        (hmore.trans hgrows)).append
        (fork_keeps hfirst hsecond hwidth hnamed hholds hsymbols hgrows) (Block.loops_append ..)
  obtain ⟨new, hnew, hloops⟩ := hkeeps
  have hslots : p.slots = new := by
    have hall : p.slots = (main width pl).storage.slots := congrArg Storage.slots hp
    rw [hall, hnew]
    rfl
  rw [hslots]
  exact hloops

end Kernel

section Loops

variable {S : Storage} {slots : List Slot} {ls : List (Nat × List (Instr Place String))}

/-- Loops that keep slots store to none of another name. -/
theorem filter_storesTo_eq_nil (h : List.Forall₂ (Slot.KeptBy S) slots ls) {symbol : String}
    (hsymbol : symbol ∉ slots.map Slot.symbol) :
    ls.filter (fun l => storesTo symbol l.2) = [] := by
  induction h with
  | nil => rfl
  | cons hkept _ ih =>
    rw [List.map_cons, List.mem_cons, not_or] at hsymbol
    rw [List.filter_cons, if_neg fun h => hsymbol.1 ((hkept.stores symbol).1 h), ih hsymbol.2]

/-- Of loops that keep slots of different names, exactly one stores to a given slot. -/
theorem exists_filter_storesTo_eq (h : List.Forall₂ (Slot.KeptBy S) slots ls)
    (hnames : (slots.map Slot.symbol).Nodup) {slot : Slot} (hslot : slot ∈ slots) :
    ∃ l, ls.filter (fun l => storesTo slot.symbol l.2) = [l] ∧ slot.KeptBy S l := by
  induction h with
  | nil => cases hslot
  | @cons x l _ _ hkept hrest ih =>
    rw [List.map_cons, List.nodup_cons] at hnames
    rcases List.mem_cons.1 hslot with rfl | hslot
    · refine ⟨l, ?_, hkept⟩
      rw [List.filter_cons, if_pos ((hkept.stores slot.symbol).2 rfl),
        filter_storesTo_eq_nil hrest hnames.1]
    · -- The first loop keeps another slot, and stores to that one only.
      have hne : slot.symbol ≠ x.symbol := fun h => hnames.1 (h ▸ List.mem_map_of_mem hslot)
      rw [List.filter_cons, if_neg fun h => hne ((hkept.stores slot.symbol).1 h)]
      exact ih hnames.2 hslot

end Loops

namespace Graph

variable {g : Graph} {pl : Plan}

/-- The loops of a graph's program: those of the plan, and the output. -/
theorem loops_programOf (g : Graph) (pl : Plan) :
    (g.programOf pl).body.loops = (Kernel.main g.frameWidth pl).code.loops ++
      (Kernel.output (Kernel.main g.frameWidth pl).buffer g.frameWidth).loops := by
  simp [programOf, Kernel.plan_eq, Kernel.note, Block.loops]

/-- The output stores to the pixels only. -/
theorem output_targets (src : Buffer) (width : Nat) :
    ∀ l ∈ (Kernel.output src width).loops, ∀ instr ∈ l.2, ∀ target ∈ instr.target?,
      target = .out := by
  simp [Kernel.output, Kernel.loop, Block.loops, Channel.all, Instr.target?]

/-- The slots of a graph's program are kept by the loops of the program that store to slots. -/
theorem programOf_keeps (h : pl.Fits g.frameWidth none) (hwidth : g.frameWidth < Index.limit) :
    List.Forall₂ (Slot.KeptBy (g.programOf pl).storage) (g.programOf pl).slots
      ((g.programOf pl).slotLoops (g.programOf pl).body) := by
  have houtput : (g.programOf pl).slotLoops
      (Kernel.output (Kernel.main g.frameWidth pl).buffer g.frameWidth) = [] := by
    refine Program.slotLoops_eq_nil fun l hl instr hinstr => ?_
    rcases hstored : (g.programOf pl).storedSlot? instr with _ | symbol
    · rfl
    · cases output_targets _ _ l hl instr hinstr _ (Program.storedSlot?_eq_some_iff.1 hstored).1
  have hbody : (g.programOf pl).slotLoops (g.programOf pl).body =
      (g.programOf pl).slotLoops (Kernel.main g.frameWidth pl).code := by
    rw [Program.slotLoops, loops_programOf, List.filter_append]
    exact (congrArg _ houtput).trans (List.append_nil _)
  rw [hbody]
  exact Kernel.main_keeps h hwidth rfl

/-- Exactly one loop of a graph's program stores to a given slot, and this loop keeps it. -/
theorem exists_slot_loop (h : pl.Fits g.frameWidth none) (hwidth : g.frameWidth < Index.limit)
    {slot : Slot} (hslot : slot ∈ (g.programOf pl).slots) :
    ∃ l, (g.programOf pl).body.loops.filter (fun l => storesTo slot.symbol l.2) = [l] ∧
      slot.KeptBy (g.programOf pl).storage l := by
  have hnamed : (g.programOf pl).storage.Named := (Kernel.main_storage h hwidth).1
  -- It is enough to look at the loops that store to some slot.
  have hfilter : (g.programOf pl).body.loops.filter (fun l => storesTo slot.symbol l.2) =
      ((g.programOf pl).slotLoops (g.programOf pl).body).filter
        fun l => storesTo slot.symbol l.2 := by
    rw [Program.slotLoops, List.filter_filter]
    refine List.filter_congr fun l _ => ?_
    rw [Bool.eq_iff_iff, Bool.and_eq_true]
    exact ⟨fun hstores => ⟨hstores, Program.storesSlot_of_storesTo hnamed.symbols_nodup hslot
      hstores⟩, And.left⟩
  rw [hfilter]
  exact exists_filter_storesTo_eq (programOf_keeps h hwidth) hnamed.slots_nodup hslot

end Graph

end LedPattern
