import LedPattern.Proofs.Addressing
import LedPattern.Proofs.Meaning

/-!
# Simulators behave as stores

A simulator of a program that is `Sound` renders every frame without a fault, and its storage after
each frame is what the program with names makes of a store (`trace_models`). For one frame that is
`body_simulates` with the temporaries cleared before, and for a sequence of frames it follows by
induction, since the relation between a simulator and a store holds again after a frame.
-/

namespace LedPattern

/-- All values are zero, and all pixels dark. -/
def Store.blank : Store where
  cell := fun _ _ _ => 0
  locals := fun _ => 0
  pixel := fun _ => Pixel.dark

namespace Program

/-- The store with all temporaries of a program zero. -/
def refresh (p : Program) (σ : Store) : Store :=
  { σ with cell := fun symbol => if (p.temp? symbol).isSome then fun _ _ => 0 else σ.cell symbol }

/-- The store after a frame. -/
def frameStore (p : Program) (f : Frame) (σ : Store) : Store := p.body.apply f (p.refresh σ)

/-- The stores after each frame of a sequence. -/
def stores (p : Program) (σ : Store) : List Frame → List Store
  | [] => []
  | f :: rest => p.frameStore f σ :: p.stores (p.frameStore f σ) rest

end Program

/-- The code reads the audio signal only where a test has heard one. -/
def Block.Quiet {P L : Type} (code : Block P L) : Prop :=
  ∀ l ∈ code.silentLoops, ∀ i ∈ l.2, i.value.hears = false

/-- A program that an instance runs without a fault. -/
structure Program.Sound (p : Program) : Prop where
  /-- Its names differ. -/
  distinct : p.Distinct
  /-- Every place that a loop can reach exists. -/
  fits : ∀ l ∈ p.body.loops, ∀ i ∈ l.2, p.instrFits l.1 i = true
  /-- The audio signal is read only where there is one. -/
  quiet : p.body.Quiet
  /-- All its names are known. -/
  addressed : ∃ r, Scope.body ⟨p.layout.1, []⟩ p.body = .ok r

namespace Memory

variable {p : Program} {names : List String} {m : Memory} {σ : Store}

/-- The memory before a frame. -/
def cleared (m : Memory) : Memory := { m with temps := m.temps.map NamedBuffer.cleared }

/-- Clearing the temporaries clears them in the store. -/
theorem Models.cleared (h : m.Models p names σ) (hp : p.Distinct) :
    m.cleared.Models p names (p.refresh σ) := by
  refine ⟨fun {b holder} hb => ?_, h.owners, h.locals_size, h.locals, h.pixels_size, h.pixels⟩
  obtain ⟨data, hdata, hsize, hvalue⟩ := h.buffers hb
  cases hb with
  | @temp k t ht =>
    have htemp : (p.temp? t.symbol).isSome = true := by
      rw [Program.temp?_eq_some hp.symbols (List.mem_of_getElem? ht)]
      rfl
    obtain ⟨nb, hnb, rfl⟩ := Option.map_eq_some_iff.1 hdata
    refine ⟨nb.data.map fun _ => 0, ?_, by simpa using hsize, fun j hj lane hlane => ?_⟩
    · simp [samples, Memory.cleared, hnb, NamedBuffer.cleared]
    · simp only [Array.getElem?_map, hvalue j hj lane hlane, Option.map_some, Program.refresh,
        htemp, if_true]
  | @slot k s hs =>
    have htemp : p.temp? s.symbol = none :=
      Program.temp?_slot hp.symbols (List.mem_of_getElem? hs)
    refine ⟨data, hdata, hsize, fun j hj lane hlane => ?_⟩
    simpa [Program.refresh, htemp] using hvalue j hj lane hlane

end Memory

namespace Instance

/-- An instance of a program consists of its code with addresses and of storage that is zero. -/
theorem ofProgram_eq (p : Program) : ofProgram p =
    Scope.body ⟨p.layout.1, []⟩ p.body >>= fun r => .ok ⟨p, r.2,
      (p.temps.map fun t => NamedBuffer.zeros t.symbol (t.len * t.elem.lanes)).toArray, p.layout.2,
      Array.replicate r.1.locals.length 0⟩ := rfl

end Instance

namespace Simulator

variable {p : Program} {s : Simulator} {σ : Store} {f : Frame}

/-- The storage of a simulator. -/
def memory (s : Simulator) : Memory :=
  ⟨s.state.temps, s.state.arena, s.state.locals, s.pixels⟩

/-- A simulator of a program, with the values of a store. -/
structure Models (p : Program) (s : Simulator) (σ : Store) : Prop where
  program : s.state.program = p
  code : ∃ scope, Scope.body ⟨p.layout.1, []⟩ p.body = .ok (scope, s.state.code) ∧
    s.memory.Models p scope.locals σ

/-- A simulator of a program has as many pixels as the program. -/
theorem Models.pixels_size (h : s.Models p σ) : s.pixels.size = p.frameWidth := by
  obtain ⟨-, scope, -, hm⟩ := h
  exact hm.pixels_size

/-- An instance of a program whose names differ starts with storage that is zero. -/
theorem models_of_ofProgram (hp : p.Distinct) {x : Instance} (h : Instance.ofProgram p = .ok x) :
    (⟨x, x.darkPixels⟩ : Simulator).Models p Store.blank := by
  rw [Instance.ofProgram_eq] at h
  obtain ⟨⟨scope, code⟩, hcode, hx⟩ := Except.bind_eq_ok_iff.1 h
  cases hx
  refine ⟨rfl, scope, hcode, fun {b holder} hb => ?_, ?_, ?_, fun {k name} hk => ?_, ?_,
    fun j hj => ?_⟩
  · refine ⟨Array.replicate (b.len * b.elem.lanes) 0, ?_, by simp, fun j hj lane hlane => ?_⟩
    · cases hb with
      | temp ht => simp [Memory.samples, memory, ht, NamedBuffer.zeros]
      | slot hs => simp [Memory.samples, memory, hp.arena_eq, hs, NamedBuffer.zeros, Elem.lanes]
    · have hlt : j * b.elem.lanes + lane < b.len * b.elem.lanes :=
        calc j * b.elem.lanes + lane < j * b.elem.lanes + b.elem.lanes := by omega
          _ = (j + 1) * b.elem.lanes := (Nat.succ_mul _ _).symm
          _ ≤ b.len * b.elem.lanes := Nat.mul_le_mul_right _ hj
      simp [hlt, Store.blank]
  · simp [memory, hp.arena_eq, NamedBuffer.zeros, Function.comp_def]
  · simp [memory]
  · have hlt := (List.getElem?_eq_some_iff.1 hk).1
    simp [memory, hlt, Store.blank]
  · simp [memory, Instance.darkPixels]
  · simp [memory, Instance.darkPixels, hj, Store.blank]

/-- A new simulator has storage that is zero. -/
theorem exists_ofProgram (hp : p.Sound) :
    ∃ s, ofProgram p = .ok s ∧ s.Models p Store.blank := by
  obtain ⟨⟨scope, code⟩, hcode⟩ := hp.addressed
  have hnew := Instance.ofProgram_eq p
  rw [hcode] at hnew
  exact ⟨_, Except.bind_eq_ok_iff.2 ⟨_, hnew, rfl⟩, models_of_ofProgram hp.distinct hnew⟩

/-- A frame of a program whose places fit does to the storage what it does to the store. Only for
want of an audio signal can it end early, and it leaves storage of the right form then, too. -/
theorem Models.step_cases (h : s.Models p σ) (hp : p.Distinct)
    (hfits : ∀ l ∈ p.body.loops, ∀ i ∈ l.2, p.instrFits l.1 i = true) (hf : f.Complete) :
    (s.step f).2 = none ∧ (s.step f).1.Models p (p.frameStore f σ) ∨
      (s.step f).2 = some .audioMissing ∧ ¬p.body.Quiet ∧ ∃ τ, (s.step f).1.Models p τ := by
  obtain ⟨hprogram, scope, hcode, hm⟩ := h
  have hbelow := Scope.body_below hcode
  have hsim := body_simulates (hm.cleared hp) hp (hbelow.nodup List.nodup_nil) hf rfl
    List.prefix_rfl hcode hfits
  have hsize : s.pixels.size = s.state.program.frameWidth := by
    rw [hprogram]
    exact hm.pixels_size
  generalize hrun : s.state.code.run f s.memory.cleared = r at hsim
  have hrun' : s.state.code.run f ⟨s.state.temps.map NamedBuffer.cleared, s.state.arena,
      s.state.locals, s.pixels⟩ = r := hrun
  -- The run ends well, or at the first instruction that hears nothing.
  cases hsim with
  | @ok m hmodels =>
    refine .inl ⟨?_, ?_⟩
    · simp only [step, Instance.render, if_pos hsize, hrun']
    · simp only [step, Instance.render, if_pos hsize, hrun']
      exact ⟨hprogram, scope, hcode, hmodels⟩
  | @silent m τ _ hhears hmodels =>
    refine .inr ⟨?_, ?_, τ, ?_⟩
    · simp only [step, Instance.render, if_pos hsize, hrun']
    · obtain ⟨l, hl, i, hi, hhears⟩ := hhears
      intro hquiet
      rw [hquiet l hl i hi] at hhears
      cases hhears
    · simp only [step, Instance.render, if_pos hsize, hrun']
      exact ⟨hprogram, scope, hcode, hmodels⟩

/-- A simulator of a sound program renders a frame, which does what it does to the store. -/
theorem Models.render (h : s.Models p σ) (hp : p.Sound) (hf : f.Complete) :
    ∃ s', s.render f = .ok s' ∧ s'.Models p (p.frameStore f σ) := by
  rcases h.step_cases hp.distinct hp.fits hf with ⟨hfault, hmodels⟩ | ⟨-, hloud, -⟩
  · refine ⟨(s.step f).1, ?_, hmodels⟩
    rw [Simulator.render, ← Prod.eta (s.step f), hfault]
  · exact absurd hp.quiet hloud

/-- A simulator of a sound program renders any sequence of frames, and its storage after each is
what the program makes of the store. -/
theorem Models.trace (h : s.Models p σ) (hp : p.Sound) {frames : List Frame}
    (hframes : ∀ f ∈ frames, f.Complete) :
    ∃ ss, s.trace frames = .ok ss ∧ List.Forall₂ (Models p) ss (p.stores σ frames) := by
  induction frames generalizing s σ with
  | nil => exact ⟨[], rfl, .nil⟩
  | cons f rest ih =>
    rw [List.forall_mem_cons] at hframes
    obtain ⟨s', hrender, hs'⟩ := h.render hp hframes.1
    obtain ⟨ss, htrace, hss⟩ := ih hs' hframes.2
    exact ⟨s' :: ss, trace_cons_eq_ok_iff.2 ⟨s', ss, hrender, htrace, rfl⟩, .cons hs' hss⟩

/-- The pixels of a simulator are those of the store that it models. -/
theorem Models.pixels_eq (h : s.Models p σ) :
    s.pixels.toList = (List.range p.frameWidth).map σ.pixel := by
  obtain ⟨-, scope, -, hm⟩ := h
  refine List.ext_getElem? fun j => ?_
  rw [Array.getElem?_toList, List.getElem?_map]
  by_cases hj : j < p.frameWidth
  · rw [show s.pixels[j]? = _ from hm.pixels j hj, List.getElem?_range hj]
    rfl
  · have hsize : s.pixels.size = p.frameWidth := hm.pixels_size
    rw [Array.getElem?_eq_none (by omega), List.getElem?_eq_none (by simpa using hj)]
    rfl

/-- The states of a simulator are those of the store that it models, in the order of the slots. -/
theorem Models.arena_eq (h : s.Models p σ) : s.state.arena = (p.slots.map fun slot =>
    NamedBuffer.mk slot.owner (σ.levels slot.symbol slot.len).toArray).toArray := by
  obtain ⟨-, scope, -, hm⟩ := h
  refine Array.ext_getElem? fun k => ?_
  -- The arena lists the slots in their order, so they are compared one by one.
  have howner := congrArg (·[k]?) hm.owners
  simp only [memory, Array.getElem?_map, List.getElem?_toArray, List.getElem?_map] at howner
  simp only [List.getElem?_toArray, List.getElem?_map]
  rcases hk : p.slots[k]? with _ | slot
  · rw [hk, Option.map_none, Option.map_eq_none_iff] at howner
    exact howner
  · obtain ⟨data, hdata, hsize, hvalue⟩ := hm.buffers (.slot hk)
    obtain ⟨nb, hnb, rfl⟩ := Option.map_eq_some_iff.1 hdata
    have hnb' : s.state.arena[k]? = some nb := hnb
    rw [hnb', hk, Option.map_some, Option.map_some, Option.some.injEq] at howner
    have hlevels : nb.data = (σ.levels slot.symbol slot.len).toArray := by
      refine Array.ext_getElem? fun j => ?_
      by_cases hj : j < slot.len
      · have hj' := hvalue j hj 0 Nat.one_pos
        simp only [Elem.lanes, Nat.mul_one, Nat.add_zero] at hj'
        simp [hj', Store.levels, hj]
      · simp only [Elem.lanes, Nat.mul_one] at hsize
        rw [Array.getElem?_eq_none (by omega),
          Array.getElem?_eq_none (by simpa [Store.levels] using hj)]
    rw [hnb', Option.map_some, ← howner, ← hlevels]

/-- The state of a slot's owner has the values of the slot. -/
theorem Models.state_eq (h : s.Models p σ) (hp : p.Distinct) {slot : Slot}
    (hslot : slot ∈ p.slots) :
    s.state.arena.get? slot.owner = some (σ.levels slot.symbol slot.len).toArray := by
  -- No other state has the owner's name.
  have hnodup : (s.state.arena.toList.map NamedBuffer.name).Nodup := by
    rw [h.arena_eq, List.map_map]
    exact hp.owners
  have hmem : NamedBuffer.mk slot.owner (σ.levels slot.symbol slot.len).toArray ∈
      s.state.arena.toList := by
    rw [h.arena_eq]
    exact List.mem_map_of_mem hslot
  rw [Arena.get?, ← Array.find?_toList, find?_key hnodup hmem, Option.map_some]

end Simulator

end LedPattern
