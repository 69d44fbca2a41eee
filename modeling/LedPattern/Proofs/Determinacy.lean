import LedPattern.Proofs.Faults

/-!
# What a rendering depends on

Whatever happens to an instance, its storage keeps its form: the names and the sizes of all buffers
(`Instance.form`). What the storage contains may be anything. An instance of a program is one of its
form (`Instance.IsOf`), and these are all that renderings and resets can lead to.

The pixels that an instance of a graph's program shows, and the states that it leaves, are the
meaning that the graph gives to its states and the frame (`Graph.answer_meaning`). So temporaries,
locals and old pixels make no difference (`rendering_depends_on_states`), and a simulator that is
reset is as good as new.
-/

namespace LedPattern

/-- The name of a buffer and the number of its samples. -/
def NamedBuffer.form (b : NamedBuffer) : String × Nat := (b.name, b.data.size)

/-- A cleared buffer has the form it had. -/
theorem NamedBuffer.form_cleared (b : NamedBuffer) : b.cleared.form = b.form := by
  simp [form, cleared]

/-- A cleared buffer is one of zeros. -/
theorem NamedBuffer.cleared_eq (b : NamedBuffer) :
    b.cleared = NamedBuffer.zeros b.form.1 b.form.2 := by
  simp [cleared, zeros, form, Array.map_const']

/-- Resetting depends on the form alone. -/
theorem Arena.reset_eq (a : Arena) :
    a.reset = (a.map NamedBuffer.form).map fun form => NamedBuffer.zeros form.1 form.2 := by
  rw [reset, Array.map_map]
  exact Array.map_congr_left fun b _ => b.cleared_eq

/-! ## The form of storage -/

namespace Memory

/-- The names and sizes of all storage. -/
def form (m : Memory) : Array (String × Nat) × Array (String × Nat) × Nat × Nat :=
  (m.temps.map NamedBuffer.form, m.arena.map NamedBuffer.form, m.locals.size, m.pixels.size)

/-- Changing a sample keeps the form of the buffers. -/
theorem map_form_setSample (bs : Array NamedBuffer) (n at' : Nat) (value : Float32) :
    (setSample bs n at' value).map NamedBuffer.form = bs.map NamedBuffer.form := by
  refine Array.ext_getElem? fun k => ?_
  simp only [setSample, Array.getElem?_map, Array.getElem?_modify]
  by_cases h : n = k
  · subst h
    rcases bs[n]? with _ | b <;> simp [NamedBuffer.form]
  · simp [h]

/-- The memory that a run leaves, whether it faults or not. -/
def left : Except Halt Memory → Memory
  | .ok m => m
  | .error halt => halt.memory

/-- Changing an element keeps the form. -/
theorem form_set (m : Memory) (region : Region) (j : Nat) (value : Float32) :
    (left (m.set region j value)).form = m.form := by
  cases region <;> simp only [set] <;> split <;> simp [left, form, map_form_setSample]

/-- An instruction keeps the form. -/
theorem form_instr (f : Frame) (i : Nat) (m : Memory) (instr : Instr Address Nat) :
    (left (instr.run f i m)).form = m.form := by
  cases instr with
  | bind number value =>
    rw [Instr.run]
    split
    · rw [setLocal]
      split
      · simp [left, form]
      · rfl
    · rfl
  | store a value =>
    rw [Instr.run]
    split
    · rw [write]
      split
      · exact form_set m _ _ _
      · rfl
    · rfl

/-- Steps, one after another, keep the form. -/
theorem form_runSteps (f : Frame) (steps : List (Nat × Instr Address Nat)) (m : Memory) :
    (left (runSteps f steps m)).form = m.form := by
  induction steps generalizing m with
  | nil => rfl
  | cons step rest ih =>
    obtain ⟨i, instr⟩ := step
    have hfirst := form_instr f i m instr
    rw [runSteps]
    cases hrun : instr.run f i m with
    | ok next =>
      rw [hrun] at hfirst
      exact (ih next).trans hfirst
    | error halt =>
      rw [hrun] at hfirst
      exact hfirst

/-- Code keeps the form. -/
theorem form_run (f : Frame) (code : MachineCode) (m : Memory) :
    (left (code.run f m)).form = m.form := by
  rw [Block.run_eq_runSteps]
  exact form_runSteps f _ m

/-- The number of samples of a buffer is part of the form. -/
theorem size_samples_congr {m n : Memory} (htemps : m.temps.map NamedBuffer.form =
      n.temps.map NamedBuffer.form) (harena : m.arena.map NamedBuffer.form =
      n.arena.map NamedBuffer.form) (holder : Holder) :
    (m.samples holder).map Array.size = (n.samples holder).map Array.size := by
  cases holder with
  | temp k =>
    have hk := congrArg (fun bs => bs[k]?.map Prod.snd) htemps
    simpa [samples, Function.comp_def, NamedBuffer.form] using hk
  | slot k =>
    have hk := congrArg (fun bs => bs[k]?.map Prod.snd) harena
    simpa [samples, Function.comp_def, NamedBuffer.form] using hk

/-- The store that memory stands for if its program binds symbols as in `bindings` and has the
locals `names`. -/
def store (m : Memory) (bindings : List Binding) (names : List String) : Store where
  cell := fun symbol j lane =>
    ((bindings.find? fun b => b.symbol = symbol).bind fun b =>
      (m.samples b.holder).bind fun data => data[j * b.elem.lanes + lane]?).getD 0
  locals := fun name => m.locals.getD (names.idxOf name) 0
  pixel := fun j => m.pixels.getD j Pixel.dark

end Memory

/-! ## Instances of a program -/

namespace Instance

/-- What nothing changes in an instance: program, code, and the form of its storage. -/
structure Form where
  program : Program
  code : MachineCode
  temps : Array (String × Nat)
  arena : Array (String × Nat)
  locals : Nat

/-- The form of an instance. -/
def form (x : Instance) : Form where
  program := x.program
  code := x.code
  temps := x.temps.map NamedBuffer.form
  arena := x.arena.map NamedBuffer.form
  locals := x.locals.size

/-- The instance has the form of a new instance of a program. Its states, temporaries and locals
may have any values. -/
def IsOf (p : Program) (x : Instance) : Prop := ∃ new, ofProgram p = .ok new ∧ x.form = new.form

variable {p : Program} {x : Instance}

/-- A rendering leaves the memory that the code leaves, whether it faults or not. -/
theorem render_left (x : Instance) (f : Frame) {pixels : Array Pixel}
    (h : pixels.size = x.program.frameWidth) :
    (x.render f pixels).state = x.withMemory (Memory.left (x.code.run f (x.start pixels))) ∧
      (x.render f pixels).pixels = (Memory.left (x.code.run f (x.start pixels))).pixels := by
  simp only [render, if_pos h, start]
  split <;> exact ⟨by simp_all [Memory.left], by simp_all [Memory.left]⟩

/-- Rendering keeps the form. -/
theorem form_render (x : Instance) (f : Frame) (pixels : Array Pixel) :
    (x.render f pixels).state.form = x.form := by
  by_cases hsize : pixels.size = x.program.frameWidth
  · have hrun := Memory.form_run f x.code (x.start pixels)
    have hcleared : (x.temps.map NamedBuffer.cleared).map NamedBuffer.form =
        x.temps.map NamedBuffer.form := by
      rw [Array.map_map]
      exact Array.map_congr_left fun b _ => b.form_cleared
    simp only [Memory.form, start, Prod.mk.injEq, hcleared] at hrun
    rw [(render_left x f hsize).1]
    simp only [form, withMemory, Form.mk.injEq, true_and]
    exact ⟨hrun.1, hrun.2.1, hrun.2.2.1⟩
  · rw [render, if_neg hsize]

/-- Rendering keeps the number of pixels. -/
theorem size_render (x : Instance) (f : Frame) (pixels : Array Pixel) :
    (x.render f pixels).pixels.size = pixels.size := by
  by_cases hsize : pixels.size = x.program.frameWidth
  · have hrun := Memory.form_run f x.code (x.start pixels)
    simp only [Memory.form, Prod.mk.injEq] at hrun
    rw [(render_left x f hsize).2]
    exact hrun.2.2.2
  · rw [render, if_neg hsize]

/-- Resetting keeps the form. -/
theorem form_reset (x : Instance) : x.reset.form = x.form := by
  simp only [form, reset, Arena.reset, Array.map_map, Form.mk.injEq, true_and, and_true]
  exact Array.map_congr_left fun b _ => b.form_cleared

/-- A rendering leads to an instance of the same program. -/
theorem IsOf.render (h : x.IsOf p) (f : Frame) (pixels : Array Pixel) :
    (x.render f pixels).state.IsOf p := by
  obtain ⟨new, hnew, hform⟩ := h
  exact ⟨new, hnew, (form_render x f pixels).trans hform⟩

/-- Any number of renderings leads to an instance of the same program. -/
theorem IsOf.after (h : x.IsOf p) (calls : List Call) : (x.after calls).IsOf p := by
  induction calls generalizing x with
  | nil => exact h
  | cons call rest ih => exact ih (h.render call.frame call.pixels)

/-- A reset leads to an instance of the same program. -/
theorem IsOf.reset (h : x.IsOf p) : x.reset.IsOf p := by
  obtain ⟨new, hnew, hform⟩ := h
  exact ⟨new, hnew, (form_reset x).trans hform⟩

/-- The states after a reset are those of a new instance. -/
theorem reset_arena_eq (hp : p.Distinct) {new : Instance} (hnew : ofProgram p = .ok new)
    (hform : x.form = new.form) : x.reset.arena = new.arena := by
  have harena : x.arena.map NamedBuffer.form = new.arena.map NamedBuffer.form :=
    congrArg Form.arena hform
  have hzero : new.arena = (p.slots.map fun s => NamedBuffer.zeros s.owner s.len).toArray := by
    rw [ofProgram_eq] at hnew
    obtain ⟨_, -, hnew⟩ := Except.bind_eq_ok_iff.1 hnew
    cases hnew
    exact hp.arena_eq
  calc x.reset.arena = x.arena.reset := rfl
    _ = new.arena.reset := by rw [Arena.reset_eq, harena, ← Arena.reset_eq]
    _ = new.arena := by
      rw [hzero, Arena.reset]
      simp [NamedBuffer.cleared, NamedBuffer.zeros, Function.comp_def]

/-- An instance of a program has the storage that the program asks for, whatever it contains. -/
theorem IsOf.serves (hp : p.Distinct) (h : x.IsOf p) : x.Serves p := by
  obtain ⟨new, hnew, hform⟩ := h
  obtain ⟨hprogram, scope, hcode, hm⟩ := Simulator.models_of_ofProgram hp hnew
  have hnodup := (Scope.body_below hcode).nodup List.nodup_nil
  have htemps := congrArg Form.temps hform
  have harena := congrArg Form.arena hform
  have hlocals : x.locals.size = scope.locals.length :=
    (congrArg Form.locals hform).trans hm.locals_size
  intro pixels hsize
  -- The values are those that the storage itself gives to the names.
  refine ⟨(Simulator.mk x pixels).memory.store p.layout.1 scope.locals,
    (congrArg Form.program hform).trans hprogram, scope, ?_, ?_⟩
  · rw [hcode]
    exact congrArg (fun form : Form => Except.ok (scope, form.code)) hform.symm
  · refine ⟨fun {b holder} hb => ?_, ?_, hlocals, fun {k name} hk => ?_, hsize, fun j hj => ?_⟩
    · obtain ⟨data, hdata, hlen, -⟩ := hm.buffers hb
      have hcount := Memory.size_samples_congr (m := (Simulator.mk x pixels).memory)
        (n := (Simulator.mk new new.darkPixels).memory) htemps harena holder
      rw [hdata, Option.map_some] at hcount
      obtain ⟨own, hown, hownSize⟩ := Option.map_eq_some_iff.1 hcount
      refine ⟨own, hown, hownSize.trans hlen, fun j hj lane hlane => ?_⟩
      have hlt : j * b.elem.lanes + lane < own.size := by
        rw [hownSize, hlen]
        calc j * b.elem.lanes + lane < j * b.elem.lanes + b.elem.lanes := by omega
          _ = (j + 1) * b.elem.lanes := (Nat.succ_mul _ _).symm
          _ ≤ b.len * b.elem.lanes := Nat.mul_le_mul_right _ hj
      simp [Memory.store, hp.find?_of_assigns hb, hown, hlt]
    · have hnames := congrArg (Array.map Prod.fst) harena
      simp only [form, Array.map_map] at hnames
      exact hnames.trans hm.owners
    · have hlt := (List.getElem?_eq_some_iff.1 hk).1
      have hidx : scope.locals.idxOf name = k := by
        obtain ⟨hk', rfl⟩ := List.getElem?_eq_some_iff.1 hk
        exact hnodup.idxOf_getElem k hk'
      have hlt' : k < x.locals.size := by omega
      simp [Memory.store, Simulator.memory, hidx, hlt']
    · have hlt : j < pixels.size := by omega
      simp [Memory.store, Simulator.memory, hlt]

end Instance

/-! ## Renderings of a graph's program -/

/-- The vectors that an arena holds. -/
def Arena.vectors (a : Arena) : Vectors := fun id => ((a.get? id).getD #[]).toList

/-- A store has the vectors of the simulator's arena. -/
theorem Simulator.Models.keeps {p : Program} {s : Simulator} {σ : Store} (h : s.Models p σ)
    (hp : p.Distinct) : σ.Keeps p.slots s.state.arena.vectors := by
  intro slot hslot
  simp [Arena.vectors, h.state_eq hp hslot]

namespace Graph

variable {g : Graph} {pl : Plan} {x : Instance}

/-- What an instance of a graph's program shows and leaves is the meaning of its states. -/
theorem answer_meaning (hg : g.WellFormed) (h : Planned g.frameWidth none g.nodes pl)
    (hx : x.IsOf (g.programOf pl)) {call : Call} (hcall : call.Fits (g.programOf pl).frameWidth) :
    (x.answer call).fault = none ∧ ∃ w,
      g.meaning call.frame x.arena.vectors = some ((x.answer call).pixels.toList, w) ∧
      (x.answer call).state.arena = ((g.programOf pl).slots.map fun slot =>
        NamedBuffer.mk slot.owner (w slot.owner).toArray).toArray := by
  have hsound := programOf_sound hg h
  obtain ⟨σ, hmodels⟩ := hx.serves hsound.distinct call.pixels hcall.size
  obtain ⟨w, hmeaning, hkeeps⟩ :=
    frameStore_meaning hg h hcall.complete (hmodels.keeps hsound.distinct)
  rcases hmodels.step_cases hsound.distinct hsound.fits hcall.complete with
    ⟨hfault, hnext⟩ | ⟨-, hloud, -⟩
  · refine ⟨hfault, w, ?_, ?_⟩
    · rw [hmeaning]
      exact congrArg (fun pixels => some (pixels, w)) hnext.pixels_eq.symm
    · refine hnext.arena_eq.trans (congrArg List.toArray (List.map_congr_left fun slot hslot => ?_))
      rw [hkeeps slot hslot]
  · exact absurd hsound.quiet hloud

/-- Two instances of a graph's program with the same states show the same and leave the same
states. -/
theorem renders_agree (hg : g.WellFormed) (h : Planned g.frameWidth none g.nodes pl)
    {y : Instance} (hx : x.IsOf (g.programOf pl)) (hy : y.IsOf (g.programOf pl))
    (harena : x.arena = y.arena) {f : Frame} (hf : f.Complete) {px py : Array Pixel}
    (hpx : px.size = (g.programOf pl).frameWidth) (hpy : py.size = (g.programOf pl).frameWidth) :
    (x.render f px).fault = none ∧ (y.render f py).fault = none ∧
      (x.render f px).pixels = (y.render f py).pixels ∧
      (x.render f px).state.arena = (y.render f py).state.arena := by
  have hcallx : (Call.mk f px).Fits (g.programOf pl).frameWidth := ⟨hf, hpx⟩
  have hcally : (Call.mk f py).Fits (g.programOf pl).frameWidth := ⟨hf, hpy⟩
  obtain ⟨hxfault, v, hxmeaning, hxarena⟩ := answer_meaning hg h hx hcallx
  obtain ⟨hyfault, w, hymeaning, hyarena⟩ := answer_meaning hg h hy hcally
  -- Both are the meaning of one frame at the same vectors.
  rw [harena] at hxmeaning
  obtain ⟨hpixels, rfl⟩ := Prod.mk.inj (Option.some.inj (hxmeaning.symm.trans hymeaning))
  exact ⟨hxfault, hyfault, Array.toList_inj.1 hpixels, hxarena.trans hyarena.symm⟩

end Graph

namespace Simulator

/-- Two simulators of a program that have the same states. All else may differ. -/
structure Agree (p : Program) (s t : Simulator) : Prop where
  left : s.state.IsOf p
  right : t.state.IsOf p
  left_size : s.pixels.size = p.frameWidth
  right_size : t.pixels.size = p.frameWidth
  arena : s.state.arena = t.state.arena

variable {g : Graph} {pl : Plan} {s t : Simulator}

/-- A simulator renders a frame if its instance does not fault. -/
theorem render_eq_ok {f : Frame} (h : (s.state.render f s.pixels).fault = none) :
    s.render f = .ok ⟨(s.state.render f s.pixels).state, (s.state.render f s.pixels).pixels⟩ := by
  simp only [render, step, h]

/-- Simulators that agree show the same on a frame, and agree after it. -/
theorem Agree.render (hg : g.WellFormed) (h : Planned g.frameWidth none g.nodes pl)
    (hst : Agree (g.programOf pl) s t) {f : Frame} (hf : f.Complete) :
    ∃ s' t', s.render f = .ok s' ∧ t.render f = .ok t' ∧ s'.pixels = t'.pixels ∧
      Agree (g.programOf pl) s' t' := by
  obtain ⟨hsfault, htfault, hpixels, harena⟩ :=
    Graph.renders_agree hg h hst.left hst.right hst.arena hf hst.left_size hst.right_size
  refine ⟨_, _, render_eq_ok hsfault, render_eq_ok htfault, hpixels, ?_⟩
  exact ⟨hst.left.render f _, hst.right.render f _,
    (Instance.size_render _ f _).trans hst.left_size,
    (Instance.size_render _ f _).trans hst.right_size, harena⟩

/-- Simulators of a graph's program that agree show the same pixels on every frame of a sequence. -/
theorem Agree.trace (hg : g.WellFormed) (h : Planned g.frameWidth none g.nodes pl)
    (hst : Agree (g.programOf pl) s t) {frames : List Frame} (hframes : ∀ f ∈ frames, f.Complete) :
    ∃ ss ts, s.trace frames = .ok ss ∧ t.trace frames = .ok ts ∧
      ss.map Simulator.pixels = ts.map Simulator.pixels := by
  induction frames generalizing s t with
  | nil => exact ⟨[], [], rfl, rfl, rfl⟩
  | cons f rest ih =>
    rw [List.forall_mem_cons] at hframes
    obtain ⟨s', t', hs, ht, hpixels, hnext⟩ := hst.render hg h hframes.1
    obtain ⟨ss, ts, hss, hts, hmap⟩ := ih hnext hframes.2
    refine ⟨s' :: ss, t' :: ts, trace_cons_eq_ok_iff.2 ⟨s', ss, hs, hss, rfl⟩,
      trace_cons_eq_ok_iff.2 ⟨t', ts, ht, hts, rfl⟩, ?_⟩
    rw [List.map_cons, List.map_cons, hpixels, hmap]

/-- A simulator renders all frames of a sequence, and is one of its program after them. -/
theorem Agree.foldlM (hg : g.WellFormed) (h : Planned g.frameWidth none g.nodes pl)
    (hs : Agree (g.programOf pl) s s) {frames : List Frame}
    (hframes : ∀ f ∈ frames, f.Complete) :
    ∃ used, frames.foldlM Simulator.render s = .ok used ∧ Agree (g.programOf pl) used used := by
  induction frames generalizing s with
  | nil => exact ⟨s, rfl, hs⟩
  | cons f rest ih =>
    rw [List.forall_mem_cons] at hframes
    obtain ⟨s', _, hrender, -, -, hnext⟩ := hs.render hg h hframes.1
    obtain ⟨used, hused, hagree⟩ := ih
      ⟨hnext.left, hnext.left, hnext.left_size, hnext.left_size, rfl⟩ hframes.2
    exact ⟨used, Except.bind_eq_ok_iff.2 ⟨s', hrender, hused⟩, hagree⟩

end Simulator

/-- A rendering of a graph's program depends only on the states and the frame. Calls of any kind
lead to instances of the program. Two of these with the same states render the same pixels and leave
the same states, whatever temporaries, locals and pixels they start with. And a simulator that has
rendered some frames and is reset renders what a new one does. -/
theorem rendering_depends_on_states {source : String} {g : Graph} {p : Program}
    (hload : (Graph.load source).value = some g) (hlower : g.lower.program = some p) :
    (∃ new, Instance.ofProgram p = .ok new ∧ ∀ calls, (new.after calls).IsOf p) ∧
    (∀ x y : Instance, x.IsOf p → y.IsOf p → x.arena = y.arena →
      ∀ (f : Frame) (px py : Array Pixel), f.Complete →
        px.size = p.frameWidth → py.size = p.frameWidth →
        (x.render f px).fault = none ∧ (y.render f py).fault = none ∧
          (x.render f px).pixels = (y.render f py).pixels ∧
          (x.render f px).state.arena = (y.render f py).state.arena) ∧
    ∀ before frames : List Frame, (∀ f ∈ before, f.Complete) → (∀ f ∈ frames, f.Complete) →
      ∃ sim used again fresh, Simulator.ofProgram p = .ok sim ∧
        before.foldlM Simulator.render sim = .ok used ∧
        used.reset.trace frames = .ok again ∧ sim.trace frames = .ok fresh ∧
        again.map Simulator.pixels = fresh.map Simulator.pixels := by
  have hg := Graph.wellFormed_of_load hload
  obtain ⟨pl, hplan, rfl⟩ := Graph.exists_plan_of_lower hlower
  have hsound := Graph.programOf_sound hg hplan
  obtain ⟨sim, hsim, hmodels⟩ := Simulator.exists_ofProgram hsound
  obtain ⟨new, hnew, hdark⟩ := Except.bind_eq_ok_iff.1 hsim
  obtain rfl : Simulator.mk new new.darkPixels = sim := Except.ok.inj hdark
  have hisOf : new.IsOf (g.programOf pl) := ⟨new, hnew, rfl⟩
  have hsize : new.darkPixels.size = (g.programOf pl).frameWidth := hmodels.pixels_size
  refine ⟨⟨new, hnew, hisOf.after⟩, ?_, fun before frames hbefore hframes => ?_⟩
  · intro x y hx hy harena f px py hf hpx hpy
    exact Graph.renders_agree hg hplan hx hy harena hf hpx hpy
  · obtain ⟨used, hused, hagree⟩ :=
      Simulator.Agree.foldlM hg hplan (s := ⟨new, new.darkPixels⟩)
        ⟨hisOf, hisOf, hsize, hsize, rfl⟩ hbefore
    -- A reset makes the states those of the new simulator.
    have harena : used.reset.state.arena = new.arena := by
      obtain ⟨other, hother, hform⟩ := hagree.left
      obtain rfl : new = other := Except.ok.inj (hnew.symm.trans hother)
      exact Instance.reset_arena_eq hsound.distinct hnew hform
    have hreset : Simulator.Agree (g.programOf pl) used.reset ⟨new, new.darkPixels⟩ :=
      ⟨hagree.left.reset, hisOf, hagree.left_size, hsize, harena⟩
    obtain ⟨again, fresh, hagain, hfresh, hpixels⟩ := hreset.trace hg hplan hframes
    exact ⟨_, used, again, fresh, hsim, hused, hagain, hfresh, hpixels⟩

/-- For the chain with a fork: an instance that has seen a loud frame, and one with its states but
with ones for all locals and nothing kept in its temporaries, show the same next. -/
theorem forkedSource_depends_on_states :
    ∃ g p, (Graph.load forkedSource).value = some g ∧ g.lower.program = some p ∧
      ∃ x y : Instance, x.IsOf p ∧ y.IsOf p ∧ x.arena = y.arena ∧
        y.locals = x.locals.map (fun _ => 1) ∧
        (x.render silentFrame (Array.replicate p.frameWidth Pixel.dark)).pixels =
          (y.render silentFrame (Array.replicate p.frameWidth ⟨255, 255, 255⟩)).pixels ∧
        ∃ sim used again fresh, Simulator.ofProgram p = .ok sim ∧
          [loudFrame, silentFrame].foldlM Simulator.render sim = .ok used ∧
          used.reset.trace [silentFrame, loudFrame] = .ok again ∧
          sim.trace [silentFrame, loudFrame] = .ok fresh ∧
          again.map Simulator.pixels = fresh.map Simulator.pixels := by
  obtain ⟨g, hload, hsome⟩ := forkedSource_lowers
  obtain ⟨p, hlower⟩ := Option.isSome_iff_exists.1 hsome
  have hloud : loudFrame.Complete := by simp [loudFrame, Frame.Complete]
  have hsilent : silentFrame.Complete := by simp [silentFrame, Frame.Complete]
  obtain ⟨⟨new, hnew, hafter⟩, hagree, hreset⟩ := rendering_depends_on_states hload hlower
  have hx := hafter [⟨loudFrame, Array.replicate p.frameWidth Pixel.dark⟩]
  generalize new.after [⟨loudFrame, Array.replicate p.frameWidth Pixel.dark⟩] = x at hx
  let y : Instance :=
    { x with temps := x.temps.map NamedBuffer.cleared, locals := x.locals.map fun _ => 1 }
  have hy : y.IsOf p := by
    obtain ⟨first, hfirst, hform⟩ := hx
    refine ⟨first, hfirst, ?_⟩
    rw [← hform]
    simp [y, Instance.form, Function.comp_def, NamedBuffer.form_cleared]
  refine ⟨g, p, hload, hlower, x, y, hx, hy, rfl, rfl, ?_, ?_⟩
  · exact (hagree x y hx hy rfl silentFrame _ _ hsilent (by simp) (by simp)).2.2.1
  · exact hreset [loudFrame, silentFrame] [silentFrame, loudFrame] (by simp [hloud, hsilent])
      (by simp [hloud, hsilent])

end LedPattern
