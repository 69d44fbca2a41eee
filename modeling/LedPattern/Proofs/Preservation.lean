import LedPattern.Proofs.Soundness

/-!
# Lowering preserves meaning

What the program of a graph renders is what the graph means. `Kernel.plan_meaning` says this of the
code with names and of one frame. Here it is carried over all frames of a sequence
(`stores_meanings`), with the vectors of the graph's nodes in the slots of the program as the
invariant, and then to the simulator, whose storage follows the stores (`Simulator.Models.trace`).

Two graphs are therefore compared by what they mean: `meanings_related` does so for all frames, if
it has been done for one.
-/

namespace LedPattern

/-- Two relations along lists of one length compose. -/
theorem forall₂_compose {α β γ : Type} {R : α → β → Prop} {S : β → γ → Prop} {T : α → γ → Prop}
    (hRS : ∀ a b c, R a b → S b c → T a c) {as : List α} {bs : List β} {cs : List γ}
    (hR : List.Forall₂ R as bs) (hS : List.Forall₂ S bs cs) : List.Forall₂ T as cs := by
  induction hR generalizing cs with
  | nil =>
    cases hS
    exact .nil
  | cons hab _ ih =>
    cases hS with
    | cons hbc hrest => exact .cons (hRS _ _ _ hab hbc) (ih hrest)

/-- Clearing the temporaries leaves the vectors in the slots. -/
theorem Store.Keeps.refresh {p : Program} (hp : p.Distinct) {σ : Store} {v : Vectors}
    (h : σ.Keeps p.slots v) : (p.refresh σ).Keeps p.slots v := by
  intro slot hslot
  rw [← h slot hslot]
  simp [Store.levels, Program.refresh, Program.temp?_slot hp.symbols hslot]

namespace Graph

variable {g : Graph} {pl : Plan}

/-- Before the first frame the slots hold the vectors of the graph's nodes. -/
theorem keeps_blank (hg : g.WellFormed) (h : Planned g.frameWidth none g.nodes pl) :
    Store.blank.Keeps (g.programOf pl).slots g.restingVectors := by
  intro slot hslot
  rw [restingVectors_slot hg h hslot]
  simp [Store.levels, Store.blank]

/-- One frame of the program shows what the graph means, and leaves its vectors in the slots. -/
theorem frameStore_meaning (hg : g.WellFormed) (h : Planned g.frameWidth none g.nodes pl)
    {f : Frame} (hf : f.Complete) {σ : Store} {v : Vectors}
    (hv : σ.Keeps (g.programOf pl).slots v) :
    ∃ w, g.meaning f v = some ((List.range g.frameWidth).map
        ((g.programOf pl).frameStore f σ).pixel, w) ∧
      ((g.programOf pl).frameStore f σ).Keeps (g.programOf pl).slots w := by
  have hwidth := hg.width_lt
  have hstart := hv.refresh (programOf_sound hg h).distinct
  exact Kernel.plan_meaning h hf hwidth (owners_nodup hwidth hg.distinctStates h) hstart

/-- Every frame of a sequence shows what the graph means. -/
theorem stores_meanings (hg : g.WellFormed) (h : Planned g.frameWidth none g.nodes pl)
    {frames : List Frame} (hframes : ∀ f ∈ frames, f.Complete) {σ : Store} {v : Vectors}
    (hv : σ.Keeps (g.programOf pl).slots v) :
    ∃ steps, g.meanings v frames = some steps ∧ List.Forall₂
      (fun τ step => step.1 = (List.range g.frameWidth).map τ.pixel ∧
        τ.Keeps (g.programOf pl).slots step.2)
      ((g.programOf pl).stores σ frames) steps := by
  induction frames generalizing σ v with
  | nil => exact ⟨[], rfl, .nil⟩
  | cons f rest ih =>
    rw [List.forall_mem_cons] at hframes
    -- The vectors after this frame are those that the next frame starts with.
    obtain ⟨w, hmeaning, hw⟩ := frameStore_meaning hg h hframes.1 hv
    obtain ⟨steps, hsteps, hrest⟩ := ih hframes.2 hw
    refine ⟨(_, w) :: steps, ?_, .cons ⟨rfl, hw⟩ hrest⟩
    simp [meanings, hmeaning, hsteps]

/-- Graphs that mean related pixels on one frame mean related pixels on all frames of a sequence, if
their vectors stay related. -/
theorem meanings_related {g' : Graph} {R : Vectors → Vectors → Prop}
    {Q : List Pixel → List Pixel → Prop}
    (hstep : ∀ f v w ps v', R v w → g.meaning f v = some (ps, v') →
      ∃ qs w', g'.meaning f w = some (qs, w') ∧ Q ps qs ∧ R v' w')
    {frames : List Frame} {v w : Vectors} (hvw : R v w) {steps : List (List Pixel × Vectors)}
    (h : g.meanings v frames = some steps) :
    ∃ steps', g'.meanings w frames = some steps' ∧
      List.Forall₂ (fun a b => Q a.1 b.1) steps steps' := by
  induction frames generalizing v w steps with
  | nil =>
    obtain rfl := Option.some.inj h
    exact ⟨[], rfl, .nil⟩
  | cons f rest ih =>
    obtain ⟨⟨ps, v'⟩, hfirst, h⟩ := Option.bind_eq_some_iff.1 h
    obtain ⟨more, hmore, h⟩ := Option.bind_eq_some_iff.1 h
    obtain rfl := Option.some.inj h
    -- The vectors after this frame are related, as they were before it.
    obtain ⟨qs, w', hfirst', hpixels, hvw'⟩ := hstep f v w ps v' hvw hfirst
    obtain ⟨more', hmore', hrest⟩ := ih hvw' hmore
    refine ⟨(qs, w') :: more', ?_, .cons hpixels hrest⟩
    exact Option.bind_eq_some_iff.2 ⟨_, hfirst', Option.bind_eq_some_iff.2 ⟨_, hmore', rfl⟩⟩

/-- A simulator of a graph's program shows the pixels that the graph means, one for each LED. -/
theorem trace_meanings (hg : g.WellFormed) (h : Planned g.frameWidth none g.nodes pl)
    {sim : Simulator} (hsim : sim.Models (g.programOf pl) Store.blank) {frames : List Frame}
    (hframes : ∀ f ∈ frames, f.Complete) :
    ∃ ss steps, sim.trace frames = .ok ss ∧ g.meanings g.restingVectors frames = some steps ∧
      List.Forall₂ (fun s step => s.pixels.toList = step.1 ∧ s.pixels.size = g.frameWidth)
        ss steps := by
  obtain ⟨ss, htrace, hmodels⟩ := hsim.trace (programOf_sound hg h) hframes
  obtain ⟨steps, hsteps, hmeanings⟩ := stores_meanings hg h hframes (keeps_blank hg h)
  refine ⟨ss, steps, htrace, hsteps, forall₂_compose ?_ hmodels hmeanings⟩
  rintro s τ step hs ⟨hstep, -⟩
  refine ⟨hs.pixels_eq.trans hstep.symm, ?_⟩
  have hlength := congrArg List.length hs.pixels_eq
  rwa [Array.length_toList, List.length_map, List.length_range] at hlength

end Graph

/-- Lowering preserves meaning. A simulator of a graph's program renders every sequence of frames
without a fault. After each frame its pixels and the states of all nodes that have one are those of
the graph's own meaning. -/
theorem simulator_renders_meaning {source : String} {g : Graph} {p : Program}
    (hload : (Graph.load source).value = some g) (hlower : g.lower.program = some p)
    {frames : List Frame} (hframes : ∀ f ∈ frames, f.Complete) :
    ∃ sim trace steps, Simulator.ofProgram p = .ok sim ∧ sim.trace frames = .ok trace ∧
      g.meanings g.restingVectors frames = some steps ∧
      List.Forall₂ (fun s step => s.pixels.toList = step.1 ∧
        ∀ n ∈ g.allNodes, n.IsKind .persistDecay →
          s.state.arena.get? n.id = some (step.2 n.id).toArray) trace steps := by
  have hg := Graph.wellFormed_of_load hload
  obtain ⟨pl, hplan, rfl⟩ := Graph.exists_plan_of_lower hlower
  have hsound := Graph.programOf_sound hg hplan
  -- The simulator follows the stores, and the stores follow the meaning.
  obtain ⟨sim, hsim, hmodels⟩ := Simulator.exists_ofProgram hsound
  obtain ⟨trace, htrace, hstores⟩ := hmodels.trace hsound hframes
  obtain ⟨steps, hsteps, hmeanings⟩ :=
    Graph.stores_meanings hg hplan hframes (Graph.keeps_blank hg hplan)
  refine ⟨sim, trace, steps, hsim, htrace, hsteps, forall₂_compose ?_ hstores hmeanings⟩
  rintro s τ step hs ⟨hpixels, hkeeps⟩
  refine ⟨hs.pixels_eq.trans hpixels.symm, fun n hn hkind => ?_⟩
  -- A node with a state owns a slot, which holds its vector.
  obtain ⟨slot, hslot, howner⟩ := Graph.exists_slot hg hplan hn hkind
  rw [← howner, hs.state_eq hsound.distinct hslot, hkeeps slot hslot]

/-- A frame with sound in all bins. -/
def loudFrame : Frame := ⟨0, some ⟨Array.replicate spectrumBins 1, 1⟩, {}⟩

/-- A frame without an audio signal. -/
def silentFrame : Frame := ⟨0, none, {}⟩

/-- The chain with a fork takes one way when there is sound and the other when there is none, and
shows on each frame what it means. -/
theorem forkedSource_renders_meaning :
    ∃ g p, (Graph.load forkedSource).value = some g ∧ g.lower.program = some p ∧
      (∀ f ∈ [loudFrame, silentFrame, loudFrame], f.Complete) ∧
      ∃ sim trace steps, Simulator.ofProgram p = .ok sim ∧
        sim.trace [loudFrame, silentFrame, loudFrame] = .ok trace ∧
        g.meanings g.restingVectors [loudFrame, silentFrame, loudFrame] = some steps ∧
        List.Forall₂ (fun s step => s.pixels.toList = step.1 ∧
          ∀ n ∈ g.allNodes, n.IsKind .persistDecay →
            s.state.arena.get? n.id = some (step.2 n.id).toArray) trace steps := by
  obtain ⟨g, hload, hsome⟩ := forkedSource_lowers
  obtain ⟨p, hlower⟩ := Option.isSome_iff_exists.1 hsome
  have hframes : ∀ f ∈ [loudFrame, silentFrame, loudFrame], f.Complete := by
    simp [loudFrame, silentFrame, Frame.Complete]
  exact ⟨g, p, hload, hlower, hframes, simulator_renders_meaning hload hlower hframes⟩

end LedPattern
