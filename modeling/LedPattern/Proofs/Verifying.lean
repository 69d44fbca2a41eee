import LedPattern.Compilation
import LedPattern.Proofs.Emission
import LedPattern.Proofs.Erasure
import LedPattern.Proofs.Soundness

/-!
# Artifacts verify

The artifact of a graph passes its own verification: `compilation_verifies` says so of the whole
way from a description to the report, for every number of frames and all parameters.

The program that is read from the artifact and the program of the graph do the same to a store
(`Program.stores_erased`), and a simulator of either follows the store. So on each frame the two
show the same pixels, and a report only counts them (`addFrames_erased`).
-/

namespace LedPattern

namespace Comparison

/-- Pixels that agree are counted and change nothing else. -/
theorem addPixels_self (frame pixel : Nat) (l : List Pixel) (r : Comparison) :
    addPixels frame pixel (l.zip l) r =
      { r with pixelsCompared := r.pixelsCompared + l.length } := by
  induction l generalizing pixel r with
  | nil => rfl
  | cons x rest ih =>
    rw [List.zip_cons_cons, addPixels, add, if_pos rfl, ih, List.length_cons]
    simp only [Nat.add_assoc, Nat.add_comm 1]

end Comparison

/-- The frames that verification makes up have a level for every bin. -/
theorem SyntheticInput.frame_complete (input : SyntheticInput) (k : UInt32) :
    (input.frame k).Complete := by
  intro audio haudio
  have hsome : some (snapshot k) = some audio := by
    simp only [frame] at haudio
    split at haudio
    · cases haudio
    · exact haudio
  rw [← Option.some.inj hsome]
  simp [snapshot]

namespace Simulator

variable {p : Program}

/-- Simulators that follow stores show the pixels of the stores. -/
theorem map_pixels_of_models {ss : List Simulator} {τs : List Store}
    (h : List.Forall₂ (Models p) ss τs) :
    ss.map pixels = τs.map fun τ => ((List.range p.frameWidth).map τ.pixel).toArray := by
  induction h with
  | nil => rfl
  | cons hs _ ih => rw [List.map_cons, List.map_cons, ih, ← hs.pixels_eq, Array.toArray_toList]

/-- A simulator of a program and one of what its artifact gives back show the same pixels on every
sequence of frames. -/
theorem trace_erased (hp : p.Sound) {emitted reference : Simulator} {σ : Store}
    (he : emitted.Models p.erased σ) (hr : reference.Models p σ) {frames : List Frame}
    (hframes : ∀ f ∈ frames, f.Complete) :
    ∃ es rs, emitted.trace frames = .ok es ∧ reference.trace frames = .ok rs ∧
      es.map pixels = rs.map pixels := by
  obtain ⟨es, hes, hemitted⟩ := he.trace hp.erased hframes
  obtain ⟨rs, hrs, hreference⟩ := hr.trace hp hframes
  refine ⟨es, rs, hes, hrs, ?_⟩
  rw [map_pixels_of_models hemitted, map_pixels_of_models hreference, Program.stores_erased]
  rfl

/-- A comparison of a program with what its artifact gives back counts the pixels of all frames,
and finds no difference. -/
theorem addFrames_erased (hp : p.Sound) (input : SyntheticInput) (count : Nat) (k : UInt32)
    {emitted reference : Simulator} {σ : Store} (he : emitted.Models p.erased σ)
    (hr : reference.Models p σ) (r : Comparison) :
    Comparison.addFrames input count k emitted reference r =
      .ok { r with pixelsCompared := r.pixelsCompared + count * p.frameWidth } := by
  induction count generalizing k emitted reference σ r with
  | zero => rw [Comparison.addFrames, Nat.zero_mul, Nat.add_zero]
  | succ count ih =>
    obtain ⟨emitted', hemitted, he'⟩ := he.render hp.erased (input.frame_complete k)
    obtain ⟨reference', hreference, hr'⟩ := hr.render hp (input.frame_complete k)
    rw [Program.frameStore_erased] at he'
    -- Both show the pixels of the store that they follow.
    have hpixels : emitted'.pixels.toList = reference'.pixels.toList := by
      rw [he'.pixels_eq, hr'.pixels_eq]
      rfl
    have hlength : reference'.pixels.toList.length = p.frameWidth := by
      rw [hr'.pixels_eq, List.length_map, List.length_range]
    rw [Comparison.addFrames, hemitted, hreference]
    show Comparison.addFrames input count (k + 1) emitted' reference'
      (Comparison.addPixels k.toNat 0
        (emitted'.pixels.toList.zip reference'.pixels.toList) r) = _
    rw [ih (k + 1) he' hr', hpixels, Comparison.addPixels_self, hlength]
    simp only [Nat.succ_mul, Nat.add_assoc, Nat.add_comm p.frameWidth]

end Simulator

namespace Graph

variable {g : Graph} {p : Program}

/-- A text that gives back the program of a graph passes verification. -/
theorem verify_erased (hlower : g.program = .ok p) (hwidth : p.frameWidth = g.frameWidth)
    (hp : p.Sound) (hprint : p.Printable) {text : String}
    (htext : Program.ofArtifact text = .ok p.erased) (options : VerifyOptions) :
    g.verify text options = .ok
      { frames := options.frames.toNat
        pixelsCompared := options.frames.toNat * g.frameWidth
        mismatches := 0
        maxDelta := 0
        firstMismatch := none
        sameStructure := true } := by
  obtain ⟨emitted, hemitted, he⟩ := Simulator.exists_ofProgram hp.erased
  obtain ⟨reference, hreference, hr⟩ := Simulator.exists_ofProgram hp
  have hframes := Simulator.addFrames_erased hp options.input options.frames.toNat 0 he hr
    { frames := options.frames.toNat, sameStructure := p.sameStructure p.erased }
  have hwidth' : p.erased.frameWidth = g.frameWidth := hwidth
  rw [Program.sameStructure_erased hprint, hwidth] at hframes
  rw [Nat.zero_add] at hframes
  simp only [Graph.verify, hlower, htext, hemitted, hreference, bind, Except.bind, if_pos hwidth',
    Program.sameStructure_erased hprint, hframes, Failure.ofFault, Except.mapError]

end Graph

namespace Compilation

variable {s : Settings} {c : Compilation} {g : Graph} {p : Program} {a : Artifact}
  {report : Comparison}

/-- A pass without errors does not stop the compilation. -/
theorem finish_ok {ds : List Diagnostic} (h : Diagnostic.anyError ds = false) (c : Compilation)
    (pass : Pass) (failure : List Diagnostic → Failure) :
    c.finish pass ds failure =
      ({ c with
          events := c.events ++ [⟨pass, ds⟩]
          diagnostics := c.diagnostics ++ ds }, none) := by
  simp only [finish, h, Bool.false_eq_true, if_false]

/-- Reading a description without errors leaves the graph. -/
theorem load_succeeds (h : Graph.ofSource c.source = .ok g) :
    ∃ c', c.load = (c', none) ∧ c'.graph = some g ∧ c'.provenance = c.provenance := by
  obtain ⟨hgraph, hloaded⟩ := Graph.load_of_ofSource h
  exact ⟨_, finish_ok hloaded _ _ _, hgraph, rfl⟩

/-- Lowering a graph without errors leaves the program. -/
theorem lower_succeeds (hgraph : c.graph = some g) (h : g.program = .ok p) :
    ∃ c', c.lower = (c', none) ∧ c'.graph = some g ∧ c'.program = some p ∧
      c'.provenance = c.provenance := by
  obtain ⟨hprogram, hlowered⟩ := Graph.lower_of_program h
  rw [lower, hgraph]
  exact ⟨_, finish_ok hlowered _ _ _, rfl, hprogram, rfl⟩

/-- Printing a program leaves its artifact. -/
theorem codegen_succeeds (hprogram : c.program = some p) (options : PrintOptions) :
    ∃ c', c.codegen options = (c', none) ∧ c'.graph = c.graph ∧
      c'.artifact = some (p.print c.provenance options) := by
  rw [codegen, hprogram]
  exact ⟨_, finish_ok rfl _ _ _, rfl, rfl⟩

/-- A verification that finds no difference leaves its report. -/
theorem verify_succeeds {options : VerifyOptions} (hgraph : c.graph = some g)
    (hartifact : c.artifact = some a) (hverify : g.verify a.text options = .ok report)
    (hpassed : report.ensurePassed = .ok ()) :
    ∃ c', c.verify options = (c', none) ∧ c'.artifact = some a ∧ c'.report = some report := by
  simp only [verify, hgraph, hartifact, hverify, hpassed]
  exact ⟨_, finish_ok rfl _ _ _, rfl, rfl⟩

/-- A compilation whose passes succeed leaves the artifact and the report. -/
theorem run_verify {source : String} (hload : Graph.ofSource source = .ok g)
    (hlower : g.program = .ok p)
    (hverify : g.verify (p.print (.ofSource source) s.print).text s.verify = .ok report)
    (hpassed : report.ensurePassed = .ok ()) :
    ∃ c, run source .verify s = (c, none) ∧
      c.artifact = some (p.print (.ofSource source) s.print) ∧ c.report = some report := by
  obtain ⟨c₁, hc₁, hgraph, hfrom⟩ := load_succeeds (c := start source) hload
  obtain ⟨c₂, hc₂, hgraph₂, hprogram, hfrom₂⟩ := lower_succeeds hgraph hlower
  obtain ⟨c₃, hc₃, hgraph₃, hartifact⟩ := codegen_succeeds hprogram s.print
  rw [hfrom₂, hfrom] at hartifact
  obtain ⟨c₄, hc₄, hartifact₄, hreport⟩ :=
    verify_succeeds (hgraph₃.trans hgraph₂) hartifact hverify hpassed
  have hpasses : Pass.verify.required = Pass.all := Pass.required_eq .verify
  refine ⟨c₄, ?_, hartifact₄, hreport⟩
  simp only [run, hpasses, Pass.all, runPasses, runPass, hc₁, hc₂, hc₃, hc₄]

end Compilation

/-- What is printed for a graph verifies. For a description that is loaded and lowered without
errors, a compilation as far as verification succeeds for both profiles and all frames and
parameters. Its report counts every pixel of every frame and has no mismatch. The program that is
read from the artifact shows the same pixels as the program of the graph on every sequence of
frames. -/
theorem compilation_verifies {source : String} {g : Graph} {p : Program}
    (hload : Graph.ofSource source = .ok g) (hlower : g.program = .ok p) (profile : Profile)
    (options : VerifyOptions) :
    ∃ c artifact parsed emitted reference,
      Compilation.run source .verify { print := ⟨profile, none⟩, verify := options } = (c, none) ∧
      c.report = some
        { frames := options.frames.toNat
          pixelsCompared := options.frames.toNat * g.frameWidth
          mismatches := 0
          maxDelta := 0
          firstMismatch := none
          sameStructure := true } ∧
      c.artifact = some artifact ∧ Program.ofArtifact artifact.text = .ok parsed ∧
      Simulator.ofProgram parsed = .ok emitted ∧ Simulator.ofProgram p = .ok reference ∧
      ∀ frames : List Frame, (∀ f ∈ frames, f.Complete) →
        ∃ es rs, emitted.trace frames = .ok es ∧ reference.trace frames = .ok rs ∧
          es.map Simulator.pixels = rs.map Simulator.pixels := by
  have hg := Graph.wellFormed_of_load (Graph.load_of_ofSource hload).1
  obtain ⟨pl, hplan, rfl⟩ := Graph.exists_plan_of_lower (Graph.lower_of_program hlower).1
  have hsound := Graph.programOf_sound hg hplan
  have hprint := Graph.programOf_printable hg.width_lt hplan
  -- The artifact gives back the program but for its notes and owners.
  have hreads := Program.reads_print hprint (Provenance.newline_not_mem_version source) profile
  have hread := Program.ofText_of_reads hreads (Program.ofTokens_tokens hprint profile)
  have hparsed : Program.ofArtifact
      ((g.programOf pl).print (.ofSource source) ⟨profile, none⟩).text =
      .ok (g.programOf pl).erased := by
    rw [Program.ofArtifact, hread]
    rfl
  have hverify := Graph.verify_erased hlower rfl hsound hprint hparsed options
  obtain ⟨c, hrun, hartifact, hreport⟩ :=
    Compilation.run_verify (s := ⟨⟨profile, none⟩, options⟩) hload hlower hverify rfl
  obtain ⟨emitted, hemitted, he⟩ := Simulator.exists_ofProgram hsound.erased
  obtain ⟨reference, hreference, hr⟩ := Simulator.exists_ofProgram hsound
  exact ⟨c, _, _, emitted, reference, hrun, hreport, hartifact, hparsed, hemitted, hreference,
    fun _ hframes => Simulator.trace_erased hsound he hr hframes⟩

/-- The chain with a fork verifies for the firmware on more frames than are rendered by default,
with the signal lost on every third. -/
theorem forkedSource_verifies :
    ∃ g p, Graph.ofSource forkedSource = .ok g ∧ g.program = .ok p ∧
      ∃ c artifact parsed emitted reference,
        Compilation.run forkedSource .verify
          { print := ⟨.firmware, none⟩, verify := ⟨1000, { dropoutPeriod := 3 }⟩ } = (c, none) ∧
        c.report = some
          { frames := 1000
            pixelsCompared := 1000 * g.frameWidth
            mismatches := 0
            maxDelta := 0
            firstMismatch := none
            sameStructure := true } ∧
        c.artifact = some artifact ∧ Program.ofArtifact artifact.text = .ok parsed ∧
        Simulator.ofProgram parsed = .ok emitted ∧ Simulator.ofProgram p = .ok reference ∧
        ∀ frames : List Frame, (∀ f ∈ frames, f.Complete) →
          ∃ es rs, emitted.trace frames = .ok es ∧ reference.trace frames = .ok rs ∧
            es.map Simulator.pixels = rs.map Simulator.pixels := by
  obtain ⟨g, p, hload, hlower⟩ := forkedSource_compiles
  exact ⟨g, p, hload, hlower,
    compilation_verifies hload hlower .firmware ⟨1000, { dropoutPeriod := 3 }⟩⟩

end LedPattern
