import LedPattern.Proofs.Likeness
import LedPattern.Proofs.Reprinting
import LedPattern.Proofs.Verifying

/-!
# Programs of the same structure show the same pixels

The report of a verification has two verdicts: whether the two programs have the same structure, and
how many pixels differ. The first does not look at notes, at the owners of slots and at the signs of
zeros. Here it is shown that none of this can be seen on the strip, so that the first verdict
implies the second (`structure_agrees`). The owners can be left out only because those of a graph
differ: where two nodes with a state have one identifier, they share a buffer in the reference and
have one each in the artifact (`twinGraph_disagrees`).

The code of a graph divides by nothing but constants other than zero (`Graph.programOf_steady`). So
the stores that the two programs follow are equal up to the signs of zeros after every frame, and no
frame adds a mismatch to the report (`Comparison.addFrames_mismatches`).
-/

namespace LedPattern

/-! ## The code of a graph -/

namespace Kernel

variable {width : Nat} {P : Nat × List (Instr Place String) → Prop}

/-- What holds of the loops of every stage holds of those of some stages. -/
theorem stages_forall (hstage : ∀ s cur st, ∀ l ∈ (stage width s cur st).code.loops, P l)
    (s : Storage) (cur : Buffer) (ss : List Stage) :
    ∀ l ∈ (stages width s cur ss).code.loops, P l := by
  induction ss generalizing s cur with
  | nil => exact fun l hl => nomatch hl
  | cons first rest ih =>
    intro l hl
    simp only [stages, Block.loops_append, List.mem_append] at hl
    exact hl.elim (hstage _ _ _ l) (ih _ _ l)

/-- What holds of the loops of every stage and of every join holds of those of a plan, as far as
the output. -/
theorem main_forall (hstage : ∀ s cur st, ∀ l ∈ (stage width s cur st).code.loops, P l)
    (hjoin : ∀ dst src, ∀ l ∈ (join dst src).loops, P l) (pl : Plan) :
    ∀ l ∈ (main width pl).code.loops, P l := by
  intro l hl
  rcases pl with ⟨lead, _ | f, out⟩
  · exact stages_forall hstage _ _ _ l hl
  · simp only [main, fork, note, Block.loops_append, Block.loops, List.nil_append, List.append_nil,
      List.mem_append] at hl
    rcases hl with hl | (hl | hl) | hl | hl
    · exact stages_forall hstage _ _ _ l hl
    · exact stages_forall hstage _ _ _ l hl
    · exact hjoin _ _ l hl
    · exact stages_forall hstage _ _ _ l hl
    · exact hjoin _ _ l hl

/-- Copying colors computes nothing. -/
theorem copyColors_steady (dst src : Buffer) (target origin : Index) :
    ∀ i ∈ copyColors dst src target origin, i.value.Steady := by
  intro i hi
  obtain ⟨c, -, rfl⟩ := List.mem_map.1 hi
  trivial

/-- A stage divides by the number of steps of a ramp at most, which is not zero. -/
theorem stage_steady (hwidth : width < Index.limit) (s : Storage) (cur : Buffer) (st : Stage) :
    (stage width s cur st).code.Steady := by
  unfold Block.Steady
  cases st with
  | idle id => exact fun l hl => nomatch hl
  | sample id bins =>
    simp [stage, note, sample, loop, store, Block.loops, Instr.value, Expr.Steady]
  | ramp id =>
    simp only [stage, note, ramp, loop, store, Block.loops_append, Block.loops, List.nil_append,
      List.forall_mem_singleton, Instr.value]
    intro hpos
    split
    · trivial
    · rename_i hone
      -- The ramp divides by one less than the width, and a width of one has been dealt with.
      refine ⟨trivial, trivial, fun _ => ⟨_, rfl, Single.nonzero_ofNat (by omega) ?_⟩⟩
      exact Nat.lt_of_le_of_lt (Nat.sub_le _ _) hwidth
  | decay id factor =>
    simp [stage, note, decay, loop, store, load, Block.loops, Instr.value, Expr.Steady]
  | color id map =>
    cases map <;> simp [stage, note, color, share, Channel.all, loop, store, load, Block.loops,
      Instr.value, Expr.Steady]
  | mirror id variant =>
    cases variant with
    | fullReversal =>
      simp only [stage, note, mirror, loop, Block.loops_append, Block.loops, List.nil_append,
        List.forall_mem_singleton]
      exact fun _ => copyColors_steady _ _ _ _
    | centerOrigin =>
      simp only [stage, note, mirror, loop, Block.loops_append, Block.loops, List.nil_append,
        List.forall_mem_singleton, List.forall_mem_append]
      exact fun _ => ⟨copyColors_steady _ _ _ _, copyColors_steady _ _ _ _⟩

/-- Moving the result of a branch computes nothing. -/
theorem join_steady (dst src : Buffer) : (join dst src).Steady := by
  unfold Block.Steady join
  split
  · exact fun l hl => nomatch hl
  · unfold copy
    split
    · simp [loop, store, load, Block.loops, Instr.value, Expr.Steady]
    · simp only [loop, Block.loops, List.forall_mem_singleton]
      exact fun _ => copyColors_steady _ _ _ _

/-- The output does not divide. -/
theorem output_steady (src : Buffer) (width : Nat) : (output src width).Steady := by
  unfold Block.Steady
  simp [output, Channel.all, loop, load, Block.loops, Instr.value, Expr.Steady]

end Kernel

/-- The program of a graph is steady, if its width is a word. -/
theorem Graph.programOf_steady {g : Graph} (hwidth : g.frameWidth < Index.limit) (pl : Plan) :
    (g.programOf pl).body.Steady := by
  intro l hl
  rw [loops_programOf, List.mem_append] at hl
  rcases hl with hl | hl
  · exact Kernel.main_forall (P := fun l => 0 < l.1 → ∀ i ∈ l.2, i.value.Steady)
      (Kernel.stage_steady hwidth) Kernel.join_steady pl l hl
  · exact Kernel.output_steady _ _ l hl

/-! ## Programs -/

/-- Programs with the same buffers and the same code, up to the signs of zeros. -/
structure Program.Same (p q : Program) : Prop where
  width : q.frameWidth = p.frameWidth
  slots : q.slots.map (fun s => (s.symbol, s.len)) = p.slots.map fun s => (s.symbol, s.len)
  temps : q.temps = p.temps
  body : p.body.withoutNotes.Same q.body.withoutNotes

namespace Program

variable {p q : Program}

/-- Programs of the same structure are the same. -/
theorem same_of_sameStructure (h : p.sameStructure q = true) : p.Same q := by
  unfold sameStructure at h
  simp only [Bool.and_eq_true] at h
  obtain ⟨⟨⟨hwidth, hslots⟩, htemps⟩, hbody⟩ := h
  exact ⟨(eq_of_beq hwidth).symm, (eq_of_beq hslots).symm, (eq_of_beq htemps).symm,
    Block.same_of_beq hbody⟩

/-- If the places of a program fit, so do those of the same program. -/
theorem Same.fits (h : p.Same q)
    (hp : ∀ l ∈ p.body.loops, ∀ i ∈ l.2, p.instrFits l.1 i = true) :
    ∀ l ∈ q.body.loops, ∀ i ∈ l.2, q.instrFits l.1 i = true := by
  have hloops := h.body.loops
  rw [Block.loops_withoutNotes, Block.loops_withoutNotes] at hloops
  refine forall_mem_of_forall₂ hloops (fun l l' hl hfits => ?_) hp
  obtain ⟨hcount, hbody⟩ := hl
  refine forall_mem_of_forall₂ hbody (fun i i' hi hfit => ?_) hfits
  rw [instrFits_congr h.width h.temps h.slots, ← hcount, ← hi.fits]
  exact hfit

/-- If the names of a program differ, so do those of the same program whose slots are their own
owners. -/
theorem Same.distinct (h : p.Same q) (hp : p.Distinct)
    (howners : ∀ s ∈ q.slots, s.owner = s.symbol) : q.Distinct := by
  have hsymbols : q.slots.map Slot.symbol = p.slots.map Slot.symbol := by
    have hmap := congrArg (List.map Prod.fst) h.slots
    simpa [Function.comp_def] using hmap
  constructor
  · have hstorage : q.storage.symbols = p.storage.symbols := by
      simp only [storage, Storage.symbols, hsymbols, h.temps]
    rw [hstorage]
    exact hp.symbols
  · rw [List.map_congr_left howners, hsymbols]
    exact (List.nodup_append.1 hp.symbols).2.1

/-- The same steady programs leave the same stores after a frame. -/
theorem Same.frameStore (h : p.Same q) (hsteady : p.body.Steady) (f : Frame) {σ τ : Store}
    (hστ : σ.Same τ) : (p.frameStore f σ).Same (q.frameStore f τ) := by
  have hrefresh : q.refresh τ = p.refresh τ := by
    unfold refresh temp?
    rw [h.temps]
  rw [Program.frameStore, Program.frameStore, hrefresh, ← Block.apply_withoutNotes f p.body,
    ← Block.apply_withoutNotes f q.body]
  refine h.body.apply ?_ f (hστ.refresh p)
  unfold Block.Steady
  rw [Block.loops_withoutNotes]
  exact hsteady

end Program

/-! ## Reports -/

namespace Simulator

variable {p q : Program} {s s' : Simulator} {σ : Store} {f : Frame}

/-- A simulator that has rendered a frame did to its storage what the frame does to the store. -/
theorem Models.of_render (h : s.Models p σ) (hp : p.Distinct)
    (hfits : ∀ l ∈ p.body.loops, ∀ i ∈ l.2, p.instrFits l.1 i = true) (hf : f.Complete)
    (hrender : s.render f = .ok s') : s'.Models p (p.frameStore f σ) := by
  rw [Simulator.render, ← Prod.eta (s.step f)] at hrender
  rcases h.step_cases hp hfits hf with ⟨hfault, hmodels⟩ | ⟨hfault, -⟩
  · rw [hfault] at hrender
    cases hrender
    exact hmodels
  · rw [hfault] at hrender
    cases hrender

end Simulator

namespace Comparison

variable {p q : Program} {input : SyntheticInput} {count : Nat} {k : UInt32}
  {emitted reference : Simulator} {r report : Comparison}

/-- Adding pixels to a report does not touch its verdict on the structure. -/
theorem addPixels_sameStructure (frame pixel : Nat) (l : List (Pixel × Pixel)) (r : Comparison) :
    (addPixels frame pixel l r).sameStructure = r.sameStructure := by
  induction l generalizing pixel r with
  | nil => rfl
  | cons x rest ih =>
    rw [addPixels, ih, add]
    split <;> rfl

/-- Adding frames to a report does not touch its verdict on the structure. -/
theorem addFrames_sameStructure
    (h : addFrames input count k emitted reference r = .ok report) :
    report.sameStructure = r.sameStructure := by
  induction count generalizing k emitted reference r with
  | zero =>
    cases h
    rfl
  | succ count ih =>
    obtain ⟨emitted', -, h⟩ := Except.bind_eq_ok_iff.1 h
    obtain ⟨reference', -, h⟩ := Except.bind_eq_ok_iff.1 h
    rw [ih h, addPixels_sameStructure]

/-- Frames that the same steady programs render add no mismatch to a report. -/
theorem addFrames_mismatches (hpq : p.Same q) (hsteady : p.body.Steady) (hp : p.Distinct)
    (hq : q.Distinct) (hfits : ∀ l ∈ p.body.loops, ∀ i ∈ l.2, p.instrFits l.1 i = true)
    {σ τ : Store} (hστ : σ.Same τ) (hr : reference.Models p σ) (he : emitted.Models q τ)
    (h : addFrames input count k emitted reference r = .ok report) :
    report.mismatches = r.mismatches := by
  induction count generalizing k emitted reference r σ τ with
  | zero =>
    cases h
    rfl
  | succ count ih =>
    obtain ⟨emitted', hemitted, h⟩ := Except.bind_eq_ok_iff.1 h
    obtain ⟨reference', hreference, h⟩ := Except.bind_eq_ok_iff.1 h
    have he' := he.of_render hq (hpq.fits hfits) (input.frame_complete k) hemitted
    have hr' := hr.of_render hp hfits (input.frame_complete k) hreference
    have hστ' := hpq.frameStore hsteady (input.frame k) hστ
    -- The stores may differ in signs of zeros, but no byte of a pixel does.
    have hpixels : emitted'.pixels.toList = reference'.pixels.toList := by
      rw [he'.pixels_eq, hr'.pixels_eq, hpq.width, hστ'.pixel]
    rw [hpixels] at h
    rw [ih hστ' hr' he' h, addPixels_self]

/-- A comparison of programs that run without a fault comes to an end. -/
theorem exists_addFrames (hp : p.Sound) (hq : q.Sound) {σ τ : Store} (hr : reference.Models p σ)
    (he : emitted.Models q τ) (input : SyntheticInput) (count : Nat) (k : UInt32)
    (r : Comparison) :
    ∃ report, addFrames input count k emitted reference r = .ok report := by
  induction count generalizing k emitted reference r σ τ with
  | zero => exact ⟨r, rfl⟩
  | succ count ih =>
    obtain ⟨emitted', hemitted, he'⟩ := he.render hq (input.frame_complete k)
    obtain ⟨reference', hreference, hr'⟩ := hr.render hp (input.frame_complete k)
    obtain ⟨report, hreport⟩ := ih hr' he' (k + 1) _
    exact ⟨report, Except.bind_eq_ok_iff.2 ⟨emitted', hemitted,
      Except.bind_eq_ok_iff.2 ⟨reference', hreference, hreport⟩⟩⟩

end Comparison

namespace Program

/-- A program that is read from a text is that of the text's tokens. -/
theorem ofTokens_of_ofArtifact {text : String} {q : Program} (h : ofArtifact text = .ok q) :
    ofTokens (Lexer.tokens (Lexer.lex text.toList)) = .ok q := by
  refine ofTokens_of_ofText ?_
  unfold ofArtifact at h
  cases htext : ofText text with
  | error faults =>
    rw [htext] at h
    cases h
  | ok p =>
    rw [htext] at h
    cases h
    rfl

/-- The artifact of a program is read as the program without its notes and owners. -/
theorem ofArtifact_print {p : Program} (hp : p.Printable) (provenance : Provenance)
    (hversion : '\n' ∉ provenance.version.toList) (profile : Profile) :
    ofArtifact (p.print provenance ⟨profile, none⟩).text = .ok p.erased := by
  rw [ofArtifact, ofText_of_reads (reads_print hp hversion profile) (ofTokens_tokens hp profile)]
  rfl

/-- The loops of code that is spelled have as many rounds as a word can say. -/
theorem rounds_lt_of_isSpelled {b : Body} (h : b.isSpelled = true) :
    ∀ l ∈ b.loops, l.1 < Index.limit := by
  induction b with
  | done => exact fun l hl => nomatch hl
  | note _ _ ih => exact ih h
  | loop count body rest ih =>
    simp only [Block.isSpelled, Bool.and_eq_true, decide_eq_true_eq] at h
    exact List.forall_mem_cons.2 ⟨h.1.1, ih h.2⟩
  | branch test yes no rest ihyes ihno ih =>
    simp only [Block.isSpelled, Bool.and_eq_true] at h
    rw [Block.loops, List.forall_mem_append, List.forall_mem_append]
    exact ⟨⟨ihyes h.1.1, ihno h.1.2⟩, ih h.2⟩

/-- The width of a program that is read is a word. -/
theorem width_lt_of_ofTokens {cs : List Char} {q : Program}
    (h : ofTokens (Lexer.tokens (Lexer.lex cs)) = .ok q) : q.frameWidth < Index.limit := by
  have hspelled := spelled_of_ofTokens h Lexer.isProper_of_lex
  obtain ⟨l, hl, hwidth⟩ := Option.map_eq_some_iff.1 hspelled.width
  rw [← hwidth]
  exact rounds_lt_of_isSpelled hspelled.body l (List.mem_of_find?_eq_some hl)

/-- The slots of a program that is read are their own owners. -/
theorem owner_of_ofTokens {ts : List Token} {q : Program} (h : ofTokens ts = .ok q) :
    ∀ s ∈ q.slots, s.owner = s.symbol := by
  obtain ⟨d, -, hd⟩ := ofTokens_eq_ok_iff.1 h
  obtain ⟨width, -, rfl⟩ := Option.map_eq_some_iff.1 hd
  intro s hs
  obtain ⟨declaration, -, rfl⟩ := List.mem_map.1 hs
  rfl

end Program

/-- A run that may end in a fault succeeds where it did before the fault got its class. -/
theorem Failure.ofFault_eq_ok_iff {α : Type} {x : Except Fault α} {a : α} :
    ofFault x = .ok a ↔ x = .ok a := by
  cases x <;> simp [ofFault, Except.mapError]

namespace Graph

variable {g : Graph} {artifact : String} {options : VerifyOptions} {report : Comparison}

/-- A report is what comes of comparing the program that is read from an artifact with the program
of the graph. -/
theorem verify_eq_ok_iff : g.verify artifact options = .ok report ↔
    ∃ p q emitted reference, g.program = .ok p ∧ Program.ofArtifact artifact = .ok q ∧
      q.frameWidth = g.frameWidth ∧ Simulator.ofProgram q = .ok emitted ∧
      Simulator.ofProgram p = .ok reference ∧
      Comparison.addFrames options.input options.frames.toNat 0 emitted reference
        { frames := options.frames.toNat, sameStructure := p.sameStructure q } = .ok report := by
  unfold verify
  constructor
  · intro h
    obtain ⟨p, hp, h⟩ := Except.bind_eq_ok_iff.1 h
    obtain ⟨q, hq, h⟩ := Except.bind_eq_ok_iff.1 h
    split at h
    · next hwidth =>
      obtain ⟨emitted, hemitted, h⟩ := Except.bind_eq_ok_iff.1 (Failure.ofFault_eq_ok_iff.1 h)
      obtain ⟨reference, hreference, h⟩ := Except.bind_eq_ok_iff.1 h
      exact ⟨p, q, emitted, reference, hp, hq, hwidth, hemitted, hreference, h⟩
    · cases h
  · rintro ⟨p, q, emitted, reference, hp, hq, hwidth, hemitted, hreference, h⟩
    refine Except.bind_eq_ok_iff.2 ⟨p, hp, Except.bind_eq_ok_iff.2 ⟨q, hq, ?_⟩⟩
    rw [if_pos hwidth]
    exact Failure.ofFault_eq_ok_iff.2 (Except.bind_eq_ok_iff.2 ⟨emitted, hemitted,
      Except.bind_eq_ok_iff.2 ⟨reference, hreference, h⟩⟩)

/-- An artifact whose program runs without a fault and has the structure of the graph's program gets
a report that says so. -/
theorem exists_verify {p q : Program} (hg : g.WellFormed) (hlower : g.program = .ok p)
    (hparse : Program.ofArtifact artifact = .ok q) (hq : q.Sound)
    (hsame : p.sameStructure q = true) (options : VerifyOptions) :
    ∃ report, g.verify artifact options = .ok report ∧ report.sameStructure = true := by
  obtain ⟨pl, hplan, rfl⟩ := exists_plan_of_lower (lower_of_program hlower).1
  have hp := programOf_sound hg hplan
  obtain ⟨emitted, hemitted, he⟩ := Simulator.exists_ofProgram hq
  obtain ⟨reference, hreference, hr⟩ := Simulator.exists_ofProgram hp
  obtain ⟨report, hreport⟩ := Comparison.exists_addFrames hp hq hr he options.input
    options.frames.toNat 0
    { frames := options.frames.toNat, sameStructure := (g.programOf pl).sameStructure q }
  refine ⟨report, verify_eq_ok_iff.2 ⟨_, q, emitted, reference, hlower, hparse,
    (Program.same_of_sameStructure hsame).width, hemitted, hreference, hreport⟩, ?_⟩
  rw [Comparison.addFrames_sameStructure hreport]
  exact hsame

end Graph

/-- The two verdicts of a verification agree: when the artifact has the structure of the graph's
program, no pixel of any frame differs. Any graph is meant, not only one that has been loaded, but
no two of its nodes with a state may share an identifier. They would share their values in the
reference, but not in the artifact. -/
theorem structure_agrees {g : Graph} (hstates : g.DistinctStates) {artifact : String}
    {options : VerifyOptions} {report : Comparison}
    (h : g.verify artifact options = .ok report) (hsame : report.sameStructure = true) :
    report.mismatches = 0 := by
  obtain ⟨p, q, emitted, reference, hlower, hparse, hwidth, hemitted, hreference, hframes⟩ :=
    Graph.verify_eq_ok_iff.1 h
  rw [Comparison.addFrames_sameStructure hframes] at hsame
  have hpq := Program.same_of_sameStructure hsame
  have htokens := Program.ofTokens_of_ofArtifact hparse
  -- The text of the artifact says how wide the strip is.
  have hlimit : g.frameWidth < Index.limit := hwidth ▸ Program.width_lt_of_ofTokens htokens
  obtain ⟨pl, hplan, rfl⟩ := Graph.exists_plan_of_lower (Graph.lower_of_program hlower).1
  have hp := Graph.programOf_sound_of_states hlimit hstates hplan
  have hq := hpq.distinct hp.distinct (Program.owner_of_ofTokens htokens)
  obtain ⟨x, hx, hemitted⟩ := Except.bind_eq_ok_iff.1 hemitted
  obtain ⟨y, hy, hreference⟩ := Except.bind_eq_ok_iff.1 hreference
  cases hemitted
  cases hreference
  exact Comparison.addFrames_mismatches hpq (Graph.programOf_steady hlimit pl) hp.distinct hq
    hp.fits (.refl _) (Simulator.models_of_ofProgram hp.distinct hy)
    (Simulator.models_of_ofProgram hq hx) hframes

/-- A ramp of one level that fades, as pixels. -/
def glowSource : String :=
  "\x7b\"frame_width\":1,\"nodes\":[\x7b\"id\":\"r\",\"kind\":\"RampShape\"\x7d," ++
  "\x7b\"id\":\"p\",\"kind\":\"PersistDecay\"\x7d,\x7b\"id\":\"c\",\"kind\":\"Colorize\"\x7d," ++
  "\x7b\"id\":\"o\",\"kind\":\"PixelOutput\"\x7d]\x7d"

/-- The program of the ramp with a negative zero for its level, another function and no notes. -/
def negativeGlow : Program where
  function := "glow"
  frameWidth := 1
  slots := [⟨"state_p", "state_p", 1⟩]
  temps := [⟨"tmp_f0", .float, 1⟩, ⟨"tmp_rgb0", .rgb, 1⟩]
  body :=
    let level : Buffer := ⟨"tmp_f0", .float, 1⟩
    let state : Buffer := ⟨"state_p", .float, 1⟩
    let color : Buffer := ⟨"tmp_rgb0", .rgb, 1⟩
    Kernel.loop 1 [Kernel.store level .counter none (.const (Single.ofPattern true 0))]
      ++ Kernel.decay state level Node.defaultDecay
      ++ Kernel.color color state .grayscale
      ++ Kernel.output color 1

/-- The program with the negative zero runs without a fault. -/
theorem negativeGlow_sound : negativeGlow.Sound where
  distinct := ⟨by decide, by decide⟩
  fits := by decide
  quiet := by
    unfold Block.Quiet
    decide
  addressed := ⟨_, rfl⟩

/-- The program with the negative zero can be printed. -/
theorem negativeGlow_printable : negativeGlow.Printable :=
  ⟨by decide, by decide, by decide, by decide, by decide⟩

/-- The ramp is loaded and lowered, to a program of that structure. -/
theorem glowSource_compiles : ∃ g p, Graph.ofSource glowSource = .ok g ∧ g.program = .ok p ∧
    p.sameStructure negativeGlow = true := by
  have hresult : (Graph.ofSource glowSource >>= Graph.program).toOption.map
      (fun p => p.sameStructure negativeGlow) = some true := by
    decide +kernel
  obtain ⟨p, hcompiled, hsame⟩ := Except.exists_ok_of_map hresult
  obtain ⟨g, hload, hlower⟩ := Except.bind_eq_ok_iff.1 hcompiled
  exact ⟨g, p, hload, hlower, hsame⟩

/-- An artifact with a negative zero where the graph's program has zero: the structure is the same,
and so are the pixels of a thousand frames. -/
theorem negativeGlow_agrees : ∃ g report, Graph.ofSource glowSource = .ok g ∧
    g.verify (negativeGlow.print (Provenance.ofSource glowSource) ⟨.host, none⟩).text
      ⟨1000, { dropoutPeriod := 3 }⟩ = .ok report ∧
    report.sameStructure = true ∧ report.mismatches = 0 := by
  obtain ⟨g, p, hload, hlower, hstructure⟩ := glowSource_compiles
  have hg := Graph.wellFormed_of_load (Graph.load_of_ofSource hload).1
  have hparse := Program.ofArtifact_print negativeGlow_printable (.ofSource glowSource) (by decide)
    .host
  obtain ⟨report, hreport, hsame⟩ := Graph.exists_verify hg hlower hparse negativeGlow_sound.erased
    hstructure ⟨1000, { dropoutPeriod := 3 }⟩
  exact ⟨g, report, hload, hreport, hsame, structure_agrees hg.distinctStates hreport hsame⟩

/-- A ramp that fades twice, in nodes of one identifier. It is refused when it is loaded, but not
when it is lowered. -/
def twinGraph : Graph where
  name := none
  frameWidth := 2
  nodes := [⟨"r", "RampShape", [], false, []⟩, ⟨"p", "PersistDecay", [], false, []⟩,
    ⟨"p", "PersistDecay", [], false, []⟩, ⟨"c", "Colorize", [], false, []⟩,
    ⟨"o", "PixelOutput", [], false, []⟩]

/-- The verdicts on the graph's own artifact do not agree: the structure is the same, but a pixel of
the first frame differs. -/
theorem twinGraph_disagrees : ∃ p report, twinGraph.program = .ok p ∧
    twinGraph.verify (p.print (.ofSource "") ⟨.firmware, none⟩).text ⟨1, {}⟩ = .ok report ∧
    report.sameStructure = true ∧ report.mismatches = 1 := by
  have hrun : twinGraph.program.toOption.map (fun p => (do
      let emitted ← Simulator.ofProgram p.erased
      let reference ← Simulator.ofProgram p
      Comparison.addFrames {} 1 0 emitted reference
        { frames := 1, sameStructure := p.sameStructure p.erased }).toOption.map
          fun report : Comparison => (report.sameStructure, report.mismatches)) =
        some (some (true, 1)) := by
    decide +kernel
  obtain ⟨p, hlower, hrun⟩ := Except.exists_ok_of_map hrun
  obtain ⟨report, hframes, hverdicts⟩ := Except.exists_ok_of_map hrun
  obtain ⟨hsame, hmismatches⟩ := Prod.mk.inj hverdicts
  obtain ⟨emitted, hemitted, hframes⟩ := Except.bind_eq_ok_iff.1 hframes
  obtain ⟨reference, hreference, hframes⟩ := Except.bind_eq_ok_iff.1 hframes
  obtain ⟨pl, hplan, rfl⟩ := Graph.exists_plan_of_lower (Graph.lower_of_program hlower).1
  -- What the printer writes need not be evaluated: it is read as the program without owners.
  have hparse := Program.ofArtifact_print (Graph.programOf_printable (by decide) hplan)
    (.ofSource "") (by decide) .firmware
  exact ⟨_, report, hlower, Graph.verify_eq_ok_iff.2 ⟨_, _, emitted, reference, hlower, hparse, rfl,
    hemitted, hreference, hframes⟩, hsame, hmismatches⟩

end LedPattern
