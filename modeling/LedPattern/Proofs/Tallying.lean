import LedPattern.Proofs.Agreement
import LedPattern.Proofs.Determinacy
import Mathlib.Algebra.BigOperators.Group.List.Defs
import Mathlib.Data.Finset.Lattice.Fold
import Mathlib.Data.Finset.Prod
import Mathlib.Order.Lattice.Nat

/-!
# Reports are exact

The report of a verification is made pixel by pixel while two simulators render the same frames.
Here it is compared with what there is to report: the pixels that the two simulators show on all
frames, as two tables of pixels by frame and by number. `Comparison.Exact` says what a report has to
say of two tables, and `report_exact` that the report of a verification does.

The invariant is `Comparison.Tallies`: a report agrees with the tables on the positions that have
been compared so far. One pixel keeps it (`Tallies.add`), hence so do the pixels of a frame, which
all are compared since both simulators show equally many, and the frames of a sequence. The
positions come in the order of frames and then of pixels, so that the first mismatch found is the
least.
-/

namespace LedPattern

/-- The frames of an input from number `first` on. -/
def SyntheticInput.sequence (input : SyntheticInput) (first count : Nat) : List Frame :=
  (List.range' first count).map fun k => input.frame (UInt32.ofNat k)

/-- The first frame of a sequence is the one of its number. -/
theorem SyntheticInput.sequence_succ (input : SyntheticInput) (k : UInt32) (count : Nat) :
    input.sequence k.toNat (count + 1) =
      input.frame k :: input.sequence (k.toNat + 1) count := by
  rw [sequence, List.range'_succ, List.map_cons, UInt32.ofNat_toNat]
  rfl

/-- The sum of the absolute differences of the three colors of two pixels. -/
def Pixel.gap (p q : Pixel) : Nat :=
  (Channel.all.map fun c => (((p.get c).toNat : Int) - (q.get c).toNat).natAbs).sum

/-- Pixel `p` of frame `k`, if `ss` are the simulators after each frame. -/
def Simulator.pixelAt (ss : List Simulator) (k p : Nat) : Pixel :=
  (ss[k]?.bind fun s => s.pixels[p]?).getD Pixel.dark

namespace Comparison

/-- The report on two tables of pixels, by frame and by number, is exact. -/
structure Exact (report : Comparison) (frames width : Nat) (e r : Nat → Nat → Pixel) : Prop where
  /-- All pixels are compared. -/
  compared : report.pixelsCompared = frames * width
  /-- The pixels that differ are counted. -/
  mismatches : report.mismatches =
    ((Finset.range frames ×ˢ Finset.range width).filter fun x => e x.1 x.2 ≠ r x.1 x.2).card
  /-- No two pixels differ by more than is said, and two differ by as much. -/
  maxDelta : report.maxDelta =
    (Finset.range frames ×ˢ Finset.range width).sup fun x => (e x.1 x.2).gap (r x.1 x.2)
  /-- There is no first mismatch exactly if there is none at all. -/
  first_none : report.firstMismatch = none ↔ report.mismatches = 0
  /-- The first mismatch is one, with the values of both pixels. -/
  first_some : ∀ m, report.firstMismatch = some m → m.frame < frames ∧ m.pixel < width ∧
    m.emitted = e m.frame m.pixel ∧ m.reference = r m.frame m.pixel ∧ m.emitted ≠ m.reference
  /-- The first mismatch is the least one, by frame and then by number. -/
  first_least : ∀ m, report.firstMismatch = some m → ∀ k < frames, ∀ p < width,
    e k p ≠ r k p → m.frame < k ∨ m.frame = k ∧ m.pixel ≤ p
  /-- The report passes exactly if all pixels agree. -/
  passes : report.ensurePassed = .ok () ↔ ∀ k < frames, ∀ p < width, e k p = r k p

/-- The positions of `count` frames from number `first` on, by frame and then by number. -/
def positions (first count width : Nat) : List (Nat × Nat) :=
  (List.range' first count).flatMap fun k => (List.range' 0 width).map (Prod.mk k)

/-- Whether two tables differ at a position. -/
def differsAt (e r : Nat → Nat → Pixel) (x : Nat × Nat) : Bool := e x.1 x.2 ≠ r x.1 x.2

/-- A report agrees with two tables on the positions `l`, which have been compared in this order. -/
structure Tallies (e r : Nat → Nat → Pixel) (report : Comparison) (l : List (Nat × Nat)) :
    Prop where
  compared : report.pixelsCompared = l.length
  mismatches : report.mismatches = l.countP (differsAt e r)
  maxDelta : report.maxDelta = l.toFinset.sup fun x => (e x.1 x.2).gap (r x.1 x.2)
  first : report.firstMismatch =
    (l.find? (differsAt e r)).map fun x => ⟨x.1, x.2, e x.1 x.2, r x.1 x.2⟩

/-- The distance of two bytes is their absolute difference. -/
theorem byteDistance_eq (a b : UInt8) : byteDistance a b = ((a.toNat : Int) - b.toNat).natAbs := by
  unfold byteDistance
  omega

/-- The distance of two pixels is the sum of the differences of their colors. -/
theorem distance_eq_gap (p q : Pixel) : p.distance q = p.gap q := by
  simp only [Pixel.distance, Pixel.gap, byteDistance_eq, Channel.all, List.map_cons, List.map_nil,
    List.sum_cons, List.sum_nil, Pixel.get]
  omega

/-- Equal pixels do not differ. -/
theorem gap_self (p : Pixel) : p.gap p = 0 := by
  simp [Pixel.gap, Channel.all]

variable {e r : Nat → Nat → Pixel} {report : Comparison} {l : List (Nat × Nat)} {k p : Nat}

/-- A new report agrees with all tables on no position. -/
theorem tallies_start (e r : Nat → Nat → Pixel) (frames : Nat) (same : Bool) :
    Tallies e r { frames, sameStructure := same } [] := ⟨rfl, rfl, rfl, rfl⟩

/-- After one more pixel the report agrees with the tables on its position as well. -/
theorem Tallies.add (h : Tallies e r report l) (k p : Nat) :
    Tallies e r (report.add k p (e k p) (r k p)) (l ++ [(k, p)]) := by
  have hsup : (l ++ [(k, p)]).toFinset.sup (fun x => (e x.1 x.2).gap (r x.1 x.2)) =
      max report.maxDelta ((e k p).gap (r k p)) := by
    rw [List.toFinset_append, Finset.sup_union, h.maxDelta, List.toFinset_cons, List.toFinset_nil,
      insert_empty_eq, Finset.sup_singleton]
  by_cases heq : e k p = r k p
  · have hsame : differsAt e r (k, p) = false := by simp [differsAt, heq]
    rw [Comparison.add, if_pos heq]
    refine ⟨?_, ?_, ?_, ?_⟩
    · simp [h.compared]
    · simp [h.mismatches, hsame]
    · rw [hsup, heq, gap_self, Nat.max_zero]
    · rw [List.find?_append, List.find?_singleton, hsame]
      simpa using h.first
  · have hdiff : differsAt e r (k, p) = true := by simp [differsAt, heq]
    rw [Comparison.add, if_neg heq]
    refine ⟨?_, ?_, ?_, ?_⟩
    · simp [h.compared]
    · simp [h.mismatches, hdiff]
    · rw [hsup, distance_eq_gap]
    · rw [List.find?_append, List.find?_singleton, hdiff]
      dsimp only
      rw [h.first]
      cases l.find? (differsAt e r) <;> rfl

/-- The pixels of a frame from number `pixel` on. -/
theorem Tallies.addPixels (h : Tallies e r report l) (k pixel count : Nat) :
    Tallies e r
      (Comparison.addPixels k pixel ((List.range' pixel count).map fun p => (e k p, r k p)) report)
      (l ++ (List.range' pixel count).map (Prod.mk k)) := by
  induction count generalizing pixel report l with
  | zero => simpa [Comparison.addPixels] using h
  | succ count ih =>
    rw [List.range'_succ, List.map_cons, List.map_cons, List.append_cons, Comparison.addPixels]
    exact ih (h.add k pixel) (pixel + 1)

end Comparison

namespace Simulator

variable {s s' : Simulator} {f : Frame} {k : Nat}

/-- Rendering a frame keeps the number of pixels. -/
theorem size_of_render (h : s.render f = .ok s') : s'.pixels.size = s.pixels.size := by
  have hsize := Instance.size_render s.state f s.pixels
  unfold render at h
  split at h
  · next next hstep =>
    cases h
    rw [← hsize, ← congrArg (fun x => x.1.pixels.size) hstep]
    rfl
  · cases h

/-- The pixels after the first frame of a sequence. -/
theorem pixelAt_zero (s : Simulator) (ss : List Simulator) (p : Nat) :
    pixelAt (s :: ss) 0 p = s.pixels[p]?.getD Pixel.dark := rfl

/-- The pixels after a later frame are those of a later simulator. -/
theorem pixelAt_succ (s : Simulator) (ss : List Simulator) (k p : Nat) :
    pixelAt (s :: ss) (k + 1) p = pixelAt ss k p := rfl

/-- There is a simulator for each frame, with as many pixels as at the start. -/
theorem size_of_trace {frames : List Frame} {ss : List Simulator} (h : s.trace frames = .ok ss) :
    ss.length = frames.length ∧ ∀ t ∈ ss, t.pixels.size = s.pixels.size := by
  induction frames generalizing s ss with
  | nil =>
    cases h
    simp
  | cons f rest ih =>
    obtain ⟨next, more, hrender, hmore, rfl⟩ := trace_cons_eq_ok_iff.1 h
    obtain ⟨hlength, hsizes⟩ := ih hmore
    have hnext := size_of_render hrender
    refine ⟨by rw [List.length_cons, List.length_cons, hlength], ?_⟩
    rw [List.forall_mem_cons]
    exact ⟨hnext, fun t ht => (hsizes t ht).trans hnext⟩

/-- A simulator of a program shows as many pixels as the program renders. -/
theorem size_of_ofProgram {p : Program} (h : ofProgram p = .ok s) :
    s.pixels.size = p.frameWidth := by
  obtain ⟨x, hx, h⟩ := Except.bind_eq_ok_iff.1 h
  cases h
  rw [Instance.ofProgram_eq] at hx
  obtain ⟨_, -, hx⟩ := Except.bind_eq_ok_iff.1 hx
  cases hx
  simp [Instance.darkPixels]

end Simulator

namespace Comparison

variable {e r : Nat → Nat → Pixel} {l : List (Nat × Nat)} {input : SyntheticInput} {width : Nat}
  {emitted reference : Simulator} {start report : Comparison}

/-- All pixels that two simulators show are paired, if they show equally many. -/
theorem zip_pixels (he : emitted.pixels.size = width) (hr : reference.pixels.size = width) :
    emitted.pixels.toList.zip reference.pixels.toList = (List.range' 0 width).map fun p =>
      (emitted.pixels[p]?.getD Pixel.dark, reference.pixels[p]?.getD Pixel.dark) := by
  refine List.ext_getElem (by simp [he, hr]) fun p h₁ h₂ => ?_
  have hp : p < width := by simpa using h₂
  simp [he, hr, hp]

/-- The frames of a sequence: if a comparison comes to its end, both simulators have rendered all
frames, and what they show is in the report. -/
theorem tallies_addFrames (he : emitted.pixels.size = width) (hr : reference.pixels.size = width)
    {count : Nat} {k : UInt32} (hcount : k.toNat + count < UInt32.size)
    (hrun : addFrames input count k emitted reference start = .ok report) :
    ∃ es rs, emitted.trace (input.sequence k.toNat count) = .ok es ∧
      reference.trace (input.sequence k.toNat count) = .ok rs ∧
      ∀ e r l, (∀ j < count, ∀ p < width, e (k.toNat + j) p = Simulator.pixelAt es j p ∧
          r (k.toNat + j) p = Simulator.pixelAt rs j p) →
        Tallies e r start l →
          Tallies e r report (l ++ positions k.toNat count width) := by
  induction count generalizing k emitted reference start with
  | zero =>
    cases hrun
    refine ⟨[], [], rfl, rfl, fun e r l _ h => ?_⟩
    simpa [positions] using h
  | succ count ih =>
    obtain ⟨emitted', hemitted, hrun⟩ := Except.bind_eq_ok_iff.1 hrun
    obtain ⟨reference', hreference, hrun⟩ := Except.bind_eq_ok_iff.1 hrun
    have he' := (Simulator.size_of_render hemitted).trans he
    have hr' := (Simulator.size_of_render hreference).trans hr
    -- The number of a frame is a word, and the numbers of the frames that are left stay below.
    have hnext : (k + 1).toNat = k.toNat + 1 := by
      rw [UInt32.toNat_add, UInt32.toNat_one, Nat.mod_eq_of_lt]
      have : UInt32.size = 2 ^ 32 := rfl
      omega
    obtain ⟨es, rs, hes, hrs, htally⟩ := ih he' hr' (by omega) hrun
    rw [hnext] at hes hrs htally
    rw [input.sequence_succ]
    refine ⟨emitted' :: es, reference' :: rs,
      Simulator.trace_cons_eq_ok_iff.2 ⟨emitted', es, hemitted, hes, rfl⟩,
      Simulator.trace_cons_eq_ok_iff.2 ⟨reference', rs, hreference, hrs, rfl⟩,
      fun e r l htable h => ?_⟩
    -- The first frame of the tables is the one that has just been rendered.
    have hpairs : emitted'.pixels.toList.zip reference'.pixels.toList =
        (List.range' 0 width).map fun p => (e k.toNat p, r k.toNat p) := by
      rw [zip_pixels he' hr']
      refine List.map_congr_left fun p hp => ?_
      obtain ⟨hep, hrp⟩ := htable 0 (by omega) p (by simpa using hp)
      rw [Nat.add_zero] at hep hrp
      rw [hep, hrp, Simulator.pixelAt_zero, Simulator.pixelAt_zero]
    rw [hpairs] at htally
    have hlater : ∀ j < count, ∀ p < width, e (k.toNat + 1 + j) p = Simulator.pixelAt es j p ∧
        r (k.toNat + 1 + j) p = Simulator.pixelAt rs j p := by
      intro j hj p hp
      have hnow := htable (j + 1) (by omega) p hp
      rwa [Simulator.pixelAt_succ, Simulator.pixelAt_succ, ← Nat.add_assoc,
        Nat.add_right_comm] at hnow
    rw [positions, List.range'_succ, List.flatMap_cons, ← List.append_assoc]
    exact htally e r _ hlater (h.addPixels k.toNat 0 width)

/-- The positions of a table come in the order of frames, and in each frame in that of pixels. -/
theorem pairwise_positions (first count width : Nat) :
    (positions first count width).Pairwise fun x y => x.1 < y.1 ∨ x.1 = y.1 ∧ x.2 < y.2 := by
  have hrange : ∀ s n, (List.range' s n).Pairwise (· < ·) := fun _ _ => List.pairwise_lt_range'
  rw [positions, List.pairwise_flatMap]
  constructor
  · intro k _
    rw [List.pairwise_map]
    exact (hrange 0 width).imp fun h => .inr ⟨rfl, h⟩
  · refine (hrange first count).imp fun hlt x hx y hy => ?_
    obtain ⟨_, -, rfl⟩ := List.mem_map.1 hx
    obtain ⟨_, -, rfl⟩ := List.mem_map.1 hy
    exact .inl hlt

/-- What is found in a list in order comes before all else that could be found. -/
theorem first_of_pairwise {α : Type} {R : α → α → Prop} {q : α → Bool} {l : List α} {x y : α}
    (hl : l.Pairwise R) (hx : l.find? q = some x) (hy : y ∈ l) (hq : q y = true) :
    y = x ∨ R x y := by
  obtain ⟨-, before, after, rfl, hbefore⟩ := List.find?_eq_some_iff_append.1 hx
  rcases List.mem_append.1 hy with hy | hy
  · exact absurd hq (by simpa using hbefore y hy)
  · rcases List.mem_cons.1 hy with rfl | hy
    · exact .inl rfl
    · have hafter := (List.pairwise_append.1 hl).2.1
      exact .inr ((List.pairwise_cons.1 hafter).1 y hy)

/-- The positions of a table are those below its number of frames and its width. -/
theorem mem_positions {frames width : Nat} {x : Nat × Nat} :
    x ∈ positions 0 frames width ↔ x.1 < frames ∧ x.2 < width := by
  obtain ⟨k, p⟩ := x
  simp [positions]

/-- There are as many positions as frames times pixels. -/
theorem length_positions (first count width : Nat) :
    (positions first count width).length = count * width := by
  simp [positions]

/-- There is no first mismatch exactly if none is counted. -/
theorem Tallies.first_none_iff (h : Tallies e r report l) :
    report.firstMismatch = none ↔ report.mismatches = 0 := by
  rw [h.first, h.mismatches, Option.map_eq_none_iff, List.find?_eq_none, List.countP_eq_zero]

/-- A report passes exactly if it counts no mismatch. -/
theorem Tallies.ensurePassed_iff (h : Tallies e r report l) :
    report.ensurePassed = .ok () ↔ report.mismatches = 0 := by
  have hnone := h.first_none_iff
  rw [ensurePassed]
  rcases hm : report.firstMismatch with _ | m
  · simp [hnone.1 hm]
  · have hpos : report.mismatches ≠ 0 := by
      intro hzero
      rw [hnone.2 hzero] at hm
      cases hm
    simp [hpos, Nat.pos_of_ne_zero hpos]

/-- The first mismatch is the least of all, if the positions come in their order. -/
theorem Tallies.first_le {frames : Nat} (h : Tallies e r report (positions 0 frames width))
    {m : Mismatch} (hm : report.firstMismatch = some m) {k p : Nat} (hk : k < frames)
    (hp : p < width) (hne : e k p ≠ r k p) : m.frame < k ∨ m.frame = k ∧ m.pixel ≤ p := by
  rw [h.first] at hm
  obtain ⟨x, hx, rfl⟩ := Option.map_eq_some_iff.1 hm
  have hfirst := first_of_pairwise (pairwise_positions 0 frames width) hx (y := (k, p))
    (mem_positions.2 ⟨hk, hp⟩) (by simp [differsAt, hne])
  rcases hfirst with rfl | hlt | ⟨heq, hlt⟩
  · exact .inr ⟨rfl, Nat.le_refl _⟩
  · exact .inl hlt
  · exact .inr ⟨heq, Nat.le_of_lt hlt⟩

/-- A report that agrees with two tables on all positions is exact. -/
theorem Tallies.exact {frames : Nat}
    (h : Tallies e r report (positions 0 frames width)) :
    report.Exact frames width e r := by
  have hnodup : (positions 0 frames width).Nodup :=
    (pairwise_positions 0 frames width).imp fun {x y} hlt heq => by
      subst heq
      omega
  have hset : (positions 0 frames width).toFinset =
      Finset.range frames ×ˢ Finset.range width := by
    ext x
    rw [List.mem_toFinset, mem_positions, Finset.mem_product, Finset.mem_range, Finset.mem_range]
  have hcount : report.mismatches = ((Finset.range frames ×ˢ Finset.range width).filter fun x =>
      e x.1 x.2 ≠ r x.1 x.2).card := by
    rw [h.mismatches, List.countP_eq_length_filter, ← List.toFinset_card_of_nodup (hnodup.filter _),
      List.toFinset_filter, hset]
    simp only [differsAt, decide_eq_true_eq]
  have hagree : report.mismatches = 0 ↔ ∀ k < frames, ∀ p < width, e k p = r k p := by
    rw [h.mismatches, List.countP_eq_zero]
    constructor
    · intro hall k hk p hp
      simpa [differsAt] using hall (k, p) (mem_positions.2 ⟨hk, hp⟩)
    · intro hall x hx
      obtain ⟨hk, hp⟩ := mem_positions.1 hx
      simp [differsAt, hall _ hk _ hp]
  refine ⟨?_, hcount, by rw [h.maxDelta, hset], h.first_none_iff, fun m hm => ?_,
    fun m hm k hk p hp hne => h.first_le hm hk hp hne, h.ensurePassed_iff.trans hagree⟩
  · rw [h.compared, length_positions]
  · rw [h.first] at hm
    obtain ⟨x, hx, rfl⟩ := Option.map_eq_some_iff.1 hm
    obtain ⟨hk, hp⟩ := mem_positions.1 (List.mem_of_find?_eq_some hx)
    have hdiff : differsAt e r x = true := List.find?_some hx
    exact ⟨hk, hp, rfl, rfl, of_decide_eq_true hdiff⟩

end Comparison

/-- The report of a verification is exact. Whatever the graph and the artifact, if there is a
report, the simulator of the program that is read from the artifact and that of the graph's program
have rendered all frames, and both show as many pixels on each as the strip has LEDs. All these
pixels are compared, those that differ are counted, and the greatest sum of differences is found.
The first mismatch is the least by frame and then by number, with both values, and the report passes
exactly if all pixels agree. -/
theorem report_exact {g : Graph} {artifact : String} {options : VerifyOptions} {report : Comparison}
    (h : g.verify artifact options = .ok report) :
    ∃ p q emitted reference es rs, g.program = .ok p ∧ Program.ofArtifact artifact = .ok q ∧
      Simulator.ofProgram q = .ok emitted ∧ Simulator.ofProgram p = .ok reference ∧
      emitted.trace (options.input.sequence 0 options.frames.toNat) = .ok es ∧
      reference.trace (options.input.sequence 0 options.frames.toNat) = .ok rs ∧
      es.length = options.frames.toNat ∧ rs.length = options.frames.toNat ∧
      (∀ s ∈ es, s.pixels.size = g.frameWidth) ∧ (∀ s ∈ rs, s.pixels.size = g.frameWidth) ∧
      report.Exact options.frames.toNat g.frameWidth (Simulator.pixelAt es)
        (Simulator.pixelAt rs) := by
  obtain ⟨p, q, emitted, reference, hlower, hparse, hwidth, hemitted, hreference, hrun⟩ :=
    Graph.verify_eq_ok_iff.1 h
  have he := (Simulator.size_of_ofProgram hemitted).trans hwidth
  have hr : reference.pixels.size = g.frameWidth := by
    obtain ⟨pl, -, rfl⟩ := Graph.exists_plan_of_lower (Graph.lower_of_program hlower).1
    exact Simulator.size_of_ofProgram hreference
  have hcount : (0 : UInt32).toNat + options.frames.toNat < UInt32.size := by
    rw [UInt32.toNat_zero, Nat.zero_add]
    exact options.frames.toNat_lt
  obtain ⟨es, rs, hes, hrs, htally⟩ := Comparison.tallies_addFrames he hr hcount hrun
  rw [UInt32.toNat_zero] at hes hrs htally
  obtain ⟨hlength, hsize⟩ := Simulator.size_of_trace hes
  obtain ⟨hlength', hsize'⟩ := Simulator.size_of_trace hrs
  have hframes : (options.input.sequence 0 options.frames.toNat).length = options.frames.toNat := by
    simp [SyntheticInput.sequence]
  -- The tables are those that the simulators show, and no pixel had been compared before.
  have hreport := htally (Simulator.pixelAt es) (Simulator.pixelAt rs) []
    (fun j _ p _ => by rw [Nat.zero_add]; exact ⟨rfl, rfl⟩) (Comparison.tallies_start _ _ _ _)
  rw [List.nil_append] at hreport
  exact ⟨p, q, emitted, reference, es, rs, hlower, hparse, hemitted, hreference, hes, hrs,
    hlength.trans hframes, hlength'.trans hframes, fun s hs => (hsize s hs).trans he,
    fun s hs => (hsize' s hs).trans hr, hreport.exact⟩

/-- A ramp as pixels, from dark to bright. -/
def rampSource : String :=
  "\x7b\"frame_width\":2,\"nodes\":[\x7b\"id\":\"r\",\"kind\":\"RampShape\"\x7d," ++
  "\x7b\"id\":\"c\",\"kind\":\"Colorize\"\x7d,\x7b\"id\":\"o\",\"kind\":\"PixelOutput\"\x7d]\x7d"

/-- An artifact that shows the ramp in red only, and not quite as bright. -/
def reddishText : String :=
  "extern \"C\" void f(float time, const AudioSnapshot* audio, const PatternParameters& params, " ++
  "CRGB8* out) \x7b for (int i = 0; i < 2; ++i) \x7b " ++
  "out[i].r = (uint8_t)((float)i * 250.0f); \x7d \x7d"

/-- The dark end of the ramp agrees on both frames, and the bright end does not. -/
theorem reddishText_reported :
    ∃ g report es rs, Graph.ofSource rampSource = .ok g ∧
      g.verify reddishText ⟨2, {}⟩ = .ok report ∧ report.mismatches = 2 ∧ report.maxDelta = 515 ∧
      report.firstMismatch = some ⟨0, 1, ⟨250, 0, 0⟩, ⟨255, 255, 255⟩⟩ ∧
      es.length = 2 ∧ rs.length = 2 ∧
      report.Exact 2 g.frameWidth (Simulator.pixelAt es) (Simulator.pixelAt rs) := by
  have hresult : (Graph.ofSource rampSource >>= fun g => g.verify reddishText ⟨2, {}⟩).toOption.map
      (fun r => (r.mismatches, r.maxDelta, r.firstMismatch)) =
      some (2, 515, some ⟨0, 1, ⟨250, 0, 0⟩, ⟨255, 255, 255⟩⟩) := by
    decide +kernel
  obtain ⟨report, hrun, hfields⟩ := Except.exists_ok_of_map hresult
  obtain ⟨g, hload, hverify⟩ := Except.bind_eq_ok_iff.1 hrun
  simp only [Prod.mk.injEq] at hfields
  obtain ⟨p, q, emitted, reference, es, rs, -, -, -, -, -, -, hes, hrs, -, -, hexact⟩ :=
    report_exact hverify
  exact ⟨g, report, es, rs, hload, hverify, hfields.1, hfields.2.1, hfields.2.2, hes, hrs, hexact⟩

end LedPattern
