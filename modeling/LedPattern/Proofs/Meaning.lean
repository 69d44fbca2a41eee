import LedPattern.Instance.Simulator
import LedPattern.Proofs.NamedRun

/-!
# What a graph means

The meaning of a chain of nodes, said directly: each node takes the samples that the node before it
left, and leaves new ones. There are no buffers that are used twice, no loops and no programs. A
node with a state owns a vector of levels, all zero at first, which lasts from frame to frame.

`Graph.meaning` gives the pixels of one frame and the vectors after it, and `Graph.meanings` does so
for a sequence of frames. Both say `none` of a chain whose nodes do not fit together.
-/

namespace LedPattern

/-- A color with its three shares. -/
structure Color where
  r : Float32
  g : Float32
  b : Float32

/-- What a node leaves for the next one. -/
inductive Samples where
  | levels (xs : List Float32)
  | colors (cs : List Color)

/-- The levels that nodes with a state have kept, by the identifiers of the nodes. -/
abbrev Vectors := String → List Float32

/-- The vectors with that of one node replaced. -/
def Vectors.set (v : Vectors) (id : String) (xs : List Float32) : Vectors :=
  fun other => if other = id then xs else v other

/-- Whether a predicate holds of a frame. -/
def Predicate.holds (f : Frame) : Predicate → Bool
  | .audioAvailable => f.audio.isSome
  | .energyAbove threshold =>
    match f.audio with
    | some audio => threshold < audio.energy
    | none => false

namespace Meaning

/-- The levels of the first `bins` bins at the frame's sensitivity, or zeros without audio. -/
def sampled (f : Frame) (bins : Nat) : List Float32 :=
  match f.audio with
  | some audio =>
    (audio.spectrum.toList.take bins).map fun x => Single.clamp01 (x * f.params.sensitivity)
  | none => List.replicate bins 0

/-- Levels that rise from zero to one, or a single zero. -/
def rising (width : Nat) : List Float32 :=
  (List.range width).map fun i =>
    if width = 1 then 0 else Single.ofNat i / Single.ofNat (width - 1)

/-- Levels between their old values and an input. -/
def decayed (d : Float32) (old input : List Float32) : List Float32 :=
  List.zipWith (fun s x => d * s + (1 - d) * x) old input

/-- The color of a level. -/
def colored (map : ColorMap) (x : Float32) : Color :=
  let v := Single.clamp01 x
  match map with
  | .grayscale => ⟨v, v, v⟩
  | .tint r g b => ⟨v * r, v * g, v * b⟩

/-- Colors from end to end, or the first half of them outwards from the middle. -/
def mirrored (cs : List Color) : MirrorVariant → List Color
  | .fullReversal => cs.reverse
  | .centerOrigin =>
    let half := cs.take (cs.length / 2)
    half.reverse ++ half

/-- The pixel of a color at a brightness. -/
def shown (brightness : Float32) (c : Color) : Pixel :=
  let byte (x : Float32) : UInt8 :=
    (Single.floor (Single.clamp01 x * Single.clamp01 brightness * 255 + 0.5)).toUInt8
  ⟨byte c.r, byte c.g, byte c.b⟩

/-- What a node before the nodes `rest` leaves, and the vectors after it. An audio input that is
followed by a source passes on what reached it. -/
def node (width : Nat) (f : Frame) (n : Node) (rest : List Node) (input : Option Samples)
    (v : Vectors) : Option (Option Samples × Vectors) :=
  match n.operation, input with
  | .ok (.audioInput bins), _ =>
    if StartsWithSource rest then some (input, v)
    else some (some (.levels (sampled f (bins.getD width))), v)
  | .ok .rampShape, _ => some (some (.levels (rising width)), v)
  | .ok (.persistDecay d _), some (.levels xs) =>
    let state := decayed d (v n.id) xs
    some (some (.levels state), v.set n.id state)
  | .ok (.colorize map), some (.levels xs) => some (some (.colors (xs.map (colored map))), v)
  | .ok (.mirror variant), some (.colors cs) => some (some (.colors (mirrored cs variant)), v)
  | _, _ => none

/-- What the nodes of a segment leave. -/
def segment (width : Nat) (f : Frame) :
    List Node → Option Samples → Vectors → Option (Option Samples × Vectors)
  | [], input, v => some (input, v)
  | n :: rest, input, v => do
    let (output, v) ← node width f n rest input v
    segment width f rest output v

/-- The pixels of what reaches the output. -/
def output (f : Frame) : Option Samples → Option (List Pixel)
  | some (.colors cs) => some (cs.map (shown f.params.brightness))
  | _ => none

/-- The pixels of a chain. A conditional node is followed by the nodes up to the output if its
predicate holds, and otherwise by those of its fallback list. -/
def chain (width : Nat) (f : Frame) :
    List Node → Option Samples → Vectors → Option (List Pixel × Vectors)
  | [], _, _ => none
  | n :: rest, input, v => do
    match n.operation with
    | .ok .pixelOutput => .some (← output f input, v)
    | .ok (.conditionalFallback predicate) =>
      let way := if predicate.holds f then rest.dropLast else n.fallback
      let (joined, v) ← segment width f way input v
      .some (← output f joined, v)
    | _ =>
      let (next, v) ← node width f n rest input v
      chain width f rest next v

/-- The number of samples that a node leaves, if `len` of them reach it. -/
def lengthAfter (width : Nat) (n : Node) (rest : List Node) (len : Nat) : Nat :=
  match n.operation with
  | .ok (.audioInput bins) => if StartsWithSource rest then len else bins.getD width
  | .ok .rampShape => width
  | _ => len

/-- The nodes of a segment that have a state, each with the number of samples that reach it. -/
def segmentStates (width : Nat) : Nat → List Node → List (String × Nat)
  | _, [] => []
  | len, n :: rest =>
    let here := if n.IsKind .persistDecay then [(n.id, len)] else []
    here ++ segmentStates width (lengthAfter width n rest len) rest

/-- The nodes of a chain that have a state, those of a fallback list included. -/
def chainStates (width : Nat) : Nat → List Node → List (String × Nat)
  | _, [] => []
  | len, n :: rest =>
    let here := if n.IsKind .persistDecay then [(n.id, len)] else []
    here ++ segmentStates width len n.fallback
      ++ chainStates width (lengthAfter width n rest len) rest

end Meaning

namespace Graph

/-- The vectors before the first frame: as many zeros for each state as samples reach its node. -/
def restingVectors (g : Graph) : Vectors :=
  fun id => List.replicate (((Meaning.chainStates g.frameWidth 0 g.nodes).lookup id).getD 0) 0

/-- The pixels of a frame and the vectors after it. -/
def meaning (g : Graph) (f : Frame) (v : Vectors) : Option (List Pixel × Vectors) :=
  Meaning.chain g.frameWidth f g.nodes none v

/-- The pixels of each frame of a sequence and the vectors after it. -/
def meanings (g : Graph) : Vectors → List Frame → Option (List (List Pixel × Vectors))
  | _, [] => some []
  | v, f :: rest => do
    let (pixels, v) ← g.meaning f v
    some ((pixels, v) :: (← g.meanings v rest))

end Graph

/-- The simulators after each frame of a sequence. -/
def Simulator.trace (s : Simulator) : List Frame → Except Fault (List Simulator)
  | [] => .ok []
  | f :: rest => do
    let s ← s.render f
    .ok (s :: (← s.trace rest))

/-- The frames of a sequence are rendered one after another. -/
theorem Simulator.trace_cons_eq_ok_iff {s : Simulator} {f : Frame} {rest : List Frame}
    {ss : List Simulator} : s.trace (f :: rest) = .ok ss ↔
      ∃ next more, s.render f = .ok next ∧ next.trace rest = .ok more ∧ ss = next :: more := by
  constructor
  · intro h
    obtain ⟨next, hnext, h⟩ := Except.bind_eq_ok_iff.1 h
    obtain ⟨more, hmore, h⟩ := Except.bind_eq_ok_iff.1 h
    exact ⟨next, more, hnext, hmore, (Except.ok.inj h).symm⟩
  · rintro ⟨next, more, hnext, hmore, rfl⟩
    exact Except.bind_eq_ok_iff.2 ⟨next, hnext, Except.bind_eq_ok_iff.2 ⟨more, hmore, rfl⟩⟩

namespace Store

/-- The first `n` levels of a buffer. -/
def levels (σ : Store) (symbol : String) (n : Nat) : List Float32 :=
  (List.range n).map fun j => σ.cell symbol j 0

/-- The first `n` colors of a buffer. -/
def colors (σ : Store) (symbol : String) (n : Nat) : List Color :=
  (List.range n).map fun j => ⟨σ.cell symbol j 0, σ.cell symbol j 1, σ.cell symbol j 2⟩

/-- The levels of a buffer that has been filled. -/
theorem Fills.levels_eq {dst : String} {val : Nat → Nat → Float32} {n : Nat} {σ τ : Store}
    (h : Fills dst 1 val (· < n) σ τ) : τ.levels dst n = (List.range n).map fun j => val j 0 :=
  List.map_congr_left fun j hj => h.inside j (List.mem_range.1 hj) 0 (by omega)

/-- The colors of a buffer that has been filled. -/
theorem Fills.colors_eq {dst : String} {val : Nat → Nat → Float32} {n : Nat} {σ τ : Store}
    (h : Fills dst 3 val (· < n) σ τ) :
    τ.colors dst n = (List.range n).map fun j => ⟨val j 0, val j 1, val j 2⟩ := by
  refine List.map_congr_left fun j hj => ?_
  have hj := List.mem_range.1 hj
  rw [h.inside j hj 0 (by omega), h.inside j hj 1 (by omega), h.inside j hj 2 (by omega)]

/-- What buffer `b` of shape `t` holds. -/
inductive Carries (σ : Store) (b : Buffer) : Option Shape → Option Samples → Prop where
  | nothing : Carries σ b none none
  | levels {n : Nat} : Carries σ b (some ⟨.float, n⟩) (some (.levels (σ.levels b.symbol n)))
  | colors {n : Nat} : Carries σ b (some ⟨.rgb, n⟩) (some (.colors (σ.colors b.symbol n)))

/-- The slots hold the vectors of their owners. -/
def Keeps (σ : Store) (slots : List Slot) (v : Vectors) : Prop :=
  ∀ slot ∈ slots, σ.levels slot.symbol slot.len = v slot.owner

/-- Filling a temporary leaves the vectors. -/
theorem Keeps.of_fills {S : Storage} (hS : S.Named) {σ τ : Store} {v : Vectors}
    (h : σ.Keeps S.slots v) {t : Temp} (ht : t ∈ S.temps) {lanes : Nat}
    {val : Nat → Nat → Float32} {D : Nat → Prop} (hfills : Fills t.symbol lanes val D σ τ) :
    τ.Keeps S.slots v := by
  intro slot hslot
  rw [← h slot hslot, levels, levels, hfills.others _ (hS.slot_ne_temp hslot ht)]

/-- Filling a slot replaces the vector of its owner, and no other. -/
theorem Keeps.set_of_fills {S : Storage} (hS : S.Named)
    (howners : (S.slots.map Slot.owner).Nodup) {σ τ : Store} {v : Vectors}
    (h : σ.Keeps S.slots v) {own : Slot} (hown : own ∈ S.slots) {lanes : Nat}
    {val : Nat → Nat → Float32} {D : Nat → Prop} (hfills : Fills own.symbol lanes val D σ τ) :
    τ.Keeps S.slots (v.set own.owner (τ.levels own.symbol own.len)) := by
  intro slot hslot
  by_cases howner : slot.owner = own.owner
  · rw [List.inj_on_of_nodup_map howners hslot hown howner, Vectors.set, if_pos rfl]
  · have hother : slot.symbol ≠ own.symbol := by
      intro hsymbol
      rw [List.inj_on_of_nodup_map hS.slots_nodup hslot hown hsymbol] at howner
      exact howner rfl
    rw [Vectors.set, if_neg howner, ← h slot hslot, levels, levels, hfills.others _ hother]

end Store

namespace Meaning

/-- The samples of a complete frame, bin by bin. -/
theorem sampled_eq {f : Frame} (hf : f.Complete) {bins : Nat} (hbins : bins ≤ spectrumBins) :
    sampled f bins = (List.range bins).map fun j =>
      if f.audio.isSome then Single.clamp01 (f.level j * f.params.sensitivity) else 0 := by
  unfold sampled Frame.level
  rcases haudio : f.audio with _ | audio
  · simp [List.map_const']
  · have hsize := hf audio haudio
    refine List.ext_getElem (by simp [hsize]; omega) fun j h₁ h₂ => ?_
    have hj : j < audio.spectrum.size := by simp at h₂; omega
    simp [Array.getD_eq_getD_getElem?, hj]

/-- A decay, level by level. -/
theorem decayed_eq (d : Float32) (σ : Store) (dst src : String) (n : Nat) :
    decayed d (σ.levels dst n) (σ.levels src n) =
      (List.range n).map fun j => d * σ.cell dst j 0 + (1 - d) * σ.cell src j 0 := by
  refine List.ext_getElem (by simp [decayed, Store.levels]) fun j h₁ h₂ => ?_
  simp [decayed, Store.levels]

/-- The colors of levels, one by one. -/
theorem colored_eq (map : ColorMap) (σ : Store) (src : String) (n : Nat) :
    (σ.levels src n).map (colored map) = (List.range n).map fun j =>
      let color := Kernel.laneShare map (Single.clamp01 (σ.cell src j 0))
      ⟨color 0, color 1, color 2⟩ := by
  rw [Store.levels, List.map_map]
  refine List.map_congr_left fun j _ => ?_
  cases map <;> rfl

/-- Colors from end to end, one by one. -/
theorem reversed_eq (σ : Store) (src : String) (n : Nat) :
    mirrored (σ.colors src n) .fullReversal = (List.range n).map fun j =>
      ⟨σ.cell src (n - 1 - j) 0, σ.cell src (n - 1 - j) 1, σ.cell src (n - 1 - j) 2⟩ := by
  refine List.ext_getElem (by simp [mirrored, Store.colors]) fun j h₁ h₂ => ?_
  simp [mirrored, Store.colors]

/-- Colors from the middle, one by one. -/
theorem centered_eq (σ : Store) (src : String) {n : Nat} (heven : n % 2 = 0) :
    mirrored (σ.colors src n) .centerOrigin = (List.range n).map fun j =>
      let k := if j < n / 2 then n / 2 - 1 - j else j - n / 2
      ⟨σ.cell src k 0, σ.cell src k 1, σ.cell src k 2⟩ := by
  obtain ⟨half, rfl⟩ : ∃ half, n = half + half := ⟨n / 2, by omega⟩
  have htake : (σ.colors src (half + half)).take ((σ.colors src (half + half)).length / 2) =
      σ.colors src half := by
    simp only [Store.colors, List.length_map, List.length_range, ← List.map_take, List.take_range]
    congr 2
    omega
  have hback := reversed_eq σ src half
  simp only [mirrored] at hback ⊢
  rw [htake, hback, List.range_add, List.map_append, List.map_map,
    show (half + half) / 2 = half by omega]
  congr 1
  · refine List.map_congr_left fun j hj => ?_
    rw [if_pos (List.mem_range.1 hj)]
  · refine List.map_congr_left fun j _ => ?_
    simp only [Function.comp]
    rw [if_neg (by omega), show half + j - half = j by omega]

end Meaning

namespace Kernel

variable {width : Nat} {f : Frame} {s S : Storage} {cur : Buffer} {t u : Option Shape}
  {σ : Store} {x : Option Samples} {v : Vectors}

/-- The code of a node's stage leaves what the node means. The vectors are those of all slots that
the program will have. -/
theorem stage_meaning {n : Node} {rest : List Node} {st : Stage} (h : Staged width n rest t st u)
    (hf : f.Complete) (hs : s.Named) (hcur : s.Holds cur t)
    (hgrows : (stage width s cur st).storage.Grows S) (hS : S.Named)
    (howners : (S.slots.map Slot.owner).Nodup) (hx : σ.Carries cur t x) (hv : σ.Keeps S.slots v) :
    ∃ y w, Meaning.node width f n rest x v = some (y, w) ∧
      ((stage width s cur st).code.apply f σ).Carries (stage width s cur st).buffer u y ∧
      ((stage width s cur st).code.apply f σ).Keeps S.slots w := by
  cases h with
  | idle hop hnext => exact ⟨x, v, by simp [Meaning.node, hop, hnext], hx, hv⟩
  | @sample bins _ hop hnext hbins =>
    have hdst := (Storage.acquire_spec hs .float (bins.getD width) "").1
    have hfills := sample_fills f σ (s.acquire .float (bins.getD width) "").1 (bins.getD width)
    have hlevels := hfills.levels_eq.trans (Meaning.sampled_eq hf hbins).symm
    refine ⟨_, v, by simp [Meaning.node, hop, hnext]; rfl, ?_,
      hv.of_fills hS (hgrows.temps.subset hdst.mem) hfills⟩
    rw [← hlevels]
    exact .levels
  | ramp hop =>
    have hdst := (Storage.acquire_spec hs .float width cur.symbol).1
    have hfills := ramp_fills f σ (s.acquire .float width cur.symbol).1 width
    refine ⟨_, v, by simp [Meaning.node, hop]; rfl, ?_,
      hv.of_fills hS (hgrows.temps.subset hdst.mem) hfills⟩
    rw [Meaning.rising, ← hfills.levels_eq]
    exact .levels
  | @decay factor bins len hop hbins =>
    cases hx
    obtain ⟨hdecl, helem, rfl, -⟩ := Storage.holds_some.1 hcur
    obtain ⟨symbol, hfree, hbuffer, hstorage, -⟩ := Storage.slotFor_spec hs n.id cur.len
    simp only [stage, hbuffer, hstorage, Block.apply_append, apply_note] at hgrows ⊢
    have hne : cur.symbol ≠ (⟨symbol, .float, cur.len⟩ : Buffer).symbol := by
      rintro rfl
      exact hfree hdecl.mem_symbols
    have hfills := decay_fills f σ factor hne
    dsimp only at hfills
    have hslot : ⟨symbol, n.id, cur.len⟩ ∈ S.slots := hgrows.slots.subset (by simp)
    have hold : v n.id = σ.levels symbol cur.len := (hv _ hslot).symm
    have hlevels : _ = Meaning.decayed factor (v n.id) (σ.levels cur.symbol cur.len) :=
      hfills.levels_eq.trans (hold ▸ (Meaning.decayed_eq factor σ symbol cur.symbol cur.len).symm)
    have hkeeps := hv.set_of_fills hS howners hslot hfills
    rw [hlevels] at hkeeps
    refine ⟨_, _, by simp [Meaning.node, hop]; rfl, ?_, hkeeps⟩
    rw [← hlevels]
    exact .levels
  | @color map len hop =>
    cases hx
    obtain ⟨hdecl, helem, rfl, -⟩ := Storage.holds_some.1 hcur
    have hdst := (Storage.acquire_spec hs .rgb cur.len "").1
    -- Levels and colors are not in the same buffer.
    have hne := hdst.symbol_ne hdecl (by simp [helem])
    have hfills := color_fills f σ map hne
    refine ⟨_, v, by simp [Meaning.node, hop]; rfl, ?_,
      hv.of_fills hS (hgrows.temps.subset hdst.mem) hfills⟩
    rw [Meaning.colored_eq, ← hfills.colors_eq]
    exact .colors
  | @mirror variant len hop heven =>
    cases hx
    obtain ⟨hdecl, helem, rfl, -⟩ := Storage.holds_some.1 hcur
    obtain ⟨hdst, havoid⟩ := Storage.acquire_spec hs .rgb cur.len cur.symbol
    have hne : cur.symbol ≠ (s.acquire .rgb cur.len cur.symbol).1.symbol :=
      (havoid hdecl.mem_symbols).symm
    cases variant with
    | fullReversal =>
      have hfills := reversal_fills f σ hne
      refine ⟨_, v, by simp [Meaning.node, hop]; rfl, ?_,
        hv.of_fills hS (hgrows.temps.subset hdst.mem) hfills⟩
      rw [Meaning.reversed_eq, ← hfills.colors_eq]
      exact .colors
    | centerOrigin =>
      have hfills := centering_fills f σ hne
      rw [show 2 * (cur.len / 2) = cur.len by have := heven rfl; omega] at hfills
      refine ⟨_, v, by simp [Meaning.node, hop]; rfl, ?_,
        hv.of_fills hS (hgrows.temps.subset hdst.mem) hfills⟩
      rw [Meaning.centered_eq σ cur.symbol (heven rfl), ← hfills.colors_eq]
      exact .colors

/-- The code of a segment's stages leaves what the segment means. -/
theorem stages_meaning {nodes : List Node} {ss : List Stage} (h : StagedAll width nodes t ss u)
    (hf : f.Complete) (hwidth : width < Index.limit) (hs : s.Named) (hcur : s.Holds cur t)
    (hgrows : (stages width s cur ss).storage.Grows S) (hS : S.Named)
    (howners : (S.slots.map Slot.owner).Nodup) (hx : σ.Carries cur t x) (hv : σ.Keeps S.slots v) :
    ∃ y w, Meaning.segment width f nodes x v = some (y, w) ∧
      ((stages width s cur ss).code.apply f σ).Carries (stages width s cur ss).buffer u y ∧
      ((stages width s cur ss).code.apply f σ).Keeps S.slots w := by
  induction h generalizing s cur σ x v with
  | nil => exact ⟨x, v, rfl, hx, hv⟩
  | cons hfirst hrest ih =>
    obtain ⟨hnamed, -, hholds⟩ := stage_storage hfirst.fits hwidth hs hcur
    obtain ⟨-, hmore, -⟩ := stages_storage hrest.fits hwidth hnamed hholds
    obtain ⟨y, w, hnode, hy, hw⟩ :=
      stage_meaning hfirst hf hs hcur (hmore.trans hgrows) hS howners hx hv
    obtain ⟨z, q, hsegment, hz, hq⟩ := ih hnamed hholds hgrows hy hw
    refine ⟨z, q, ?_, ?_, ?_⟩
    · simp only [Meaning.segment, hnode]
      exact hsegment
    · simpa only [stages, Block.apply_append] using hz
    · simpa only [stages, Block.apply_append] using hq

/-- A branch ends with its result where the branches meet. -/
theorem join_meaning {src dst : Buffer} {sh : Shape} (hS : S.Named)
    (hshape : src.elem = sh.elem ∧ src.len = sh.len)
    (hdst : ⟨dst.symbol, sh.elem, sh.len⟩ ∈ S.temps) (hx : σ.Carries src (some sh) x)
    (hv : σ.Keeps S.slots v) :
    ((join dst src).apply f σ).Carries dst (some sh) x ∧
      ((join dst src).apply f σ).Keeps S.slots v := by
  unfold join
  split
  · next hsame =>
    refine ⟨?_, hv⟩
    cases hx with
    | levels =>
      rw [hsame]
      exact .levels
    | colors =>
      rw [hsame]
      exact .colors
  · next hne =>
    have hfills := copy_fills f σ hne
    obtain ⟨helem, hlen⟩ := hshape
    refine ⟨?_, hv.of_fills hS hdst hfills⟩
    cases hx with
    | levels =>
      rw [helem, hlen] at hfills
      rw [Store.levels, ← Store.Fills.levels_eq hfills]
      exact .levels
    | colors =>
      rw [helem, hlen] at hfills
      rw [Store.colors, ← Store.Fills.colors_eq hfills]
      exact .colors

/-- The test of a predicate holds exactly if the predicate does. -/
theorem testOf_holds (predicate : Predicate) (f : Frame) :
    (testOf predicate).holds f = predicate.holds f := by
  cases predicate <;> rfl

/-- The code of a fork leaves what the way that is taken means. -/
theorem fork_meaning {primary fallback : List Node} (fk : Fork) {sh : Shape}
    (hfirst : StagedAll width primary t fk.primary (some sh))
    (hsecond : StagedAll width fallback t fk.fallback (some sh)) (hf : f.Complete)
    (hwidth : width < Index.limit) (hs : s.Named) (hcur : s.Holds cur t)
    (hgrows : (fork width s cur fk).storage.Grows S) (hS : S.Named)
    (howners : (S.slots.map Slot.owner).Nodup) (hx : σ.Carries cur t x) (hv : σ.Keeps S.slots v) :
    ∃ y w, Meaning.segment width f (if fk.predicate.holds f then primary else fallback) x v =
        some (y, w) ∧
      ((fork width s cur fk).code.apply f σ).Carries (fork width s cur fk).buffer (some sh) y ∧
      ((fork width s cur fk).code.apply f σ).Keeps S.slots w := by
  obtain ⟨hnamed, hstep, hstep', -, hholds', hholds, hdst⟩ :=
    fork_ways hfirst.fits hsecond.fits hwidth hs hcur
  have hmeet := hgrows.temps.subset hdst.mem
  have hlater := hdst.grows.trans hgrows
  simp only [fork, Block.apply_append, apply_note, Block.apply, testOf_holds]
  split
  · obtain ⟨y, w, hsegment, hy, hw⟩ :=
      stages_meaning hfirst hf hwidth hs hcur (hstep'.trans hlater) hS howners hx hv
    obtain ⟨-, helem, hlen, -⟩ := hholds sh rfl
    exact ⟨y, w, hsegment, join_meaning hS ⟨helem, hlen⟩ hmeet hy hw⟩
  · obtain ⟨y, w, hsegment, hy, hw⟩ :=
      stages_meaning hsecond hf hwidth hnamed (hstep.holds hcur) hlater hS howners hx hv
    obtain ⟨-, helem, hlen, -⟩ := hholds' sh rfl
    exact ⟨y, w, hsegment, join_meaning hS ⟨helem, hlen⟩ hmeet hy hw⟩

end Kernel

/-- What a node means depends on the node after it only as far as that is a source. -/
theorem Meaning.node_congr (width : Nat) (f : Frame) (n : Node) {rest rest' : List Node}
    (h : StartsWithSource rest ↔ StartsWithSource rest') (x : Option Samples) (v : Vectors) :
    node width f n rest x v = node width f n rest' x v := by
  simp only [node, h]

/-- The meaning of a chain that starts with a segment. -/
theorem Meaning.chain_append {width : Nat} {f : Frame} {before tail : List Node}
    {t u : Option Shape} {ss : List Stage} (h : StagedAll width before t ss u)
    (htail : ¬StartsWithSource tail) (x : Option Samples) (v : Vectors) :
    chain width f (before ++ tail) x v =
      (segment width f before x v).bind fun (y, w) => chain width f tail y w := by
  induction h generalizing x v with
  | nil => rfl
  | @cons n rest t u z st ss hfirst hrest ih =>
    have hcongr := Meaning.node_congr width f n (startsWithSource_append rest htail) x v
    have hstep : chain width f (n :: (rest ++ tail)) x v =
        (node width f n rest x v).bind fun (y, w) => chain width f (rest ++ tail) y w := by
      rw [← hcongr]
      cases hfirst with
      | idle hop | sample hop | ramp hop | decay hop | color hop | mirror hop =>
        simp only [chain, hop]
        rfl
    rw [List.cons_append, hstep, segment]
    rcases node width f n rest x v with _ | ⟨y, w⟩
    · rfl
    · exact ih y w

/-- The output shows the colors that reach it. -/
theorem Kernel.output_meaning {f : Frame} {σ : Store} {src : Buffer} {width : Nat}
    {x : Option Samples} (hx : σ.Carries src (some ⟨.rgb, width⟩) x) :
    Meaning.output f x =
      some ((List.range width).map ((output src width).apply f σ).pixel) := by
  cases hx
  simp only [Meaning.output, Store.colors, List.map_map, Option.some.injEq]
  refine List.map_congr_left fun j hj => ?_
  rw [(output_apply f σ src width).2 j (List.mem_range.1 hj)]
  rfl

/-- The code of a chain's plan shows what the chain means, and keeps the vectors that the chain
keeps. -/
theorem Kernel.plan_meaning {width : Nat} {nodes : List Node} {p : Plan} {f : Frame} {σ : Store}
    {v : Vectors} (h : Planned width none nodes p) (hf : f.Complete) (hwidth : width < Index.limit)
    (howners : ((main width p).storage.slots.map Slot.owner).Nodup)
    (hv : σ.Keeps (main width p).storage.slots v) :
    ∃ w, Meaning.chain width f nodes none v =
        some ((List.range width).map ((plan width p).code.apply f σ).pixel, w) ∧
      ((plan width p).code.apply f σ).Keeps (main width p).storage.slots w := by
  have hS := (main_storage h.fits hwidth).1
  -- It is enough to look at the code before the output.
  suffices hmain : ∃ y w, ((main width p).code.apply f σ).Carries (main width p).buffer
        (some ⟨.rgb, width⟩) y ∧
      ((main width p).code.apply f σ).Keeps (main width p).storage.slots w ∧
      Meaning.chain width f nodes none v = (Meaning.output f y).map fun pixels => (pixels, w) by
    obtain ⟨y, w, hy, hw, hchain⟩ := hmain
    refine ⟨w, ?_, fun slot hslot => ?_⟩
    · rw [hchain, output_meaning hy]
      simp [plan_eq]
    · rw [← hw slot hslot, plan_eq]
      simp only [Block.apply_append, apply_note, Store.levels]
      rw [(output_apply f _ _ width).1]
  cases h with
  | @straight chain last lead hlead hlast =>
    obtain ⟨y, w, hsegment, hy, hw⟩ := stages_meaning hlead hf hwidth Storage.named_empty
      (holds_none _ _) (.refl _) hS howners .nothing hv
    refine ⟨y, w, hy, hw, ?_⟩
    have hout := not_startsWithSource (Node.operation_ok hlast).1 rfl []
    rw [Meaning.chain_append hlead hout, hsegment]
    simp only [Option.bind_some, Meaning.chain, hlast]
    rcases Meaning.output f y with _ | pixels <;> rfl
  | @forked before primary n last u predicate lead first second hlead hop _ _ hfirst hsecond
      hlast =>
    obtain ⟨hnamed, -, hholds⟩ :=
      stages_storage hlead.fits hwidth Storage.named_empty (holds_none _ _)
    obtain ⟨-, hmore, -⟩ := fork_storage (f := ⟨n.id, predicate, first, second⟩) hfirst.fits
      hsecond.fits hwidth hnamed hholds
    obtain ⟨y, w, hsegment, hy, hw⟩ := stages_meaning hlead hf hwidth Storage.named_empty
      (holds_none _ _) hmore hS howners .nothing hv
    obtain ⟨z, q, hway, hz, hq⟩ := fork_meaning ⟨n.id, predicate, first, second⟩ hfirst
      hsecond hf hwidth hnamed hholds (.refl _) hS howners hy hw
    refine ⟨z, q, by simpa only [main, Block.apply_append] using hz,
      by simpa only [main, Block.apply_append] using hq, ?_⟩
    have hcond := not_startsWithSource (Node.operation_ok hop).1 rfl (primary ++ [last])
    rw [Meaning.chain_append hlead hcond, hsegment]
    simp only [Option.bind_some, Meaning.chain, hop, List.dropLast_concat, hway]
    show (Meaning.output f z).bind (fun pixels => some (pixels, q)) = _
    rcases Meaning.output f z with _ | pixels <;> rfl

end LedPattern
