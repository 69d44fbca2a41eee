import LedPattern.Lowering.Lower
import LedPattern.Proofs.Naming
import LedPattern.Proofs.Planning

/-!
# What emitted code touches

The code of a plan whose stages fit together uses its buffers correctly. `Plan.Fits` says that the
stages fit, without the nodes that they come from. For the code, `Storage.Runs` says of one loop
that all its places lie in declared buffers of the right elements and within their lengths, and
that every local is bound before it is read.

`stage_storage` and `stage_runs` treat one stage: the first says what happens to storage, the
second what the loops are. Both are carried along a list of stages by induction (`stages_storage`,
`stages_runs`) and then over a fork and a whole plan, with `plan_runs` as the result.
-/

namespace LedPattern

/-- What a stage makes of the shape of the buffer that reaches it. -/
inductive Stage.Fits (width : Nat) : Option Shape → Stage → Option Shape → Prop where
  | idle {id : String} {t : Option Shape} : Fits width t (.idle id) t
  | sample {id : String} {bins : Nat} {t : Option Shape} (hbins : bins ≤ spectrumBins) :
      Fits width t (.sample id bins) (some ⟨.float, bins⟩)
  | ramp {id : String} {t : Option Shape} : Fits width t (.ramp id) (some ⟨.float, width⟩)
  | decay {id : String} {factor : Float32} {len : Nat} :
      Fits width (some ⟨.float, len⟩) (.decay id factor) (some ⟨.float, len⟩)
  | color {id : String} {map : ColorMap} {len : Nat} :
      Fits width (some ⟨.float, len⟩) (.color id map) (some ⟨.rgb, len⟩)
  | mirror {id : String} {variant : MirrorVariant} {len : Nat}
      (heven : variant = .centerOrigin → len % 2 = 0) :
      Fits width (some ⟨.rgb, len⟩) (.mirror id variant) (some ⟨.rgb, len⟩)

/-- What some stages make of the shape of the buffer that reaches them. -/
inductive Stage.FitsAll (width : Nat) : Option Shape → List Stage → Option Shape → Prop where
  | nil {t : Option Shape} : FitsAll width t [] t
  | cons {t u v : Option Shape} {s : Stage} {rest : List Stage} (hfirst : s.Fits width t u)
      (hrest : FitsAll width u rest v) : FitsAll width t (s :: rest) v

/-- The stages of a plan fit together and lead from a buffer of shape `t` to as many colors as the
strip has LEDs, on both ways of a fork. -/
def Plan.Fits (width : Nat) (t : Option Shape) (p : Plan) : Prop :=
  match p.fork with
  | none => Stage.FitsAll width t p.lead (some ⟨.rgb, width⟩)
  | some f => ∃ u, Stage.FitsAll width t p.lead u ∧
      Stage.FitsAll width u f.primary (some ⟨.rgb, width⟩) ∧
      Stage.FitsAll width u f.fallback (some ⟨.rgb, width⟩)

/-- The stage of a node fits. -/
theorem Staged.fits {width : Nat} {n : Node} {rest : List Node} {t u : Option Shape} {s : Stage}
    (h : Staged width n rest t s u) : s.Fits width t u := by
  cases h with
  | idle => exact .idle
  | sample _ _ hbins => exact .sample hbins
  | ramp => exact .ramp
  | decay => exact .decay
  | color => exact .color
  | mirror _ heven => exact .mirror heven

/-- The stages of a branch fit. -/
theorem StagedAll.fits {width : Nat} {nodes : List Node} {t u : Option Shape} {stages : List Stage}
    (h : StagedAll width nodes t stages u) : Stage.FitsAll width t stages u := by
  induction h with
  | nil => exact .nil
  | cons hfirst _ ih => exact .cons hfirst.fits ih

/-- The plan of a chain fits. -/
theorem Planned.fits {width : Nat} {nodes : List Node} {t : Option Shape} {p : Plan}
    (h : Planned width t nodes p) : p.Fits width t := by
  cases h with
  | straight hlead _ => exact hlead.fits
  | forked hlead _ _ _ hfirst hsecond _ => exact ⟨_, hlead.fits, hfirst.fits, hsecond.fits⟩

namespace Block

variable {P L : Type}

/-- The loops that run while there is no audio signal: those that no first way of a branch
encloses. -/
def silentLoops : Block P L → List (Nat × List (Instr P L))
  | .done => []
  | .note _ rest => rest.silentLoops
  | .loop count body rest => (count, body) :: rest.silentLoops
  | .branch _ _ no rest => no.silentLoops ++ rest.silentLoops

/-- The loops of one sequence after another are those of both. -/
@[simp]
theorem loops_append (a b : Block P L) : (a ++ b).loops = a.loops ++ b.loops := by
  show (a.append b).loops = _
  induction a with
  | done => rfl
  | note _ _ ih => exact ih
  | loop count body _ ih => simp only [append, loops, ih, List.cons_append]
  | branch _ _ _ _ _ _ ih => simp only [append, loops, ih, List.append_assoc]

/-- The loops of two sequences that no branch encloses. -/
@[simp]
theorem topLoops_append (a b : Block P L) : (a ++ b).topLoops = a.topLoops ++ b.topLoops := by
  show (a.append b).topLoops = _
  induction a with
  | done => rfl
  | note _ _ ih => exact ih
  | loop count body _ ih => simp only [append, topLoops, ih, List.cons_append]
  | branch _ _ _ _ _ _ ih => exact ih

/-- The loops of two sequences that run without audio. -/
@[simp]
theorem silentLoops_append (a b : Block P L) :
    (a ++ b).silentLoops = a.silentLoops ++ b.silentLoops := by
  show (a.append b).silentLoops = _
  induction a with
  | done => rfl
  | note _ _ ih => exact ih
  | loop count body _ ih => simp only [append, silentLoops, ih, List.cons_append]
  | branch _ _ _ _ _ _ ih => simp only [append, silentLoops, ih, List.append_assoc]

/-- The loops that no branch encloses are among all loops. -/
theorem topLoops_sublist (a : Block P L) : a.topLoops.Sublist a.loops := by
  induction a with
  | done => exact List.Sublist.refl _
  | note _ _ ih => exact ih
  | loop count body _ ih => exact ih.cons_cons _
  | branch _ _ _ _ _ _ ih => exact ih.trans (List.sublist_append_right _ _)

end Block

/-- The locals that an expression reads. -/
def Expr.refs {P L : Type} : Expr P L → List L
  | .ref name => [name]
  | .binary _ a b => a.refs ++ b.refs
  | .clamp01 x => x.refs
  | .floor x => x.refs
  | _ => []

/-- Whether an expression reads the audio signal. -/
def Expr.hears {P L : Type} : Expr P L → Bool
  | .spectrum _ => true
  | .energy => true
  | .binary _ a b => a.hears || b.hears
  | .clamp01 x => x.hears
  | .floor x => x.hears
  | _ => false

/-- The instructions of a loop read no local that is neither in `bound` nor bound before. -/
def Instr.Closed (bound : List String) : List (Instr Place String) → Prop
  | [] => True
  | .bind name value :: rest => value.refs ⊆ bound ∧ Closed (name :: bound) rest
  | .store _ value :: rest => value.refs ⊆ bound ∧ Closed bound rest

namespace Storage

/-- The place lies in a declared buffer for every counter below `count`, and has a color exactly
if the buffer holds colors. -/
def Placed (s : Storage) (count : Nat) (place : Place) : Prop :=
  ∃ b, s.Declares b ∧ place.target = .buffer b.symbol ∧
    (place.channel.isSome ↔ b.elem = .rgb) ∧ place.index.fits count b.len = true

/-- A loop that finds all that it uses. -/
structure Runs (s : Storage) (l : Nat × List (Instr Place String)) : Prop where
  /-- The places of the loop exist. -/
  placed : ∀ instr ∈ l.2, ∀ place ∈ instr.places, s.Placed l.1 place
  /-- The bins of the spectrum that the loop reads exist. -/
  bins : ∀ instr ∈ l.2, ∀ index ∈ instr.value.bins, index.fits l.1 spectrumBins = true
  /-- The locals of the loop are bound before they are read. -/
  closed : Instr.Closed [] l.2

/-- What a loop uses stays while storage grows. -/
theorem Grows.runs {s t : Storage} (h : Grows s t) {l : Nat × List (Instr Place String)}
    (hl : s.Runs l) : t.Runs l where
  placed := by
    intro instr hinstr place hplace
    obtain ⟨b, hb, hfits⟩ := hl.placed instr hinstr place hplace
    exact ⟨b, h.declares hb, hfits⟩
  bins := hl.bins
  closed := hl.closed

/-- A place of a buffer, with a color exactly if it holds colors. -/
theorem placed_place {s : Storage} {b : Buffer} (hb : s.Declares b) {count : Nat} {index : Index}
    {channel : Option Channel} (hchannel : channel.isSome ↔ b.elem = .rgb)
    (hfits : index.fits count b.len = true) : s.Placed count (Kernel.place b index channel) :=
  ⟨b, hb, rfl, hchannel, hfits⟩

end Storage

/-- The counter stays below a length that is not below the number of rounds. -/
theorem Index.fits_counter {count len : Nat} (h : count ≤ len) :
    Index.counter.fits count len = true := by
  unfold Index.fits
  split
  · rfl
  · simp only [decide_eq_true_eq]
    omega

/-- The counter taken backwards stays below a length that is not below the number of rounds. -/
theorem Index.fits_reverse {count len : Nat} (h : count ≤ len) :
    (Index.reverse (count - 1)).fits count len = true := by
  unfold Index.fits
  split
  · rfl
  · simp only [Bool.and_eq_true, decide_eq_true_eq]
    omega

/-- The counter after an offset stays below a length that is not below their sum. -/
theorem Index.fits_offset {base count len : Nat} (h : base + count ≤ len)
    (hlen : len < Index.limit) : (Index.offset base).fits count len = true := by
  unfold Index.fits
  split
  · rfl
  · simp only [Bool.and_eq_true, decide_eq_true_eq]
    omega

namespace Kernel

variable {s : Storage} {dst src : Buffer}

/-- The loop that stores a level for each counter runs if the level's places exist. -/
theorem runs_levels (hd : s.Declares dst) (helem : dst.elem = .float) {count : Nat}
    (hlen : count ≤ dst.len) {value : Expr Place String}
    (hplaces : ∀ place ∈ value.places, s.Placed count place)
    (hbins : ∀ index ∈ value.bins, index.fits count spectrumBins = true) (hrefs : value.refs = []) :
    s.Runs (count, [store dst .counter none value]) where
  placed := by
    have hdst : s.Placed count (place dst .counter none) :=
      Storage.placed_place hd (by simp [helem]) (Index.fits_counter hlen)
    simpa [store, Instr.places] using ⟨hdst, hplaces⟩
  bins := by simpa [store, Instr.value] using hbins
  closed := by simp [store, Instr.Closed, hrefs]

/-- The loops of a sample run. -/
theorem sample_runs (hd : s.Declares dst) (helem : dst.elem = .float)
    (hbins : dst.len ≤ spectrumBins) : ∀ l ∈ (sample dst dst.len).loops, s.Runs l := by
  intro l hl
  simp only [sample, loop, Block.loops, List.append_nil, List.mem_append, List.mem_singleton] at hl
  rcases hl with rfl | rfl
  · refine runs_levels hd helem (Nat.le_refl _) (by simp [Expr.places]) ?_ rfl
    simpa [Expr.bins] using Index.fits_counter hbins
  · exact runs_levels hd helem (Nat.le_refl _) (by simp [Expr.places]) (by simp [Expr.bins]) rfl

/-- The loop of a ramp runs. -/
theorem ramp_runs (hd : s.Declares dst) (helem : dst.elem = .float) :
    ∀ l ∈ (ramp dst dst.len).loops, s.Runs l := by
  intro l hl
  simp only [ramp, loop, Block.loops, List.mem_singleton] at hl
  subst hl
  refine runs_levels hd helem (Nat.le_refl _) ?_ ?_ ?_ <;>
    split <;> simp [Expr.places, Expr.bins, Expr.refs]

/-- The loop of a decay runs. -/
theorem decay_runs (hd : s.Declares dst) (hs : s.Declares src) (hdst : dst.elem = .float)
    (hsrc : src.elem = .float) (hlen : dst.len = src.len) (factor : Float32) :
    ∀ l ∈ (decay dst src factor).loops, s.Runs l := by
  intro l hl
  simp only [decay, loop, Block.loops, List.mem_singleton] at hl
  subst hl
  refine runs_levels hd hdst (Nat.le_of_eq hlen.symm) ?_ (by simp [Expr.bins, load]) rfl
  have hold : s.Placed src.len (place dst .counter none) :=
    Storage.placed_place hd (by simp [hdst]) (Index.fits_counter (Nat.le_of_eq hlen.symm))
  have hin : s.Placed src.len (place src .counter none) :=
    Storage.placed_place hs (by simp [hsrc]) (Index.fits_counter (Nat.le_refl _))
  simpa [Expr.places, load] using ⟨hold, hin⟩

/-- The places that a copy of colors touches exist. -/
theorem copyColors_placed (hd : s.Declares dst) (hs : s.Declares src) (hdst : dst.elem = .rgb)
    (hsrc : src.elem = .rgb) {count : Nat} {target origin : Index}
    (htarget : target.fits count dst.len = true) (horigin : origin.fits count src.len = true) :
    ∀ instr ∈ copyColors dst src target origin, ∀ place ∈ instr.places, s.Placed count place := by
  intro instr hinstr p hp
  obtain ⟨c, -, rfl⟩ := List.mem_map.1 hinstr
  simp only [store, load, Instr.places, Expr.places, List.mem_cons, List.not_mem_nil,
    or_false] at hp
  rcases hp with rfl | rfl
  · exact Storage.placed_place hd (by simp [hdst]) htarget
  · exact Storage.placed_place hs (by simp [hsrc]) horigin

/-- A copy of colors reads no bin of the spectrum. -/
theorem copyColors_bins (dst src : Buffer) (target origin : Index) :
    ∀ instr ∈ copyColors dst src target origin, instr.value.bins = [] := by
  intro instr hinstr
  obtain ⟨c, -, rfl⟩ := List.mem_map.1 hinstr
  rfl

/-- The loop of a color map runs. -/
theorem color_runs (hd : s.Declares dst) (hs : s.Declares src) (hdst : dst.elem = .rgb)
    (hsrc : src.elem = .float) (hlen : dst.len = src.len) (map : ColorMap) :
    ∀ l ∈ (color dst src map).loops, s.Runs l := by
  intro l hl
  simp only [color, loop, Block.loops, List.mem_singleton] at hl
  subst hl
  have hin : s.Placed src.len (place src .counter none) :=
    Storage.placed_place hs (by simp [hsrc]) (Index.fits_counter (Nat.le_refl _))
  have hout : ∀ c, s.Placed src.len (place dst .counter (some c)) := fun c =>
    Storage.placed_place hd (by simp [hdst]) (Index.fits_counter (Nat.le_of_eq hlen.symm))
  have hshare : ∀ c, (share map c).places = [] ∧ (share map c).bins = [] ∧
      (share map c).refs = ["v"] := by
    intro c
    cases map <;> exact ⟨rfl, rfl, rfl⟩
  constructor
  · simp [Channel.all, store, load, Instr.places, Expr.places, hshare, hin, hout]
  · simp [Channel.all, store, load, Instr.value, Expr.bins, hshare]
  · simp [Channel.all, store, load, Instr.Closed, Expr.refs, hshare]

/-- A copy of colors binds no local and reads none. -/
theorem copyColors_closed (dst src : Buffer) (target origin : Index)
    {rest : List (Instr Place String)} (h : Instr.Closed [] rest) :
    Instr.Closed [] (copyColors dst src target origin ++ rest) := by
  simpa [copyColors, Channel.all, store, load, Instr.Closed, Expr.refs] using h

/-- A loop that copies colors runs. -/
theorem copyColors_runs (hd : s.Declares dst) (hs : s.Declares src) (hdst : dst.elem = .rgb)
    (hsrc : src.elem = .rgb) {count : Nat} {target origin : Index}
    (htarget : target.fits count dst.len = true) (horigin : origin.fits count src.len = true) :
    s.Runs (count, copyColors dst src target origin) := by
  refine ⟨copyColors_placed hd hs hdst hsrc htarget horigin, ?_, ?_⟩
  · intro instr hinstr
    simp [copyColors_bins dst src _ _ instr hinstr]
  · rw [← List.append_nil (copyColors ..)]
    exact copyColors_closed dst src _ _ trivial

/-- The loop of a mirror runs. -/
theorem mirror_runs (hd : s.Declares dst) (hs : s.Declares src) (hdst : dst.elem = .rgb)
    (hsrc : src.elem = .rgb) (hlen : dst.len = src.len) (hlimit : src.len < Index.limit)
    (variant : MirrorVariant) : ∀ l ∈ (mirror dst src variant).loops, s.Runs l := by
  intro l hl
  cases variant with
  | fullReversal =>
    simp only [mirror, loop, Block.loops, List.mem_singleton] at hl
    subst hl
    have hrev : (Index.reverse (src.len - 1)).fits src.len src.len = true :=
      Index.fits_reverse (Nat.le_refl _)
    exact copyColors_runs hd hs hdst hsrc (Index.fits_counter (Nat.le_of_eq hlen.symm)) hrev
  | centerOrigin =>
    simp only [mirror, loop, Block.loops, List.mem_singleton] at hl
    subst hl
    have hback : (Index.reverse (src.len / 2 - 1)).fits (src.len / 2) dst.len = true :=
      Index.fits_reverse (by omega)
    have hforth : (Index.offset (src.len / 2)).fits (src.len / 2) dst.len = true :=
      Index.fits_offset (by omega) (by omega)
    have hin : Index.counter.fits (src.len / 2) src.len = true := Index.fits_counter (by omega)
    constructor
    · intro instr hinstr
      rcases List.mem_append.1 hinstr with h | h
      · exact copyColors_placed hd hs hdst hsrc hback hin instr h
      · exact copyColors_placed hd hs hdst hsrc hforth hin instr h
    · intro instr hinstr
      rcases List.mem_append.1 hinstr with h | h <;> simp [copyColors_bins dst src _ _ instr h]
    · rw [← List.append_nil (copyColors dst src (.offset _) _)]
      exact copyColors_closed dst src _ _ (copyColors_closed dst src _ _ trivial)

/-- The loop of a copy runs. -/
theorem copy_runs (hd : s.Declares dst) (hs : s.Declares src) (helem : dst.elem = src.elem)
    (hlen : dst.len = src.len) : ∀ l ∈ (copy dst src).loops, s.Runs l := by
  intro l hl
  have hfits := Index.fits_counter (Nat.le_of_eq hlen.symm)
  have hfits' := Index.fits_counter (Nat.le_refl src.len)
  unfold copy at hl
  split at hl
  · next hsrc =>
    simp only [loop, Block.loops, List.mem_singleton] at hl
    subst hl
    refine runs_levels hd (helem.trans hsrc) (Nat.le_of_eq hlen.symm) ?_ (by simp [load, Expr.bins])
      rfl
    simpa [load, Expr.places] using Storage.placed_place hs (by simp [hsrc]) hfits'
  · next hsrc =>
    simp only [loop, Block.loops, List.mem_singleton] at hl
    subst hl
    exact copyColors_runs hd hs (helem.trans hsrc) hsrc hfits hfits'

/-- The loops that end a branch run. -/
theorem join_runs (hd : s.Declares dst) (hs : s.Declares src) (helem : dst.elem = src.elem)
    (hlen : dst.len = src.len) : ∀ l ∈ (join dst src).loops, s.Runs l := by
  unfold join
  split
  · simp [Block.loops]
  · exact copy_runs hd hs helem hlen

end Kernel

/-- The buffer `cur` is declared and has shape `t`, if that is one. Its length is a word. -/
def Storage.Holds (s : Storage) (cur : Buffer) (t : Option Shape) : Prop :=
  ∀ sh ∈ t, s.Declares cur ∧ cur.elem = sh.elem ∧ cur.len = sh.len ∧ sh.len < Index.limit

/-- A buffer that has a shape. -/
theorem Storage.holds_some {s : Storage} {cur : Buffer} {elem : Elem} {len : Nat} :
    s.Holds cur (some ⟨elem, len⟩) ↔
      s.Declares cur ∧ cur.elem = elem ∧ cur.len = len ∧ len < Index.limit := by
  simp [Holds]

/-- A buffer keeps its shape while storage grows. -/
theorem Storage.Grows.holds {s t : Storage} (h : s.Grows t) {cur : Buffer} {sh : Option Shape}
    (hcur : s.Holds cur sh) : t.Holds cur sh := by
  intro x hx
  obtain ⟨hdecl, hrest⟩ := hcur x hx
  exact ⟨h.declares hdecl, hrest⟩

/-- A temporary that storage provides has the shape that was asked for. -/
theorem Storage.Provides.holds {s t : Storage} {elem : Elem} {len : Nat} {b : Buffer}
    (h : s.Provides elem len b t) (hlimit : len < Index.limit) : t.Holds b (some ⟨elem, len⟩) :=
  Storage.holds_some.2 ⟨h.declares, h.elem_eq, h.len_eq, hlimit⟩

namespace Kernel

variable {width : Nat} {s : Storage} {cur : Buffer} {t u : Option Shape}

/-- A stage that fits leaves a declared buffer of the shape that it promises, and the names of
buffers in order. -/
theorem stage_storage {st : Stage} (h : st.Fits width t u) (hwidth : width < Index.limit)
    (hs : s.Named) (hcur : s.Holds cur t) :
    (stage width s cur st).storage.Named ∧ s.Grows (stage width s cur st).storage ∧
      (stage width s cur st).storage.Holds (stage width s cur st).buffer u := by
  cases h with
  | idle => exact ⟨hs, .refl s, hcur⟩
  | @sample id bins _ hbins =>
    have hdst := (Storage.acquire_spec hs .float bins "").1
    refine ⟨hdst.named, hdst.grows, hdst.holds ?_⟩
    exact Nat.lt_of_le_of_lt hbins (by decide)
  | ramp =>
    have hdst := (Storage.acquire_spec hs .float width cur.symbol).1
    exact ⟨hdst.named, hdst.grows, hdst.holds hwidth⟩
  | @decay id factor len =>
    obtain ⟨-, -, rfl, hlimit⟩ := Storage.holds_some.1 hcur
    obtain ⟨symbol, -, hbuffer, hstorage, hnamed⟩ := Storage.slotFor_spec hs id cur.len
    refine ⟨hnamed, ?_, Storage.holds_some.2 ?_⟩
    · simp only [stage, hstorage]
      exact ⟨List.prefix_refl _, List.prefix_append _ _⟩
    · simp only [stage, hstorage, hbuffer, true_and]
      exact ⟨.inr ⟨rfl, ⟨symbol, id, cur.len⟩, by simp, rfl, rfl⟩, hlimit⟩
  | color =>
    obtain ⟨-, -, rfl, hlimit⟩ := Storage.holds_some.1 hcur
    have hdst := (Storage.acquire_spec hs .rgb cur.len "").1
    exact ⟨hdst.named, hdst.grows, hdst.holds hlimit⟩
  | mirror =>
    obtain ⟨-, -, rfl, hlimit⟩ := Storage.holds_some.1 hcur
    have hdst := (Storage.acquire_spec hs .rgb cur.len cur.symbol).1
    exact ⟨hdst.named, hdst.grows, hdst.holds hlimit⟩

/-- Stages that fit leave a declared buffer of the shape that they promise. -/
theorem stages_storage {ss : List Stage} (h : Stage.FitsAll width t ss u)
    (hwidth : width < Index.limit) (hs : s.Named) (hcur : s.Holds cur t) :
    (stages width s cur ss).storage.Named ∧ s.Grows (stages width s cur ss).storage ∧
      (stages width s cur ss).storage.Holds (stages width s cur ss).buffer u := by
  induction h generalizing s cur with
  | nil => exact ⟨hs, .refl s, hcur⟩
  | cons hfirst _ ih =>
    obtain ⟨hnamed, hgrows, hholds⟩ := stage_storage hfirst hwidth hs hcur
    obtain ⟨hnamed', hgrows', hholds'⟩ := ih hnamed hholds
    exact ⟨hnamed', hgrows.trans hgrows', hholds'⟩

/-- The loops of a stage that fits run. -/
theorem stage_runs {st : Stage} (h : st.Fits width t u) (hs : s.Named) (hcur : s.Holds cur t) :
    ∀ l ∈ (stage width s cur st).code.loops, (stage width s cur st).storage.Runs l := by
  cases h with
  | idle => simp [stage, note, Block.loops]
  | @sample id bins _ hbins =>
    have hdst := (Storage.acquire_spec hs .float bins "").1
    have hloops := sample_runs hdst.declares hdst.elem_eq (by rw [hdst.len_eq]; exact hbins)
    rw [hdst.len_eq] at hloops
    exact hloops
  | ramp =>
    have hdst := (Storage.acquire_spec hs .float width cur.symbol).1
    have hloops := ramp_runs hdst.declares hdst.elem_eq
    rw [hdst.len_eq] at hloops
    exact hloops
  | @decay id factor len =>
    obtain ⟨hdecl, helem, -, -⟩ := Storage.holds_some.1 hcur
    obtain ⟨symbol, -, hbuffer, hstorage, -⟩ := Storage.slotFor_spec hs id cur.len
    simp only [stage, hstorage, hbuffer]
    -- The slot is the buffer that is written, and the one that is read is still declared.
    have hgrows : s.Grows { s with slots := s.slots ++ [⟨symbol, id, cur.len⟩] } :=
      ⟨List.prefix_refl _, List.prefix_append _ _⟩
    have hdst : Storage.Declares { s with slots := s.slots ++ [⟨symbol, id, cur.len⟩] }
        ⟨symbol, .float, cur.len⟩ := .inr ⟨rfl, ⟨symbol, id, cur.len⟩, by simp, rfl, rfl⟩
    exact decay_runs hdst (hgrows.declares hdecl) rfl helem rfl factor
  | @color id map len =>
    obtain ⟨hdecl, helem, -, -⟩ := Storage.holds_some.1 hcur
    have hdst := (Storage.acquire_spec hs .rgb cur.len "").1
    exact color_runs hdst.declares (hdst.grows.declares hdecl) hdst.elem_eq helem hdst.len_eq map
  | @mirror id variant len =>
    obtain ⟨hdecl, helem, hlen, hlimit⟩ := Storage.holds_some.1 hcur
    have hdst := (Storage.acquire_spec hs .rgb cur.len cur.symbol).1
    exact mirror_runs hdst.declares (hdst.grows.declares hdecl) hdst.elem_eq helem hdst.len_eq
      (hlen ▸ hlimit) variant

/-- The loops of stages that fit run. -/
theorem stages_runs {ss : List Stage} (h : Stage.FitsAll width t ss u)
    (hwidth : width < Index.limit) (hs : s.Named) (hcur : s.Holds cur t) :
    ∀ l ∈ (stages width s cur ss).code.loops, (stages width s cur ss).storage.Runs l := by
  induction h generalizing s cur with
  | nil => simp [stages, Block.loops]
  | cons hfirst hrest ih =>
    obtain ⟨hnamed, -, hholds⟩ := stage_storage hfirst hwidth hs hcur
    obtain ⟨-, hgrows, -⟩ := stages_storage hrest hwidth hnamed hholds
    intro l hl
    simp only [stages, Block.loops_append, List.mem_append] at hl ⊢
    rcases hl with hl | hl
    · exact hgrows.runs (stage_runs hfirst hs hcur l hl)
    · exact ih hnamed hholds l hl

section Fork

variable {f : Fork} {sh : Shape}

/-- Where the buffers of a fork's two ways end up. -/
theorem fork_ways (hfirst : Stage.FitsAll width t f.primary (some sh))
    (hsecond : Stage.FitsAll width t f.fallback (some sh)) (hwidth : width < Index.limit)
    (hs : s.Named) (hcur : s.Holds cur t) :
    let primary := stages width s cur f.primary
    let fallback := stages width primary.storage cur f.fallback
    let dst := meeting fallback.storage primary.buffer
    primary.storage.Named ∧ s.Grows primary.storage ∧
      primary.storage.Grows fallback.storage ∧
      fallback.storage.Named ∧ fallback.storage.Holds fallback.buffer (some sh) ∧
      fallback.storage.Holds primary.buffer (some sh) ∧
      fallback.storage.Provides sh.elem sh.len dst.1 dst.2 := by
  intro primary fallback dst
  obtain ⟨hnamed, hgrows, hholds⟩ := stages_storage hfirst hwidth hs hcur
  obtain ⟨hnamed', hgrows', hholds'⟩ := stages_storage hsecond hwidth hnamed (hgrows.holds hcur)
  have hprimary := hgrows'.holds hholds
  refine ⟨hnamed, hgrows, hgrows', hnamed', hholds', hprimary, ?_⟩
  obtain ⟨hdecl, helem, hlen, -⟩ := Storage.holds_some.1 hprimary
  rw [← helem, ← hlen]
  exact Storage.meeting_spec hnamed' hdecl

/-- A fork that fits leaves a declared buffer of the shape that both ways promise. -/
theorem fork_storage (hfirst : Stage.FitsAll width t f.primary (some sh))
    (hsecond : Stage.FitsAll width t f.fallback (some sh)) (hwidth : width < Index.limit)
    (hs : s.Named) (hcur : s.Holds cur t) :
    (fork width s cur f).storage.Named ∧ s.Grows (fork width s cur f).storage ∧
      (fork width s cur f).storage.Holds (fork width s cur f).buffer (some sh) := by
  obtain ⟨-, hgrows, hgrows', -, hholds', -, hdst⟩ := fork_ways hfirst hsecond hwidth hs hcur
  exact ⟨hdst.named, (hgrows.trans hgrows').trans hdst.grows,
    hdst.holds (Storage.holds_some.1 hholds').2.2.2⟩

/-- The loops of a fork that fits run. -/
theorem fork_runs (hfirst : Stage.FitsAll width t f.primary (some sh))
    (hsecond : Stage.FitsAll width t f.fallback (some sh)) (hwidth : width < Index.limit)
    (hs : s.Named) (hcur : s.Holds cur t) :
    ∀ l ∈ (fork width s cur f).code.loops, (fork width s cur f).storage.Runs l := by
  obtain ⟨hnamed, hgrows, hgrows', -, hholds', hholds, hdst⟩ :=
    fork_ways hfirst hsecond hwidth hs hcur
  obtain ⟨hdecl, helem, hlen, -⟩ := Storage.holds_some.1 hholds
  obtain ⟨hdecl', helem', hlen', -⟩ := Storage.holds_some.1 hholds'
  intro l hl
  simp only [fork, note, Block.loops_append, Block.loops, List.nil_append, List.append_nil,
    List.mem_append] at hl ⊢
  rcases hl with (hl | hl) | (hl | hl)
  · exact (hgrows'.trans hdst.grows).runs (stages_runs hfirst hwidth hs hcur l hl)
  · exact join_runs hdst.declares (hdst.grows.declares hdecl) (hdst.elem_eq.trans helem.symm)
      (hdst.len_eq.trans hlen.symm) l hl
  · exact hdst.grows.runs (stages_runs hsecond hwidth hnamed (hgrows.holds hcur) l hl)
  · exact join_runs hdst.declares (hdst.grows.declares hdecl') (hdst.elem_eq.trans helem'.symm)
      (hdst.len_eq.trans hlen'.symm) l hl

end Fork

/-- The code of a plan as far as the output. -/
def main (width : Nat) (p : Plan) : Emitted :=
  let lead := stages width {} Buffer.empty p.lead
  match p.fork with
  | none => lead
  | some f =>
    let forked := fork width lead.storage lead.buffer f
    ⟨lead.code ++ forked.code, forked.buffer, forked.storage⟩

/-- The code of a plan ends with the output. -/
theorem plan_eq (width : Nat) (p : Plan) :
    plan width p = ⟨(main width p).code ++ note p.output NodeKind.pixelOutput.name
      ++ output (main width p).buffer width, (main width p).buffer, (main width p).storage⟩ := rfl

/-- Nothing is known of the buffer before any node. -/
theorem holds_none (s : Storage) (cur : Buffer) : s.Holds cur none := by simp [Storage.Holds]

/-- A plan that fits leaves as many colors as the strip has LEDs. -/
theorem main_storage {p : Plan} (h : p.Fits width none) (hwidth : width < Index.limit) :
    (main width p).storage.Named ∧
      (main width p).storage.Holds (main width p).buffer (some ⟨.rgb, width⟩) := by
  unfold Plan.Fits at h
  unfold main
  split at h
  · obtain ⟨hnamed, -, hholds⟩ := stages_storage h hwidth Storage.named_empty (holds_none _ _)
    exact ⟨hnamed, hholds⟩
  · obtain ⟨t, hlead, hfirst, hsecond⟩ := h
    obtain ⟨hnamed, -, hholds⟩ := stages_storage hlead hwidth Storage.named_empty (holds_none _ _)
    obtain ⟨hnamed', -, hholds'⟩ := fork_storage hfirst hsecond hwidth hnamed hholds
    exact ⟨hnamed', hholds'⟩

/-- All loops of a plan that fits run, as far as the output. -/
theorem main_runs {p : Plan} (h : p.Fits width none) (hwidth : width < Index.limit) :
    ∀ l ∈ (main width p).code.loops, (main width p).storage.Runs l := by
  unfold Plan.Fits at h
  unfold main
  split at h
  · exact stages_runs h hwidth Storage.named_empty (holds_none _ _)
  · obtain ⟨t, hlead, hfirst, hsecond⟩ := h
    obtain ⟨hnamed, -, hholds⟩ := stages_storage hlead hwidth Storage.named_empty (holds_none _ _)
    obtain ⟨-, hgrows, -⟩ := fork_storage hfirst hsecond hwidth hnamed hholds
    intro l hl
    simp only [Block.loops_append, List.mem_append] at hl
    rcases hl with hl | hl
    · exact hgrows.runs (stages_runs hlead hwidth Storage.named_empty (holds_none _ _) l hl)
    · exact fork_runs hfirst hsecond hwidth hnamed hholds l hl

end Kernel

end LedPattern
