import LedPattern.Instance.Memory
import LedPattern.Proofs.Emitting

/-!
# Running code by its names

What code does, said with the names that it uses: a `Store` gives a value to every element of every
buffer, to every local and to every pixel, and an instruction changes one of them. Nothing can go
wrong here. That the storage of an instance behaves like this is shown elsewhere.

The main tool is `applyLoop_fills`: a loop each of whose rounds fills some elements of one buffer
fills them all, and leaves everything else. It takes what one round does to what the loop does, and
each kernel has one lemma that follows from it.
-/

namespace LedPattern

/-- Values for the elements of all buffers, for all locals and for all pixels. An element is given
by the symbol of its buffer, its number and the place of the sample within it. -/
structure Store where
  cell : String → Nat → Nat → Float32
  locals : String → Float32
  pixel : Nat → Pixel

/-- The element's number for a value of the counter. -/
def Index.at (i : Nat) : Index → Nat
  | .counter => i
  | .reverse last => last - i
  | .offset base => base + i

/-- The sample within an element that a place means. -/
def Place.lane (p : Place) : Nat := (p.channel.map Channel.lane).getD 0

/-- The color of a pixel that a place means. -/
def Place.color (p : Place) : Channel := p.channel.getD .r

/-- The level of a bin of the spectrum, zero where there is none. -/
def Frame.level (f : Frame) (j : Nat) : Float32 :=
  match f.audio with
  | some audio => audio.spectrum.getD j 0
  | none => 0

/-- The energy of the audio signal, zero while there is none. -/
def Frame.energy (f : Frame) : Float32 :=
  match f.audio with
  | some audio => audio.energy
  | none => 0

/-- A frame whose audio signal, if there is one, has a level for every bin. -/
def Frame.Complete (f : Frame) : Prop := ∀ audio ∈ f.audio, audio.spectrum.size = spectrumBins

namespace Store

/-- The value at a place when the counter is `i`. -/
def read (σ : Store) (p : Place) (i : Nat) : Float32 :=
  match p.target with
  | .buffer symbol => σ.cell symbol (p.index.at i) p.lane
  | .out => ((σ.pixel (p.index.at i)).get p.color).toFloat32

/-- The store with another value at a place when the counter is `i`. -/
def write (σ : Store) (p : Place) (i : Nat) (value : Float32) : Store :=
  match p.target with
  | .buffer symbol =>
    { σ with cell := fun name j lane =>
        if name = symbol ∧ j = p.index.at i ∧ lane = p.lane then value else σ.cell name j lane }
  | .out =>
    { σ with pixel := fun j =>
        if j = p.index.at i then (σ.pixel j).set value.toUInt8 p.color else σ.pixel j }

/-- The store with another value for a local. -/
def bind (σ : Store) (name : String) (value : Float32) : Store :=
  { σ with locals := fun other => if other = name then value else σ.locals other }

end Store

/-- The value of an expression when the counter is `i`. -/
def Expr.value (f : Frame) (σ : Store) (i : Nat) : Expr Place String → Float32
  | .const v => v
  | .counter => Single.ofNat i
  | .load p => σ.read p i
  | .ref name => σ.locals name
  | .param field => f.params.get field
  | .spectrum index => f.level (index.at i)
  | .energy => f.energy
  | .binary op a b => op.apply (a.value f σ i) (b.value f σ i)
  | .clamp01 x => Single.clamp01 (x.value f σ i)
  | .floor x => Single.floor (x.value f σ i)

/-- The effect of an instruction when the counter is `i`. -/
def Instr.apply (f : Frame) (i : Nat) (σ : Store) : Instr Place String → Store
  | .bind name value => σ.bind name (value.value f σ i)
  | .store p value => σ.write p i (value.value f σ i)

/-- The effect of a loop's body when the counter is `i`. -/
def applyBody (f : Frame) (i : Nat) (body : List (Instr Place String)) (σ : Store) : Store :=
  body.foldl (fun σ instr => instr.apply f i σ) σ

/-- The effect of a number of rounds of a loop, the first with the counter `i`. -/
def applyLoop (f : Frame) (body : List (Instr Place String)) : (rounds i : Nat) → Store → Store
  | 0, _, σ => σ
  | rounds + 1, i, σ => applyLoop f body rounds (i + 1) (applyBody f i body σ)

/-- The effect of a sequence of statements. -/
def Block.apply (f : Frame) : Body → Store → Store
  | .done, σ => σ
  | .note _ rest, σ => rest.apply f σ
  | .loop count body rest, σ => rest.apply f (applyLoop f body count 0 σ)
  | .branch test yes no rest, σ =>
    rest.apply f (if test.holds f then yes.apply f σ else no.apply f σ)

/-- The effect of one sequence after another. -/
@[simp]
theorem Block.apply_append (f : Frame) (a b : Body) (σ : Store) :
    (a ++ b).apply f σ = b.apply f (a.apply f σ) := by
  show (a.append b).apply f σ = _
  induction a generalizing σ with
  | done => rfl
  | note _ _ ih => exact ih σ
  | loop count body _ ih => exact ih _
  | branch _ _ _ _ _ _ ih => exact ih _

/-- The first `lanes` samples of the elements `D` of buffer `dst` have the values `val` in `τ`, and
everything else but locals is as in `σ`. -/
structure Store.Fills (dst : String) (lanes : Nat) (val : Nat → Nat → Float32) (D : Nat → Prop)
    (σ τ : Store) : Prop where
  inside : ∀ j, D j → ∀ lane < lanes, τ.cell dst j lane = val j lane
  outside : ∀ j, ¬D j → τ.cell dst j = σ.cell dst j
  others : ∀ symbol ≠ dst, τ.cell symbol = σ.cell symbol
  pixel : τ.pixel = σ.pixel

namespace Store.Fills

variable {dst : String} {lanes : Nat} {val : Nat → Nat → Float32} {D E : Nat → Prop} {σ τ υ : Store}

/-- A store that stays as it is has no element filled. -/
theorem refl (dst : String) (lanes : Nat) (val : Nat → Nat → Float32) (σ : Store) :
    Fills dst lanes val (fun _ => False) σ σ where
  inside := fun _ h => absurd h id
  outside := fun _ _ => rfl
  others := fun _ _ => rfl
  pixel := rfl

/-- The elements that are filled may be said otherwise. -/
theorem congr (h : Fills dst lanes val D σ τ) (hDE : ∀ j, D j ↔ E j) :
    Fills dst lanes val E σ τ := by
  obtain rfl : D = E := funext fun j => propext (hDE j)
  exact h

/-- Some elements are filled, and then some more. -/
theorem trans (h : Fills dst lanes val D σ τ) (k : Fills dst lanes val E τ υ) :
    Fills dst lanes val (fun j => D j ∨ E j) σ υ where
  inside := by
    intro j hj lane hlane
    by_cases hE : E j
    · exact k.inside j hE lane hlane
    · rw [k.outside j hE, h.inside j (hj.resolve_right hE) lane hlane]
  outside := by
    intro j hj
    rw [not_or] at hj
    rw [k.outside j hj.2, h.outside j hj.1]
  others := fun symbol hne => (k.others symbol hne).trans (h.others symbol hne)
  pixel := k.pixel.trans h.pixel

end Store.Fills

/-- A loop fills what its rounds fill. In round `i` the elements `T i` are filled, given a store in
which the elements of the rounds before it have been. -/
theorem applyLoop_fills {f : Frame} {body : List (Instr Place String)} {dst : String} {lanes : Nat}
    {val : Nat → Nat → Float32} {T : Nat → Nat → Prop} {σ : Store} {n : Nat}
    (h : ∀ i < n, ∀ τ, Store.Fills dst lanes val (fun j => ∃ k < i, T k j) σ τ →
      Store.Fills dst lanes val (T i) τ (applyBody f i body τ)) :
    Store.Fills dst lanes val (fun j => ∃ k < n, T k j) σ (applyLoop f body n 0 σ) := by
  -- By induction on the rounds that are left.
  suffices hloop : ∀ rounds i τ, i + rounds = n →
      Store.Fills dst lanes val (fun j => ∃ k < i, T k j) σ τ →
      Store.Fills dst lanes val (fun j => ∃ k < n, T k j) σ (applyLoop f body rounds i τ) by
    refine hloop n 0 σ (Nat.zero_add n) ((Store.Fills.refl dst lanes val σ).congr fun j => ?_)
    simp
  intro rounds
  induction rounds with
  | zero =>
    intro i τ hi hτ
    obtain rfl : i = n := hi
    exact hτ
  | succ rounds ih =>
    intro i τ hi hτ
    refine ih (i + 1) _ (by omega) ((hτ.trans (h i (by omega) τ hτ)).congr fun j => ?_)
    constructor
    · rintro (⟨k, hk, hT⟩ | hT)
      · exact ⟨k, by omega, hT⟩
      · exact ⟨i, by omega, hT⟩
    · rintro ⟨k, hk, hT⟩
      rcases Nat.lt_succ_iff_lt_or_eq.1 hk with hlt | rfl
      · exact .inl ⟨k, hlt, hT⟩
      · exact .inr hT

/-- A loop whose round `i` fills element `i` fills as many elements as it has rounds. -/
theorem applyLoop_fills_lt {f : Frame} {body : List (Instr Place String)} {dst : String}
    {lanes : Nat} {val : Nat → Nat → Float32} {σ : Store} {n : Nat}
    (h : ∀ i < n, ∀ τ, Store.Fills dst lanes val (· < i) σ τ →
      Store.Fills dst lanes val (· = i) τ (applyBody f i body τ)) :
    Store.Fills dst lanes val (· < n) σ (applyLoop f body n 0 σ) := by
  have hlt : ∀ i j : Nat, (∃ k < i, j = k) ↔ j < i := fun i j =>
    ⟨fun ⟨k, hk, hj⟩ => hj ▸ hk, fun hj => ⟨j, hj, rfl⟩⟩
  refine (applyLoop_fills (T := fun i j => j = i) fun i hi τ hτ => ?_).congr (hlt n)
  exact h i hi τ (hτ.congr (hlt i))

/-- A sample within a color is that of one of its channels. -/
theorem Channel.exists_lane {lane : Nat} (h : lane < 3) : ∃ c : Channel, c.lane = lane := by
  match lane, h with
  | 0, _ => exact ⟨.r, rfl⟩
  | 1, _ => exact ⟨.g, rfl⟩
  | 2, _ => exact ⟨.b, rfl⟩

namespace Kernel

variable {f : Frame} {σ : Store} {dst src : Buffer} {val : Nat → Nat → Float32}

/-- The code of a loop is the loop. -/
@[simp]
theorem apply_loop (f : Frame) (count : Nat) (body : List (Instr Place String)) (σ : Store) :
    (loop count body).apply f σ = applyLoop f body count 0 σ := rfl

/-- A note has no effect. -/
@[simp]
theorem apply_note (f : Frame) (id what : String) (σ : Store) : (note id what).apply f σ = σ := rfl

/-- A store of a level fills one element. -/
theorem fills_level {i : Nat} {value : Expr Place String} (h : value.value f σ i = val i 0) :
    Store.Fills dst.symbol 1 val (· = i) σ
      (applyBody f i [store dst .counter none value] σ) where
  inside := by
    rintro j rfl lane hlane
    obtain rfl : lane = 0 := by omega
    simp [applyBody, Instr.apply, store, place, Store.write, Index.at, Place.lane, h]
  outside := by
    intro j hj
    funext lane
    simp [applyBody, Instr.apply, store, place, Store.write, Index.at, hj]
  others := by
    intro symbol hne
    funext j lane
    simp [applyBody, Instr.apply, store, place, Store.write, hne]
  pixel := rfl

/-- A store for each channel fills one element, if what is stored depends neither on the buffer that
is filled nor on what the stores before it did. -/
theorem fills_color {i j : Nat} {target : Index} (hj : target.at i = j)
    {value : Channel → Expr Place String}
    (h : ∀ c τ, (∀ symbol ≠ dst.symbol, τ.cell symbol = σ.cell symbol) → τ.locals = σ.locals →
      (value c).value f τ i = val j c.lane) :
    Store.Fills dst.symbol 3 val (· = j) σ
      (applyBody f i (Channel.all.map fun c => store dst target (some c) (value c)) σ) := by
  subst hj
  -- One store after another: what the next one computes is known, since it reads other buffers.
  let write (τ : Store) (c : Channel) : Store :=
    τ.write (place dst target (some c)) i (val (target.at i) c.lane)
  have hwrite : ∀ τ c, (∀ symbol ≠ dst.symbol, (write τ c).cell symbol = τ.cell symbol) ∧
      (write τ c).locals = τ.locals := fun τ c =>
    ⟨fun symbol hne => by funext j lane; simp [write, Store.write, place, hne], rfl⟩
  have hr := h .r σ (fun _ _ => rfl) rfl
  have hg := h .g (write σ .r) (hwrite σ .r).1 (hwrite σ .r).2
  have hb := h .b (write (write σ .r) .g)
    (fun symbol hne => ((hwrite _ .g).1 symbol hne).trans ((hwrite σ .r).1 symbol hne)) rfl
  have hbody : applyBody f i (Channel.all.map fun c => store dst target (some c) (value c)) σ =
      write (write (write σ .r) .g) .b := by
    simp only [applyBody, Channel.all, List.map_cons, List.map_nil, List.foldl_cons, List.foldl_nil,
      store, Instr.apply, hr]
    rw [show σ.write (place dst target (some Channel.r)) i (val (target.at i) Channel.r.lane) =
      write σ .r from rfl, hg, show (write σ .r).write (place dst target (some Channel.g)) i
      (val (target.at i) Channel.g.lane) = write (write σ .r) .g from rfl, hb]
  rw [hbody]
  constructor
  · rintro j rfl lane hlane
    obtain ⟨c, rfl⟩ := Channel.exists_lane hlane
    cases c <;> simp [write, Store.write, place, Place.lane, Channel.lane]
  · intro j hj
    funext lane
    simp [write, Store.write, place, hj]
  · intro symbol hne
    funext j lane
    simp [write, Store.write, place, hne]
  · rfl

/-- A sample fills a buffer from the spectrum, or with zeros. -/
theorem sample_fills (f : Frame) (σ : Store) (dst : Buffer) (bins : Nat) :
    Store.Fills dst.symbol 1
      (fun j _ => if f.audio.isSome then Single.clamp01 (f.level j * f.params.sensitivity) else 0)
      (· < bins) σ ((sample dst bins).apply f σ) := by
  by_cases haudio : f.audio.isSome = true
  · have htest : Test.audioPresent.holds f = true := haudio
    simp only [sample, Block.apply, htest, if_true, if_pos haudio]
    refine applyLoop_fills_lt fun i _ τ _ => fills_level ?_
    rfl
  · have htest : Test.audioPresent.holds f = false := Bool.eq_false_iff.2 haudio
    simp only [sample, Block.apply, htest, Bool.false_eq_true, if_false, if_neg haudio]
    refine applyLoop_fills_lt fun i _ τ _ => fills_level ?_
    rfl

/-- A ramp fills a buffer with rising levels. -/
theorem ramp_fills (f : Frame) (σ : Store) (dst : Buffer) (width : Nat) :
    Store.Fills dst.symbol 1
      (fun j _ => if width = 1 then 0 else Single.ofNat j / Single.ofNat (width - 1))
      (· < width) σ ((ramp dst width).apply f σ) := by
  simp only [ramp, apply_loop]
  refine applyLoop_fills_lt fun i _ τ _ => fills_level ?_
  split <;> rfl

/-- A decay moves every level of its buffer towards the input. -/
theorem decay_fills (f : Frame) (σ : Store) (factor : Float32) (hne : src.symbol ≠ dst.symbol) :
    Store.Fills dst.symbol 1
      (fun j _ => factor * σ.cell dst.symbol j 0 + (1 - factor) * σ.cell src.symbol j 0)
      (· < src.len) σ ((decay dst src factor).apply f σ) := by
  simp only [decay, apply_loop]
  refine applyLoop_fills_lt fun i _ τ hτ => fills_level ?_
  -- Neither the input nor the element that is about to change has changed before.
  have hold : τ.cell dst.symbol i = σ.cell dst.symbol i := hτ.outside i (Nat.lt_irrefl i)
  have hin : τ.cell src.symbol = σ.cell src.symbol := hτ.others src.symbol hne
  simp [Expr.value, BinOp.apply, load, place, Store.read, Index.at, Place.lane, hold, hin]

/-- The share of a channel in a level. -/
def shareOf (map : ColorMap) (c : Channel) (v : Float32) : Float32 :=
  match map, c with
  | .grayscale, _ => v
  | .tint r _ _, .r => v * r
  | .tint _ g _, .g => v * g
  | .tint _ _ b, .b => v * b

/-- The value of a share. -/
theorem value_share (map : ColorMap) (c : Channel) (τ : Store) (i : Nat) :
    (share map c).value f τ i = shareOf map c (τ.locals "v") := by
  cases map <;> cases c <;> rfl

/-- The sample at a lane of the color that a map makes of a level. -/
def laneShare (map : ColorMap) (v : Float32) : Nat → Float32
  | 0 => shareOf map .r v
  | 1 => shareOf map .g v
  | _ => shareOf map .b v

/-- Each color has its share at its lane. -/
theorem laneShare_lane (map : ColorMap) (v : Float32) (c : Channel) :
    laneShare map v c.lane = shareOf map c v := by
  cases c <;> rfl

/-- A color map fills a buffer with the colors of levels. -/
theorem color_fills (f : Frame) (σ : Store) (map : ColorMap) (hne : src.symbol ≠ dst.symbol) :
    Store.Fills dst.symbol 3
      (fun j lane => laneShare map (Single.clamp01 (σ.cell src.symbol j 0)) lane) (· < src.len) σ
      ((color dst src map).apply f σ) := by
  simp only [color, apply_loop]
  refine applyLoop_fills_lt fun i _ τ hτ => ?_
  have hin : τ.cell src.symbol = σ.cell src.symbol := hτ.others src.symbol hne
  -- The level is kept in a local, which the stores do not change.
  let kept : Store := τ.bind "v" (Single.clamp01 (σ.cell src.symbol i 0))
  have hbody : applyBody f i (.bind "v" (.clamp01 (load src .counter none)) ::
      Channel.all.map fun c => store dst .counter (some c) (share map c)) τ =
      applyBody f i (Channel.all.map fun c => store dst .counter (some c) (share map c)) kept := by
    simp [applyBody, Instr.apply, Expr.value, load, place, Store.read, Index.at, Place.lane, hin,
      kept]
  rw [hbody]
  have hkept : Store.Fills dst.symbol 3
      (fun j lane => laneShare map (Single.clamp01 (σ.cell src.symbol j 0)) lane) (· = i) kept
      (applyBody f i (Channel.all.map fun c => store dst .counter (some c) (share map c))
        kept) := by
    refine fills_color (show Index.counter.at i = i from rfl) fun c υ _ hlocals => ?_
    rw [value_share, hlocals, laneShare_lane]
    rfl
  exact ⟨hkept.inside, hkept.outside, hkept.others, hkept.pixel⟩

/-- A copy of colors fills one element. -/
theorem copyColors_fills (f : Frame) (τ : Store) (hne : src.symbol ≠ dst.symbol) {i j k : Nat}
    {target origin : Index} (hj : target.at i = j) (hk : origin.at i = k)
    (hval : ∀ lane < 3, val j lane = τ.cell src.symbol k lane) :
    Store.Fills dst.symbol 3 val (· = j) τ
      (applyBody f i (copyColors dst src target origin) τ) := by
  refine fills_color hj fun c υ hothers _ => ?_
  have hin : υ.cell src.symbol = τ.cell src.symbol := hothers src.symbol hne
  have hlane : c.lane < 3 := by cases c <;> decide
  simp [Expr.value, load, place, Store.read, Place.lane, hin, hval _ hlane, hk]

/-- A mirror fills a buffer with the colors of another one from end to end. -/
theorem reversal_fills (f : Frame) (σ : Store) (hne : src.symbol ≠ dst.symbol) :
    Store.Fills dst.symbol 3 (fun j lane => σ.cell src.symbol (src.len - 1 - j) lane)
      (· < src.len) σ ((mirror dst src .fullReversal).apply f σ) := by
  simp only [mirror, apply_loop]
  refine applyLoop_fills_lt fun i _ τ hτ => copyColors_fills f τ hne rfl rfl fun lane _ => ?_
  rw [hτ.others src.symbol hne]
  rfl

/-- A mirror about the middle fills a buffer with the first half of another one, once backwards and
once forwards. -/
theorem centering_fills (f : Frame) (σ : Store) (hne : src.symbol ≠ dst.symbol) :
    Store.Fills dst.symbol 3
      (fun j lane => σ.cell src.symbol
        (if j < src.len / 2 then src.len / 2 - 1 - j else j - src.len / 2) lane)
      (· < 2 * (src.len / 2)) σ ((mirror dst src .centerOrigin).apply f σ) := by
  simp only [mirror, apply_loop]
  generalize src.len / 2 = half
  refine (applyLoop_fills (T := fun i j => j = half - 1 - i ∨ j = half + i)
    fun i hi τ hτ => ?_).congr fun j => ?_
  · -- A round fills two elements, one on each side of the middle.
    have hback : Store.Fills dst.symbol 3
        (fun j lane => σ.cell src.symbol (if j < half then half - 1 - j else j - half) lane)
        (· = half - 1 - i) τ
        (applyBody f i (copyColors dst src (.reverse (half - 1)) .counter) τ) := by
      refine copyColors_fills f τ hne rfl rfl fun lane _ => ?_
      rw [hτ.others src.symbol hne, if_pos (by omega), show half - 1 - (half - 1 - i) = i by omega]
      rfl
    have hforth : ∀ υ, υ.cell src.symbol = σ.cell src.symbol → Store.Fills dst.symbol 3
        (fun j lane => σ.cell src.symbol (if j < half then half - 1 - j else j - half) lane)
        (· = half + i) υ (applyBody f i (copyColors dst src (.offset half) .counter) υ) := by
      intro υ hυ
      refine copyColors_fills f υ hne rfl rfl fun lane _ => ?_
      rw [hυ, if_neg (by omega), show half + i - half = i by omega]
      rfl
    have hboth := hback.trans (hforth _
      ((hback.others src.symbol hne).trans (hτ.others src.symbol hne)))
    rw [applyBody, List.foldl_append]
    exact hboth
  · constructor
    · rintro ⟨k, hk, rfl | rfl⟩ <;> omega
    · intro hj
      by_cases hlt : j < half
      · exact ⟨half - 1 - j, by omega, .inl (by omega)⟩
      · exact ⟨j - half, by omega, .inr (by omega)⟩

/-- A copy fills a buffer with the elements of another one. -/
theorem copy_fills (f : Frame) (σ : Store) (hne : src.symbol ≠ dst.symbol) :
    Store.Fills dst.symbol src.elem.lanes (fun j lane => σ.cell src.symbol j lane)
      (· < src.len) σ ((copy dst src).apply f σ) := by
  unfold copy
  split
  · next helem =>
    rw [helem, apply_loop]
    refine applyLoop_fills_lt fun i _ τ hτ => fills_level ?_
    simp [Expr.value, load, place, Store.read, Index.at, Place.lane, hτ.others src.symbol hne]
  · next helem =>
    rw [helem, apply_loop]
    refine applyLoop_fills_lt fun i _ τ hτ => copyColors_fills f τ hne rfl rfl fun lane _ => ?_
    rw [hτ.others src.symbol hne]
    rfl

/-- The byte of a color at a brightness. -/
def byteOf (brightness c : Float32) : UInt8 :=
  (Single.floor (Single.clamp01 c * Single.clamp01 brightness * 255 + 0.5)).toUInt8

/-- The value that the output stores for a color. -/
theorem value_output (f : Frame) (τ : Store) (i : Nat) (c : Channel)
    (h : τ.locals "bright" = Single.clamp01 f.params.brightness) :
    ((Expr.floor (.binary .add (.binary .mul (.binary .mul
      (.clamp01 (load src .counter (some c))) (.ref "bright")) (.const 255)) (.const 0.5)) :
      Expr Place String).value f τ i).toUInt8 =
    byteOf f.params.brightness (τ.cell src.symbol i c.lane) := by
  simp [Expr.value, BinOp.apply, load, place, Store.read, Index.at, Place.lane, byteOf, h]

/-- The pixel of an element that holds a color. -/
def pixelAt (f : Frame) (σ : Store) (symbol : String) (j : Nat) : Pixel :=
  ⟨byteOf f.params.brightness (σ.cell symbol j 0), byteOf f.params.brightness (σ.cell symbol j 1),
    byteOf f.params.brightness (σ.cell symbol j 2)⟩

/-- A round of the output sets a pixel. -/
theorem output_round (f : Frame) (σ : Store) (src : Buffer) (width i : Nat)
    (body : List (Instr Place String)) (hbody : output src width = loop width body) :
    (applyBody f i body σ).cell = σ.cell ∧ (applyBody f i body σ).pixel =
      fun j => if j = i then pixelAt f σ src.symbol i else σ.pixel j := by
  obtain rfl := (Block.loop.inj hbody).2.1
  constructor
  · rfl
  · funext j
    simp only [applyBody, Channel.all, List.map_cons, List.map_nil, List.foldl_cons, List.foldl_nil,
      Instr.apply, Store.write, Index.at, Place.color, Option.getD_some]
    by_cases hj : j = i
    · simp only [hj, if_true]
      rw [value_output f _ i .r rfl, value_output f _ i .g rfl, value_output f _ i .b rfl]
      rfl
    · simp only [hj, if_false]
      rfl

/-- The output sets every pixel of the strip, and leaves the buffers. -/
theorem output_apply (f : Frame) (σ : Store) (src : Buffer) (width : Nat) :
    ((output src width).apply f σ).cell = σ.cell ∧
      ∀ j < width, ((output src width).apply f σ).pixel j = pixelAt f σ src.symbol j := by
  obtain ⟨body, hbody⟩ : ∃ body, output src width = loop width body := ⟨_, rfl⟩
  rw [hbody, apply_loop]
  -- By induction on the rounds that are left, with the pixels before them set.
  suffices hloop : ∀ rounds i τ, i + rounds = width → τ.cell = σ.cell →
      (∀ j < i, τ.pixel j = pixelAt f σ src.symbol j) →
      (applyLoop f body rounds i τ).cell = σ.cell ∧
        ∀ j < width, (applyLoop f body rounds i τ).pixel j = pixelAt f σ src.symbol j from
    hloop width 0 σ (Nat.zero_add _) rfl (by simp)
  intro rounds
  induction rounds with
  | zero =>
    intro i τ hi hcell hpixel
    obtain rfl : i = width := hi
    exact ⟨hcell, hpixel⟩
  | succ rounds ih =>
    intro i τ hi hcell hpixel
    obtain ⟨hcell', hpixel'⟩ := output_round f τ src width i body hbody
    refine ih (i + 1) _ (by omega) (hcell'.trans hcell) fun j hj => ?_
    rw [hpixel']
    dsimp only
    split
    · next heq =>
      rw [heq, pixelAt, hcell]
      rfl
    · next hne => exact hpixel j (by omega)

end Kernel

end LedPattern
