import LedPattern.Proofs.Binding
import LedPattern.Proofs.NamedRun

/-!
# Memory behaves as a store

The memory of an instance models a store of values by name (`Memory.Models`): every buffer of the
program, every local and every pixel is where names lead to, and has the value that the store
gives. Code with addresses, run on such memory, does what the code with names does to the store
(`body_simulates`), or ends because it wants an audio signal that is not there. No other fault can
occur if the program passes the check of its places.

The proof goes up from places (`Models.read`, `Models.write`) to expressions, instructions, loops
and sequences of statements. `Simulates` is the relation between a run and the store that it should
lead to, and `Simulates.bind` composes runs.
-/

namespace LedPattern

/-- An index that fits gives an element. -/
theorem Index.resolve_of_fits {index : Index} {count len i : Nat}
    (h : index.fits count len = true) (hi : i < count) :
    index.resolve i = some (index.at i) ∧ index.at i < len := by
  unfold Index.fits at h
  rw [if_neg (by omega)] at h
  cases index with
  | counter =>
    simp only [decide_eq_true_eq] at h
    refine ⟨rfl, ?_⟩
    dsimp only [Index.at]
    omega
  | reverse last =>
    simp only [Bool.and_eq_true, decide_eq_true_eq] at h
    refine ⟨if_pos (by omega), ?_⟩
    dsimp only [Index.at]
    omega
  | offset base =>
    simp only [Bool.and_eq_true, decide_eq_true_eq] at h
    refine ⟨if_pos (by omega), ?_⟩
    dsimp only [Index.at]
    omega

/-- Elements have samples. -/
theorem Elem.lanes_pos (e : Elem) : 0 < e.lanes := by
  cases e <;> decide

/-- A color has a sample in an element of colors. -/
theorem Channel.lane_lt (c : Channel) : c.lane < Elem.rgb.lanes := by
  cases c <;> decide

/-- Different samples have different numbers within a buffer. -/
theorem sample_unique {lanes j k lane other : Nat} (hlane : lane < lanes) (hother : other < lanes)
    (h : j * lanes + lane = k * lanes + other) : j = k ∧ lane = other := by
  have hdiv : (j * lanes + lane) / lanes = (k * lanes + other) / lanes := by rw [h]
  rw [Nat.mul_comm j, Nat.mul_comm k, Nat.mul_add_div (by omega), Nat.mul_add_div (by omega),
    Nat.div_eq_of_lt hlane, Nat.div_eq_of_lt hother] at hdiv
  obtain rfl : j = k := by omega
  exact ⟨rfl, by omega⟩

/-- The first locals keep their numbers when more are bound. -/
theorem getElem?_of_extended {xs names : List String} (h : xs <+: names) {k : Nat} {name : String}
    (hk : xs[k]? = some name) : names[k]? = some name := by
  obtain ⟨hlt, rfl⟩ := List.getElem?_eq_some_iff.1 hk
  exact List.prefix_iff_getElem?.1 h k hlt

namespace Memory

/-- The samples of a buffer. -/
def samples (m : Memory) : Holder → Option (Array Float32)
  | .temp k => m.temps[k]?.map NamedBuffer.data
  | .slot k => m.arena[k]?.map NamedBuffer.data

/-- The memory with one sample of a buffer changed. -/
def put (m : Memory) (holder : Holder) (at' : Nat) (value : Float32) : Memory :=
  match holder with
  | .temp k => { m with temps := setSample m.temps k at' value }
  | .slot k => { m with arena := setSample m.arena k at' value }

/-- The buffers after one sample has changed. -/
theorem getElem?_setSample (bs : Array NamedBuffer) (n k at' : Nat) (value : Float32) :
    (setSample bs n at' value)[k]?.map NamedBuffer.data =
      if k = n then bs[k]?.map fun b => b.data.setIfInBounds at' value
      else bs[k]?.map NamedBuffer.data := by
  unfold setSample
  rw [Array.getElem?_modify]
  by_cases h : n = k
  · subst h
    simp [Function.comp_def]
  · simp [h, Ne.symm h]

/-- The names of buffers stay when a sample changes. -/
theorem map_name_setSample (bs : Array NamedBuffer) (n at' : Nat) (value : Float32) :
    (setSample bs n at' value).map NamedBuffer.name = bs.map NamedBuffer.name := by
  refine Array.ext_getElem? fun k => ?_
  simp only [setSample, Array.getElem?_map, Array.getElem?_modify]
  by_cases h : n = k
  · subst h
    simp [Function.comp_def]
  · simp [h]

/-- One buffer has the new sample, and the others are as before. -/
theorem samples_put (m : Memory) (holder other : Holder) (at' : Nat) (value : Float32) :
    (m.put holder at' value).samples other =
      if other = holder then (m.samples other).map fun data => data.setIfInBounds at' value
      else m.samples other := by
  cases holder <;> cases other <;>
    simp only [put, samples, getElem?_setSample, Holder.temp.injEq, Holder.slot.injEq, reduceCtorEq,
      if_false, Option.map_map, Function.comp_def]

/-- The memory has the storage of a program in which the locals are `names`, and in it the values
of a store. -/
structure Models (p : Program) (names : List String) (m : Memory) (σ : Store) : Prop where
  /-- Every buffer is there, with all its samples. -/
  buffers : ∀ {b : Buffer} {holder : Holder}, p.Assigns b holder → ∃ data,
    m.samples holder = some data ∧ data.size = b.len * b.elem.lanes ∧
      ∀ j < b.len, ∀ lane < b.elem.lanes,
        data[j * b.elem.lanes + lane]? = some (σ.cell b.symbol j lane)
  /-- The states belong to the owners of the slots. -/
  owners : m.arena.map NamedBuffer.name = (p.slots.map Slot.owner).toArray
  /-- There are as many locals as names. -/
  locals_size : m.locals.size = names.length
  /-- A local has the value of its name. -/
  locals : ∀ {k : Nat} {name : String}, names[k]? = some name →
    m.locals[k]? = some (σ.locals name)
  /-- There is a pixel for every LED. -/
  pixels_size : m.pixels.size = p.frameWidth
  /-- The pixels have their colors. -/
  pixels : ∀ j < p.frameWidth, m.pixels[j]? = some (σ.pixel j)

/-- An address means an element if its index gives one that exists. -/
theorem element_eq {m : Memory} {region : Region} {index : Index} {i j len : Nat} {name : String}
    (hextent : m.extent region = .ok (name, len)) (hindex : index.resolve i = some j)
    (hj : j < len) : m.element ⟨region, index⟩ i = .ok j := by
  simp [element, hindex, hextent, hj, bind, Except.bind]

namespace Models

variable {p : Program} {names : List String} {m : Memory} {σ : Store}

/-- The length of a buffer is found from the number of its samples. -/
theorem extent_region (h : m.Models p names σ) {b : Buffer} {holder : Holder}
    (hb : p.Assigns b holder) (lane : Nat) :
    ∃ name, m.extent (holder.region b.elem lane) = .ok (name, b.len) := by
  obtain ⟨data, hdata, hsize, -⟩ := h.buffers hb
  cases hb with
  | temp =>
    obtain ⟨nb, hnb, rfl⟩ := Option.map_eq_some_iff.1 hdata
    refine ⟨nb.name, ?_⟩
    simp only [Holder.region, extent, hnb, hsize, Nat.mul_div_cancel _ (Elem.lanes_pos _)]
  | slot =>
    obtain ⟨nb, hnb, rfl⟩ := Option.map_eq_some_iff.1 hdata
    refine ⟨nb.name, ?_⟩
    simp only [Holder.region, extent, hnb, hsize, Elem.lanes, Nat.mul_one]

/-- A place of the pixels that fits means an element, which exists. -/
theorem element_pixel (h : m.Models p names σ) {index : Index} {c : Channel} {count i : Nat}
    (hfits : p.placeFits count ⟨.out, index, some c⟩ = true) (hi : i < count) :
    m.element ⟨.pixel c, index⟩ i = .ok (index.at i) ∧ index.at i < p.frameWidth := by
  have hframe : index.fits count p.frameWidth = true := hfits
  obtain ⟨hindex, hlt⟩ := Index.resolve_of_fits hframe hi
  have hextent : m.extent (.pixel c) = .ok ("out", p.frameWidth) := by
    rw [extent, h.pixels_size]
  exact ⟨element_eq hextent hindex hlt, hlt⟩

/-- A place of a buffer that fits means an element, which exists. -/
theorem element_region (h : m.Models p names σ) (hp : p.Distinct) {b : Buffer} {holder : Holder}
    (hb : p.Assigns b holder) {index : Index} {c : Option Channel} {count i : Nat}
    (hfits : p.placeFits count ⟨.buffer b.symbol, index, c⟩ = true) (hi : i < count) (lane : Nat) :
    m.element ⟨holder.region b.elem lane, index⟩ i = .ok (index.at i) ∧ index.at i < b.len := by
  rw [Program.placeFits, Program.targetLength?_eq hp.symbols hb.declares] at hfits
  obtain ⟨hindex, hlt⟩ := Index.resolve_of_fits hfits hi
  obtain ⟨name, hextent⟩ := h.extent_region hb lane
  exact ⟨element_eq hextent hindex hlt, hlt⟩

/-- A sample of a buffer has the value of the store. -/
theorem get_region (h : m.Models p names σ) {b : Buffer} {holder : Holder}
    (hb : p.Assigns b holder) {j lane : Nat} (hj : j < b.len) (hlane : lane < b.elem.lanes) :
    m.get (holder.region b.elem lane) j = .ok (σ.cell b.symbol j lane) := by
  obtain ⟨data, hdata, -, hvalue⟩ := h.buffers hb
  have hsample := hvalue j hj lane hlane
  cases hb with
  | temp =>
    obtain ⟨nb, hnb, rfl⟩ := Option.map_eq_some_iff.1 hdata
    simp only [Holder.region, get, hnb, Option.bind_some, hsample]
  | slot =>
    obtain ⟨nb, hnb, rfl⟩ := Option.map_eq_some_iff.1 hdata
    obtain rfl : lane = 0 := Nat.lt_one_iff.1 hlane
    simp only [Elem.lanes, Nat.mul_one, Nat.add_zero] at hsample
    simp only [Holder.region, get, hnb, Option.bind_some, hsample]

/-- A sample of a buffer can be changed. -/
theorem set_region (h : m.Models p names σ) {b : Buffer} {holder : Holder}
    (hb : p.Assigns b holder) {j lane : Nat} (hj : j < b.len) (hlane : lane < b.elem.lanes)
    (value : Float32) : m.set (holder.region b.elem lane) j value =
      .ok (m.put holder (j * b.elem.lanes + lane) value) := by
  obtain ⟨data, hdata, -, hvalue⟩ := h.buffers hb
  obtain ⟨hlt, -⟩ := Array.getElem?_eq_some_iff.1 (hvalue j hj lane hlane)
  cases hb with
  | temp =>
    obtain ⟨nb, hnb, rfl⟩ := Option.map_eq_some_iff.1 hdata
    simp only [Holder.region, set, hasSample, hnb, hlt, decide_true, if_true, put]
  | slot =>
    obtain ⟨nb, hnb, rfl⟩ := Option.map_eq_some_iff.1 hdata
    obtain rfl : lane = 0 := Nat.lt_one_iff.1 hlane
    simp only [Elem.lanes, Nat.mul_one, Nat.add_zero] at hlt
    simp only [Holder.region, set, hasSample, hnb, hlt, decide_true, if_true, put, Elem.lanes,
      Nat.mul_one, Nat.add_zero]

/-- A change of a sample is a change in the store. -/
theorem put (h : m.Models p names σ) (hp : p.Distinct) {b : Buffer} {holder : Holder}
    (hb : p.Assigns b holder) (place : Place) (htarget : place.target = .buffer b.symbol)
    (hlane : place.lane < b.elem.lanes) {i : Nat} (hj : place.index.at i < b.len)
    (value : Float32) : (m.put holder (place.index.at i * b.elem.lanes + place.lane) value).Models
      p names (σ.write place i value) := by
  have hwrite : σ.write place i value = { σ with
      cell := fun name j lane =>
        if name = b.symbol ∧ j = place.index.at i ∧ lane = place.lane then value
        else σ.cell name j lane } := by
    simp only [Store.write, htarget]
  rw [hwrite]
  refine ⟨fun {c keeper} hc => ?_, ?_, ?_, ?_, ?_, ?_⟩
  · obtain ⟨data, hdata, hsize, hvalue⟩ := h.buffers hc
    by_cases hkeeper : keeper = holder
    · subst hkeeper
      obtain rfl := hc.buffer_unique hb
      refine ⟨_, by rw [samples_put, if_pos rfl, hdata]; rfl, by simpa using hsize, ?_⟩
      intro j hj' lane hlane'
      rw [Array.getElem?_setIfInBounds]
      -- Only one pair of an element and a sample leads to the sample that changes.
      by_cases hsame : place.index.at i * c.elem.lanes + place.lane = j * c.elem.lanes + lane
      · obtain ⟨rfl, rfl⟩ := sample_unique hlane hlane' hsame
        obtain ⟨hlt, -⟩ := Array.getElem?_eq_some_iff.1 (hvalue _ hj' _ hlane')
        simp [hlt]
      · have hother : ¬(j = place.index.at i ∧ lane = place.lane) := by
          rintro ⟨rfl, rfl⟩
          exact hsame rfl
        simp only [hsame, if_false, true_and, hother]
        exact hvalue j hj' lane hlane'
    · refine ⟨data, by rw [samples_put, if_neg hkeeper, hdata], hsize, ?_⟩
      have hsymbol : c.symbol ≠ b.symbol := fun heq => hkeeper (hp.assigns_unique hc hb heq).2
      simpa only [hsymbol, false_and, if_false] using hvalue
  · cases holder with
    | temp => exact h.owners
    | slot => exact (map_name_setSample _ _ _ _).trans h.owners
  · cases holder <;> exact h.locals_size
  · cases holder <;> exact h.locals
  · cases holder <;> exact h.pixels_size
  · cases holder <;> exact h.pixels

/-- A place that fits can be read, and has the value of the store. -/
theorem read_eq (h : m.Models p names σ) (hp : p.Distinct) {place : Place} {a : Address}
    (ha : p.Finds place a) {count i : Nat} (hfits : p.placeFits count place = true)
    (hi : i < count) : m.read a i = .ok (σ.read place i) := by
  cases ha with
  | @out index c =>
    obtain ⟨helement, hlt⟩ := h.element_pixel hfits hi
    simp [read, helement, get, h.pixels _ hlt, Store.read, Place.color, bind, Except.bind]
  | @level symbol len holder index hb =>
    obtain ⟨helement, hlt⟩ := h.element_region hp hb hfits hi 0
    have hget := h.get_region hb hlt Nat.one_pos
    simp [read, helement, hget, Store.read, Place.lane, bind, Except.bind]
  | @color symbol len holder index c hb =>
    obtain ⟨helement, hlt⟩ := h.element_region hp hb hfits hi c.lane
    have hget := h.get_region hb hlt c.lane_lt
    simp [read, helement, hget, Store.read, Place.lane, bind, Except.bind]

/-- A place that fits can be written, which writes it in the store. -/
theorem write_eq (h : m.Models p names σ) (hp : p.Distinct) {place : Place} {a : Address}
    (ha : p.Finds place a) {count i : Nat} (hfits : p.placeFits count place = true)
    (hi : i < count) (value : Float32) :
    ∃ m', m.write a i value = .ok m' ∧ m'.Models p names (σ.write place i value) := by
  cases ha with
  | @out index c =>
    obtain ⟨helement, hlt⟩ := h.element_pixel hfits hi
    have hsize : index.at i < m.pixels.size := by
      rw [h.pixels_size]
      exact hlt
    refine ⟨{ m with pixels := m.pixels.modify (index.at i) fun q => q.set value.toUInt8 c }, ?_,
      h.buffers, h.owners, h.locals_size, h.locals, ?_, fun j hj => ?_⟩
    · simp [write, helement, set, hsize]
    · simpa using h.pixels_size
    · simp only [Array.getElem?_modify, h.pixels j hj, Store.write, Place.color, Option.getD_some]
      by_cases heq : index.at i = j
      · subst heq
        simp
      · simp [heq, Ne.symm heq]
  | @level symbol len holder index hb =>
    obtain ⟨helement, hlt⟩ := h.element_region hp hb hfits hi 0
    refine ⟨_, ?_, h.put hp hb ⟨.buffer symbol, index, none⟩ rfl Nat.one_pos hlt value⟩
    rw [write, helement]
    exact h.set_region hb hlt Nat.one_pos value
  | @color symbol len holder index c hb =>
    obtain ⟨helement, hlt⟩ := h.element_region hp hb hfits hi c.lane
    refine ⟨_, ?_, h.put hp hb ⟨.buffer symbol, index, some c⟩ rfl c.lane_lt hlt value⟩
    rw [write, helement]
    exact h.set_region hb hlt c.lane_lt value

/-- A local that has a number can be read, and has the value of the store. -/
theorem getLocal_eq (h : m.Models p names σ) {k : Nat} {name : String}
    (hk : names[k]? = some name) : m.getLocal k = .ok (σ.locals name) := by
  rw [getLocal, h.locals hk]

/-- A local that has a number can be bound, which binds it in the store. -/
theorem setLocal_eq (h : m.Models p names σ) (hnames : names.Nodup) {k : Nat} {name : String}
    (hk : names[k]? = some name) (value : Float32) :
    ∃ m', m.setLocal k value = .ok m' ∧ m'.Models p names (σ.bind name value) := by
  have hsize : k < m.locals.size := by
    rw [h.locals_size]
    exact (List.getElem?_eq_some_iff.1 hk).1
  refine ⟨{ m with locals := m.locals.setIfInBounds k value }, if_pos hsize, h.buffers, h.owners,
    by simpa using h.locals_size, fun {j other} hj => ?_, h.pixels_size, h.pixels⟩
  rw [Array.getElem?_setIfInBounds]
  by_cases heq : k = j
  · subst heq
    obtain rfl := Option.some.inj (hk.symm.trans hj)
    simp [hsize, Store.bind]
  · have hne : other ≠ name := by
      rintro rfl
      have hlt := (List.getElem?_eq_some_iff.1 hk).1
      exact heq ((List.getElem?_inj hlt hnames).1 (hk.trans hj.symm))
    rw [if_neg heq, h.locals hj]
    simp [Store.bind, hne]

end Models

end Memory

/-- A bin that fits can be read while there is an audio signal. -/
theorem Frame.bin_eq {f : Frame} (hf : f.Complete) {index : Index} {count i : Nat}
    (hfits : index.fits count spectrumBins = true) (hi : i < count) :
    f.bin index i =
      if f.audio.isNone then .error .audioMissing else .ok (f.level (index.at i)) := by
  obtain ⟨hindex, hlt⟩ := Index.resolve_of_fits hfits hi
  unfold Frame.bin Frame.level
  rcases haudio : f.audio with _ | audio
  · rfl
  · have hsize : index.at i < audio.spectrum.size := by
      rw [hf audio haudio]
      exact hlt
    simp [hindex, hsize]

/-- A test that holds has heard an audio signal. -/
theorem Test.audio_of_holds {f : Frame} {test : Test} (h : test.holds f = true) :
    f.audio ≠ none := by
  intro haudio
  cases test <;> simp [Test.holds, haudio] at h

/-- A run that leads to memory with the values of `σ`, or that ends for want of an audio signal.
That happens only if `hears` holds, and it leaves memory of the right form. -/
inductive Simulates (p : Program) (names : List String) (f : Frame) (hears : Prop) (σ : Store) :
    Except Halt Memory → Prop where
  | ok {m : Memory} (h : m.Models p names σ) : Simulates p names f hears σ (.ok m)
  | silent {m : Memory} {τ : Store} (haudio : f.audio = none) (hhears : hears)
      (h : m.Models p names τ) : Simulates p names f hears σ (.error ⟨.audioMissing, m⟩)

/-- A loop's body runs one instruction after another. -/
theorem runBody_cons (f : Frame) (i : Nat) (first : Instr Address Nat)
    (rest : List (Instr Address Nat)) (m : Memory) :
    runBody f i (first :: rest) m = first.run f i m >>= runBody f i rest := by
  rw [runBody]
  cases first.run f i m <;> rfl

/-- A loop runs one round after another. -/
theorem runLoop_succ (f : Frame) (body : List (Instr Address Nat)) (rounds i : Nat) (m : Memory) :
    runLoop f body (rounds + 1) i m = runBody f i body m >>= runLoop f body rounds (i + 1) := by
  rw [runLoop]
  cases runBody f i body m <;> rfl

section Simulation

variable {p : Program} {names : List String} {f : Frame} {m : Memory} {σ τ : Store} {s t : Scope}
  {hears : Prop}

/-- A run that may hear may hear more. -/
theorem Simulates.mono {r : Except Halt Memory} {more : Prop} (h : Simulates p names f hears σ r)
    (himp : f.audio = none → hears → more) : Simulates p names f more σ r := by
  cases h with
  | ok h => exact .ok h
  | silent haudio hhears h => exact .silent haudio (himp haudio hhears) h

/-- One run after another simulates what the second leaves, if both simulate. -/
theorem Simulates.bind {r : Except Halt Memory} {k : Memory → Except Halt Memory}
    (h : Simulates p names f hears σ r)
    (hk : ∀ m, m.Models p names σ → Simulates p names f hears τ (k m)) :
    Simulates p names f hears τ (r >>= k) := by
  cases h with
  | ok h => exact hk _ h
  | silent haudio hhears h => exact .silent haudio hhears h

/-- A run that first finds a value succeeds if the value is found, and else has done nothing. -/
theorem Simulates.of_value (h : m.Models p names σ) {e : Bool} {r : Except Fault Float32}
    {v : Float32} {run : Except Halt Memory} {m' : Memory} (hm' : m'.Models p names τ)
    (hr : r = if e && f.audio.isNone then .error .audioMissing else .ok v)
    (hok : r = .ok v → run = .ok m')
    (herror : r = .error .audioMissing → run = .error ⟨.audioMissing, m⟩) :
    Simulates p names f (e = true) τ run := by
  by_cases hsilent : e && f.audio.isNone
  · rw [if_pos hsilent] at hr
    rw [Bool.and_eq_true, Option.isNone_iff_eq_none] at hsilent
    rw [herror hr]
    exact .silent hsilent.2 hsilent.1 h
  · rw [if_neg hsilent] at hr
    rw [hok hr]
    exact .ok hm'

/-- An expression whose places fit has the value that the store gives it, unless it wants an audio
signal that is not there. -/
theorem Memory.Models.eval_eq (h : m.Models p names σ) (hp : p.Distinct) (hf : f.Complete)
    (hs : s.buffers = p.layout.1) (hlocals : s.locals <+: names) {count i : Nat} (hi : i < count)
    {e : Expr Place String} {x : Expr Address Nat} (hx : s.expr e = .ok x)
    (hplaces : ∀ place ∈ e.places, p.placeFits count place = true)
    (hbins : ∀ index ∈ e.bins, index.fits count spectrumBins = true) :
    x.eval f m i =
      if e.hears && f.audio.isNone then .error .audioMissing else .ok (e.value f σ i) := by
  induction e generalizing x with
  | const | counter | param =>
    cases hx
    rfl
  | load place =>
    obtain ⟨a, ha, hx⟩ := Except.bind_eq_ok_iff.1 hx
    cases hx
    exact h.read_eq hp ((Scope.address_eq_ok_iff hp hs).1 ha) (hplaces place List.mem_cons_self) hi
  | ref name =>
    obtain ⟨k, hk, hx⟩ := Except.bind_eq_ok_iff.1 hx
    cases hx
    have hname := Scope.getElem?_of_number hk
    exact h.getLocal_eq (getElem?_of_extended hlocals hname)
  | spectrum index =>
    cases hx
    rw [Expr.eval, Frame.bin_eq hf (hbins index List.mem_cons_self) hi]
    simp [Expr.hears, Expr.value]
  | energy =>
    cases hx
    rcases haudio : f.audio with _ | audio <;>
      simp [Expr.eval, Expr.hears, Expr.value, Frame.energy, haudio]
  | binary op a b iha ihb =>
    obtain ⟨y, hy, hx⟩ := Except.bind_eq_ok_iff.1 hx
    obtain ⟨z, hz, hx⟩ := Except.bind_eq_ok_iff.1 hx
    cases hx
    simp only [Expr.places, Expr.bins, List.mem_append, or_imp, forall_and] at hplaces hbins
    rw [Expr.eval, iha hy hplaces.1 hbins.1, ihb hz hplaces.2 hbins.2, Expr.hears, Expr.value]
    -- Both operands fail for the same reason, so their order does not show.
    cases a.hears <;> cases b.hears <;> cases f.audio.isNone <;> rfl
  | clamp01 e ih | floor e ih =>
    obtain ⟨y, hy, hx⟩ := Except.bind_eq_ok_iff.1 hx
    cases hx
    rw [Expr.eval, ih hy hplaces hbins, Expr.hears, Expr.value]
    cases e.hears <;> cases f.audio.isNone <;> rfl

/-- An instruction whose places fit does what it does to the store. -/
theorem instr_simulates (h : m.Models p names σ) (hp : p.Distinct) (hnames : names.Nodup)
    (hf : f.Complete) (hs : s.buffers = p.layout.1) (hlocals : t.locals <+: names) {count i : Nat}
    (hi : i < count) {instr : Instr Place String} {code : Instr Address Nat}
    (hcode : s.instr instr = .ok (t, code)) (hfits : p.instrFits count instr = true) :
    Simulates p names f (instr.value.hears = true) (instr.apply f i σ) (code.run f i m) := by
  -- The value is found with the locals before the instruction, which are the first of `names`.
  have hbefore := (Scope.instr_below hcode).locals.trans hlocals
  simp only [Program.instrFits, Bool.and_eq_true, List.all_eq_true] at hfits
  obtain ⟨hplaces, hbins⟩ := hfits
  cases instr with
  | bind name value =>
    obtain ⟨x, hx, hcode⟩ := Except.bind_eq_ok_iff.1 hcode
    have hbind : Except.ok ((s.bind name).1, Instr.bind (s.bind name).2 x) =
        (Except.ok (t, code) : Except Fault _) := hcode
    obtain ⟨rfl, rfl⟩ := Prod.mk.inj (Except.ok.inj hbind)
    have hname := getElem?_of_extended hlocals (Scope.bind_spec s name).2
    obtain ⟨m', hset, hm'⟩ := h.setLocal_eq hnames hname (value.value f σ i)
    have heval := h.eval_eq hp hf hs hbefore hi hx hplaces hbins
    exact .of_value h hm' heval (fun hv => by simp only [Instr.run, hv, hset])
      (fun hv => by simp only [Instr.run, hv])
  | store place value =>
    obtain ⟨a, ha, hcode⟩ := Except.bind_eq_ok_iff.1 hcode
    obtain ⟨x, hx, hcode⟩ := Except.bind_eq_ok_iff.1 hcode
    cases hcode
    rw [Instr.places, List.forall_mem_cons] at hplaces
    have hfind := (Scope.address_eq_ok_iff hp hs).1 ha
    obtain ⟨m', hwrite, hm'⟩ := h.write_eq hp hfind hplaces.1 hi (value.value f σ i)
    have heval := h.eval_eq hp hf hs hbefore hi hx hplaces.2 hbins
    exact .of_value h hm' heval (fun hv => by simp only [Instr.run, hv, hwrite])
      (fun hv => by simp only [Instr.run, hv])

/-- One round of a loop whose places fit does what it does to the store. -/
theorem instrs_simulates (h : m.Models p names σ) (hp : p.Distinct) (hnames : names.Nodup)
    (hf : f.Complete) (hs : s.buffers = p.layout.1) (hlocals : t.locals <+: names) {count i : Nat}
    (hi : i < count) {is : List (Instr Place String)} {code : List (Instr Address Nat)}
    (hcode : s.instrs is = .ok (t, code)) (hfits : ∀ i ∈ is, p.instrFits count i = true) :
    Simulates p names f (∃ i ∈ is, i.value.hears = true) (applyBody f i is σ)
      (runBody f i code m) := by
  induction is generalizing s m σ code with
  | nil =>
    cases hcode
    exact .ok h
  | cons first rest ih =>
    obtain ⟨⟨u, one⟩, hone, hcode⟩ := Except.bind_eq_ok_iff.1 hcode
    obtain ⟨⟨v, more⟩, hmore, hcode⟩ := Except.bind_eq_ok_iff.1 hcode
    cases hcode
    rw [List.forall_mem_cons] at hfits
    have hu := (Scope.instrs_below hmore).locals.trans hlocals
    have hfirst := instr_simulates h hp hnames hf hs hu hi hone hfits.1
    rw [runBody_cons]
    refine Simulates.bind (hfirst.mono fun _ hhears => ⟨first, List.mem_cons_self, hhears⟩) ?_
    intro m' hm'
    have hbuffers := (Scope.instr_below hone).buffers.trans hs
    refine (ih hm' hbuffers hmore hfits.2).mono ?_
    rintro - ⟨i, hmem, hhears⟩
    exact ⟨i, List.mem_cons_of_mem _ hmem, hhears⟩

/-- A loop whose places fit does what it does to the store. -/
theorem loop_simulates (h : m.Models p names σ) (hp : p.Distinct) (hnames : names.Nodup)
    (hf : f.Complete) (hs : s.buffers = p.layout.1) (hlocals : t.locals <+: names) {count : Nat}
    {is : List (Instr Place String)} {code : List (Instr Address Nat)}
    (hcode : s.instrs is = .ok (t, code)) (hfits : ∀ i ∈ is, p.instrFits count i = true)
    {rounds i : Nat} (hi : i + rounds ≤ count) :
    Simulates p names f (∃ i ∈ is, i.value.hears = true) (applyLoop f is rounds i σ)
      (runLoop f code rounds i m) := by
  induction rounds generalizing i m σ with
  | zero => exact .ok h
  | succ rounds ih =>
    have hlt : i < count := by omega
    rw [runLoop_succ]
    refine Simulates.bind (instrs_simulates h hp hnames hf hs hlocals hlt hcode hfits) ?_
    intro m' hm'
    exact ih hm' (by omega)

/-- Statements whose places fit do what they do to the store. -/
theorem body_simulates (h : m.Models p names σ) (hp : p.Distinct) (hnames : names.Nodup)
    (hf : f.Complete) (hs : s.buffers = p.layout.1) (hlocals : t.locals <+: names) {b : Body}
    {code : MachineCode} (hcode : s.body b = .ok (t, code))
    (hfits : ∀ l ∈ b.loops, ∀ i ∈ l.2, p.instrFits l.1 i = true) :
    Simulates p names f (∃ l ∈ b.silentLoops, ∃ i ∈ l.2, i.value.hears = true) (b.apply f σ)
      (code.run f m) := by
  induction b generalizing s t m σ code with
  | done =>
    cases hcode
    exact .ok h
  | note _ _ ih => exact ih h hs hlocals hcode hfits
  | loop count is rest ih =>
    obtain ⟨⟨u, one⟩, hone, hcode⟩ := Except.bind_eq_ok_iff.1 hcode
    obtain ⟨⟨v, more⟩, hmore, hcode⟩ := Except.bind_eq_ok_iff.1 hcode
    cases hcode
    rw [Block.loops, List.forall_mem_cons] at hfits
    have hu := (Scope.body_below hmore).locals.trans hlocals
    have hloop := loop_simulates h hp hnames hf hs hu hone hfits.1 (Nat.le_of_eq (Nat.zero_add _))
    refine Simulates.bind (hloop.mono fun _ hhears => ⟨_, List.mem_cons_self, hhears⟩) ?_
    intro m' hm'
    have hbuffers := (Scope.instrs_below hone).buffers.trans hs
    refine (ih hm' hbuffers hlocals hmore hfits.2).mono ?_
    rintro - ⟨l, hmem, hhears⟩
    exact ⟨l, List.mem_cons_of_mem _ hmem, hhears⟩
  | branch test yes no rest ihyes ihno ihrest =>
    obtain ⟨⟨u, code₁⟩, hyes, hcode⟩ := Except.bind_eq_ok_iff.1 hcode
    obtain ⟨⟨v, code₂⟩, hno, hcode⟩ := Except.bind_eq_ok_iff.1 hcode
    obtain ⟨⟨w, code₃⟩, hrest, hcode⟩ := Except.bind_eq_ok_iff.1 hcode
    cases hcode
    simp only [Block.loops, List.mem_append, or_imp, forall_and] at hfits
    have hu := (Scope.body_below hyes).buffers.trans hs
    have hv := (Scope.body_below hno).buffers.trans hu
    have hvlocals := (Scope.body_below hrest).locals.trans hlocals
    have hulocals := (Scope.body_below hno).locals.trans hvlocals
    have hrun : (Block.branch test code₁ code₂ code₃).run f m =
        (if test.holds f then code₁.run f m else code₂.run f m) >>= code₃.run f := by
      rw [Block.run]
      split <;> rfl
    rw [hrun]
    simp only [Block.apply, Block.silentLoops, List.mem_append]
    refine Simulates.bind ?_ fun m' hm' => (ihrest hm' hv hlocals hrest hfits.2).mono ?_
    · by_cases htest : test.holds f = true
      · -- The first way is taken only if there is an audio signal.
        rw [if_pos htest, if_pos htest]
        exact (ihyes h hs hulocals hyes hfits.1.1).mono fun haudio _ =>
          absurd haudio (Test.audio_of_holds htest)
      · rw [if_neg htest, if_neg htest]
        refine (ihno h hu hvlocals hno hfits.1.2).mono ?_
        rintro - ⟨l, hmem, hhears⟩
        exact ⟨l, .inl hmem, hhears⟩
    · rintro - ⟨l, hmem, hhears⟩
      exact ⟨l, .inr hmem, hhears⟩

end Simulation

end LedPattern
