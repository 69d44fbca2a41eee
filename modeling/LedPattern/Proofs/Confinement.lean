import LedPattern.Proofs.Determinacy

/-!
# Renderings stay within their storage

An instance has numbers where its program has names: of buffers, of the samples within an element,
and of locals. The storage is made apart from them, with one buffer for each temporary, one for each
owner of slots, and as many locals as were given a number. Still every number is one of something
that exists (`Instance.code_within`), also if symbols or owners are declared more than once.

Nothing that an instance does changes the form of its storage, a rendering that ends early included,
so the numbers stay good for all of its life. The element that an index leads to is compared with
the size of the buffer as it is, and so its samples are part of the buffer (`holds_of_element`).
This makes every access of every step one inside the storage (`accesses_in_range`).
-/

namespace LedPattern

/-- How many temporaries, states and locals there are. -/
structure Bounds where
  temps : Nat
  states : Nat
  locals : Nat

section

variable {b : Bounds}

/-- The buffer of a region exists, and its elements have the sample that the region is about. -/
def Region.Within (b : Bounds) : Region → Prop
  | .temp number lanes lane => number < b.temps ∧ lane < lanes
  | .slot number => number < b.states
  | .pixel _ => True

/-- All buffers and locals that an instruction uses exist. -/
structure Instr.Within (b : Bounds) (instr : Instr Address Nat) : Prop where
  places : ∀ a ∈ instr.places, a.region.Within b
  refs : ∀ k ∈ instr.value.refs, k < b.locals
  bound : ∀ k value, instr = .bind k value → k < b.locals

/-- A buffer that storage of some bounds has. -/
def Holder.Within (b : Bounds) : Holder → Prop
  | .temp number => number < b.temps
  | .slot number => number < b.states

/-- The regions of a buffer that exists do exist. -/
theorem Holder.Within.region {holder : Holder} (h : holder.Within b) {elem : Elem} {lane : Nat}
    (hlane : lane < elem.lanes) : (holder.region elem lane).Within b := by
  cases holder with
  | temp number => exact ⟨h, hlane⟩
  | slot number => exact h

/-! ## From names to numbers -/

namespace Scope

variable {s t : Scope}

/-- All buffers and locals of a scope exist. -/
structure Within (b : Bounds) (s : Scope) : Prop where
  buffers : ∀ bd ∈ s.buffers, bd.holder.Within b
  locals : s.locals.length ≤ b.locals

/-- What exists for a later scope does for an earlier one. -/
theorem Within.of_below (h : t.Within b) (hst : s.Below t) : s.Within b where
  buffers := hst.buffers ▸ h.buffers
  locals := hst.locals.length_le.trans h.locals

/-- An address is in a buffer that exists. -/
theorem address_within (hs : s.Within b) {place : Place} {a : Address}
    (h : s.address place = .ok a) : a.region.Within b := by
  unfold address at h
  split at h
  · split at h <;> cases h
    trivial
  · split at h
    · cases h
    · next bd hfind =>
      have hbd := hs.buffers bd (List.mem_of_find?_eq_some hfind)
      split at h <;> cases h
      · exact hbd.region (Elem.lanes_pos .float)
      · exact hbd.region (Channel.lane_lt _)

/-- The number of a local is one of those that exist. -/
theorem number_within (hs : s.Within b) {name : String} {k : Nat} (h : s.number name = .ok k) :
    k < b.locals :=
  (List.getElem?_eq_some_iff.1 (getElem?_of_number h)).1.trans_le hs.locals

/-- The places and the locals of an expression exist. -/
theorem expr_within (hs : s.Within b) {e : Expr Place String} {x : Expr Address Nat}
    (h : s.expr e = .ok x) : (∀ a ∈ x.places, a.region.Within b) ∧ ∀ k ∈ x.refs, k < b.locals := by
  induction e generalizing x with
  | load place =>
    obtain ⟨a, ha, h⟩ := Except.bind_eq_ok_iff.1 h
    cases h
    simpa [Expr.places, Expr.refs] using address_within hs ha
  | ref name =>
    obtain ⟨k, hk, h⟩ := Except.bind_eq_ok_iff.1 h
    cases h
    simpa [Expr.places, Expr.refs] using number_within hs hk
  | binary op _ _ iha ihb =>
    obtain ⟨y, hy, h⟩ := Except.bind_eq_ok_iff.1 h
    obtain ⟨z, hz, h⟩ := Except.bind_eq_ok_iff.1 h
    cases h
    simp only [Expr.places, Expr.refs, List.forall_mem_append]
    exact ⟨⟨(iha hy).1, (ihb hz).1⟩, (iha hy).2, (ihb hz).2⟩
  | clamp01 _ ih | floor _ ih =>
    obtain ⟨y, hy, h⟩ := Except.bind_eq_ok_iff.1 h
    cases h
    have hin := ih hy
    exact hin
  | const | counter | param | spectrum | energy =>
    cases h
    simp [Expr.places, Expr.refs]

/-- An instruction uses what exists for the scope after it. -/
theorem instr_within (ht : t.Within b) {i : Instr Place String} {j : Instr Address Nat}
    (h : s.instr i = .ok (t, j)) : j.Within b := by
  have hs := ht.of_below (instr_below h)
  cases i with
  | bind name value =>
    obtain ⟨x, hx, h⟩ := Except.bind_eq_ok_iff.1 h
    obtain ⟨hplaces, hrefs⟩ := expr_within hs hx
    cases h
    refine ⟨hplaces, hrefs, fun k value hbind => ?_⟩
    cases hbind
    -- The number is one of the scope that has the local.
    exact (List.getElem?_eq_some_iff.1 (bind_spec s name).2).1.trans_le ht.locals
  | store place value =>
    obtain ⟨a, ha, h⟩ := Except.bind_eq_ok_iff.1 h
    obtain ⟨x, hx, h⟩ := Except.bind_eq_ok_iff.1 h
    obtain ⟨hplaces, hrefs⟩ := expr_within hs hx
    cases h
    refine ⟨?_, hrefs, fun k value hbind => by cases hbind⟩
    exact List.forall_mem_cons.2 ⟨address_within hs ha, hplaces⟩

/-- The instructions of a loop use what exists for the scope after them. -/
theorem instrs_within (ht : t.Within b) {is : List (Instr Place String)}
    {js : List (Instr Address Nat)} (h : s.instrs is = .ok (t, js)) : ∀ j ∈ js, j.Within b := by
  induction is generalizing s js with
  | nil =>
    cases h
    simp
  | cons i rest ih =>
    obtain ⟨⟨u, j⟩, hfirst, h⟩ := Except.bind_eq_ok_iff.1 h
    obtain ⟨⟨v, more⟩, hrest, h⟩ := Except.bind_eq_ok_iff.1 h
    cases h
    exact List.forall_mem_cons.2
      ⟨instr_within (ht.of_below (instrs_below hrest)) hfirst, ih hrest⟩

/-- Code uses what exists for the scope after it. -/
theorem body_within (ht : t.Within b) {body : Body} {code : MachineCode}
    (h : s.body body = .ok (t, code)) : ∀ l ∈ code.loops, ∀ j ∈ l.2, j.Within b := by
  induction body generalizing s t code with
  | done =>
    cases h
    simp [Block.loops]
  | note _ _ ih => exact ih ht h
  | loop count is rest ih =>
    obtain ⟨⟨u, js⟩, hinstrs, h⟩ := Except.bind_eq_ok_iff.1 h
    obtain ⟨⟨v, more⟩, hrest, h⟩ := Except.bind_eq_ok_iff.1 h
    cases h
    exact List.forall_mem_cons.2
      ⟨instrs_within (ht.of_below (body_below hrest)) hinstrs, ih ht hrest⟩
  | branch test yes no rest ihyes ihno ihrest =>
    obtain ⟨⟨u, code₁⟩, hyes, h⟩ := Except.bind_eq_ok_iff.1 h
    obtain ⟨⟨v, code₂⟩, hno, h⟩ := Except.bind_eq_ok_iff.1 h
    obtain ⟨⟨w, code₃⟩, hrest, h⟩ := Except.bind_eq_ok_iff.1 h
    cases h
    -- The two ways come one after the other, and what exists at the end exists for both.
    have hv := ht.of_below (body_below hrest)
    have hu := hv.of_below (body_below hno)
    simp only [Block.loops, List.forall_mem_append]
    exact ⟨⟨ihyes hu hyes, ihno hv hno⟩, ihrest ht hrest⟩

end Scope

end

/-! ## From declarations to storage -/

/-- Asking for an owner's buffer takes none away, and gives the number of one that exists. -/
theorem Arena.ensure_size (a : Arena) (owner : String) (len : Nat) :
    a.size ≤ (a.ensure owner len).1.size ∧
      (a.ensure owner len).2 < (a.ensure owner len).1.size := by
  unfold ensure
  split
  · next k hk => exact ⟨le_rfl, (Array.findIdx?_eq_some_iff_getElem.1 hk).1⟩
  · simp

namespace Instance

variable {p : Program} {x : Instance}

/-- The buffers of slots exist, whether they are shared or not, and those before them still do. -/
theorem bindSlots_within {temps locals : Nat} {bs : List Binding} {arena : Arena}
    (h : ∀ bd ∈ bs, bd.holder.Within ⟨temps, arena.size, locals⟩) (slots : List Slot) :
    ∀ bd ∈ (bindSlots bs arena slots).1,
      bd.holder.Within ⟨temps, (bindSlots bs arena slots).2.size, locals⟩ := by
  induction slots generalizing bs arena with
  | nil => exact h
  | cons s rest ih =>
    obtain ⟨hgrows, hnumber⟩ := arena.ensure_size s.owner s.len
    refine ih (List.forall_mem_cons.2 ⟨hnumber, fun bd hbd => ?_⟩)
    -- An owner that comes again gets no buffer, so the number of states may stay as it is.
    have hold := h bd hbd
    cases hholder : bd.holder with
    | temp number =>
      rw [hholder] at hold
      exact hold
    | slot number =>
      rw [hholder] at hold
      exact Nat.lt_of_lt_of_le hold hgrows

/-- Every symbol of a program stands for a buffer that exists. -/
theorem layout_within (p : Program) (locals : Nat) :
    ∀ bd ∈ p.layout.1, bd.holder.Within ⟨p.temps.length, p.layout.2.size, locals⟩ := by
  refine bindSlots_within (fun bd hbd => ?_) p.slots
  rcases mem_bindTemps.1 hbd with hnone | ⟨k, t, hk, rfl⟩
  · cases hnone
  · simpa [Holder.Within] using (List.getElem?_eq_some_iff.1 hk).1

/-- What the storage of an instance has. -/
def bounds (x : Instance) : Bounds := ⟨x.temps.size, x.arena.size, x.locals.size⟩

/-- The code of an instance uses only what its storage has. -/
theorem code_within (hx : ofProgram p = .ok x) :
    ∀ l ∈ x.code.loops, ∀ instr ∈ l.2, instr.Within x.bounds := by
  rw [ofProgram_eq] at hx
  obtain ⟨⟨scope, code⟩, hcode, hx⟩ := Except.bind_eq_ok_iff.1 hx
  cases hx
  refine Scope.body_within ⟨?_, ?_⟩ hcode
  -- The bindings were made before the code was looked at, and the locals are counted after it.
  · rw [(Scope.body_below hcode).buffers]
    simpa [bounds] using layout_within p scope.locals.length
  · simp [bounds]

/-- The code of every instance that renderings can lead to uses only what its storage has. -/
theorem IsOf.code_within (h : x.IsOf p) :
    ∀ l ∈ x.code.loops, ∀ instr ∈ l.2, instr.Within x.bounds := by
  obtain ⟨new, hnew, hform⟩ := h
  have hbounds : x.bounds = new.bounds := by
    have htemps := congrArg (fun form : Form => form.temps.size) hform
    have harena := congrArg (fun form : Form => form.arena.size) hform
    have hlocals := congrArg Form.locals hform
    simp only [form, Array.size_map] at htemps harena hlocals
    rw [bounds, bounds, htemps, harena, hlocals]
  rw [hbounds, show x.code = new.code from congrArg Form.code hform]
  exact Instance.code_within hnew

end Instance

/-! ## Accesses of a step -/

namespace Memory

variable {m : Memory} {a : Address} {i : Nat}

/-- What a memory has. -/
def bounds (m : Memory) : Bounds := ⟨m.temps.size, m.arena.size, m.locals.size⟩

/-- What a memory has is part of its form. -/
theorem bounds_of_form {n : Memory} (h : m.form = n.form) : m.bounds = n.bounds := by
  simp only [form, Prod.mk.injEq] at h
  have htemps := congrArg Array.size h.1
  have harena := congrArg Array.size h.2.1
  simp only [Array.size_map] at htemps harena
  rw [bounds, bounds, htemps, harena, h.2.2.1]

/-- The sample of a region that belongs to element `j` is part of the storage. -/
def Holds (m : Memory) (j : Nat) : Region → Prop
  | .temp number lanes lane => ∃ b, m.temps[number]? = some b ∧ j * lanes + lane < b.data.size
  | .slot number => ∃ b, m.arena[number]? = some b ∧ j < b.data.size
  | .pixel _ => j < m.pixels.size

/-- Whatever an instruction accesses when the counter is `i` is part of the storage: its buffers
and locals, and the samples of the elements that its indices lead to. -/
structure InRange (m : Memory) (i : Nat) (instr : Instr Address Nat) : Prop where
  within : instr.Within m.bounds
  elements : ∀ a ∈ instr.places, ∀ j, m.element a i = .ok j → m.Holds j a.region

/-- A region of a buffer that exists has an extent, and whatever element is less than that has its
sample in the storage. -/
theorem extent_within {region : Region} (h : region.Within m.bounds) :
    ∃ name len, m.extent region = .ok (name, len) ∧ ∀ j < len, m.Holds j region := by
  cases region with
  | temp number lanes lane =>
    obtain ⟨hnumber, hlane⟩ := h
    have hb : m.temps[number]? = some m.temps[number] := Array.getElem?_eq_getElem hnumber
    refine ⟨_, _, by rw [extent, hb], fun j hj => ⟨_, hb, ?_⟩⟩
    -- The division drops what does not make up an element.
    have hall := (Nat.le_div_iff_mul_le (Nat.zero_lt_of_lt hlane)).1 (Nat.succ_le_of_lt hj)
    rw [Nat.succ_mul] at hall
    omega
  | slot number =>
    have hb : m.arena[number]? = some m.arena[number] := Array.getElem?_eq_getElem h
    exact ⟨_, _, by rw [extent, hb], fun j hj => ⟨_, hb, hj⟩⟩
  | pixel channel => exact ⟨_, _, rfl, fun j hj => hj⟩

/-- An element is found in a buffer that exists, or the fault says why it is not. -/
theorem element_within (h : a.region.Within m.bounds) :
    (∃ j, m.element a i = .ok j ∧ m.Holds j a.region) ∨
      ∃ fault, m.element a i = .error fault ∧ fault ≠ .strayAddress := by
  obtain ⟨name, len, hextent, hholds⟩ := extent_within h
  simp only [element, hextent, bind, Except.bind]
  split
  · exact .inr ⟨_, rfl, by simp⟩
  · next j _ =>
    split
    · next hj => exact .inl ⟨j, rfl, hholds j hj⟩
    · exact .inr ⟨_, rfl, by simp⟩

/-- The element that an index leads to has its sample in the storage. -/
theorem holds_of_element (h : a.region.Within m.bounds) {j : Nat} (hj : m.element a i = .ok j) :
    m.Holds j a.region := by
  rcases element_within h with ⟨k, hk, hholds⟩ | ⟨fault, hfault, -⟩
  · obtain rfl := Except.ok.inj (hk.symm.trans hj)
    exact hholds
  · rw [hj] at hfault
    cases hfault

/-- An instruction that uses what exists accesses only that. -/
theorem inRange_of_within {instr : Instr Address Nat} (h : instr.Within m.bounds) (i : Nat) :
    m.InRange i instr :=
  ⟨h, fun a ha _ hj => holds_of_element (h.places a ha) hj⟩

/-- A sample that is part of the storage can be read. -/
theorem get_of_holds {region : Region} {j : Nat} (h : m.Holds j region) :
    ∃ v, m.get region j = .ok v := by
  cases region with
  | temp number lanes lane | slot number =>
    obtain ⟨b, hb, hj⟩ := h
    simp [get, hb, hj]
  | pixel channel =>
    have hj : j < m.pixels.size := h
    simp [get, hj]

/-- A sample that is part of the storage can be changed. -/
theorem set_of_holds {region : Region} {j : Nat} (h : m.Holds j region) (v : Float32) :
    ∃ m', m.set region j v = .ok m' := by
  cases region with
  | temp number lanes lane | slot number =>
    obtain ⟨b, hb, hj⟩ := h
    simp [set, hasSample, hb, hj]
  | pixel channel =>
    have hj : j < m.pixels.size := h
    simp [set, hj]

end Memory

section

variable {f : Frame} {m : Memory} {i : Nat}

/-- If neither of two computations leaves the storage, one after the other does not. -/
theorem bind_ne_stray {α β : Type} {r : Except Fault α} {k : α → Except Fault β}
    (hr : r ≠ .error .strayAddress) (hk : ∀ v, k v ≠ .error .strayAddress) :
    (r >>= k) ≠ .error .strayAddress := by
  cases r with
  | error fault => exact fun h => hr (congrArg Except.error (Except.error.inj h))
  | ok v => exact hk v

/-- The value of an expression is computed without leaving the storage. -/
theorem Expr.eval_ne_stray {e : Expr Address Nat}
    (hplaces : ∀ a ∈ e.places, a.region.Within m.bounds)
    (hrefs : ∀ k ∈ e.refs, k < m.bounds.locals) : e.eval f m i ≠ .error .strayAddress := by
  induction e with
  | load a =>
    simp only [eval, Memory.read]
    rcases Memory.element_within (i := i) (hplaces a (by simp [places])) with
      ⟨j, hj, hholds⟩ | ⟨fault, hfault, hne⟩
    · obtain ⟨v, hv⟩ := Memory.get_of_holds hholds
      simp [hj, hv, bind, Except.bind]
    · simpa [hfault, bind, Except.bind] using hne
  | ref k =>
    have hk : k < m.locals.size := hrefs k (by simp [refs])
    simp [eval, Memory.getLocal, hk]
  | spectrum index =>
    simp only [eval, Frame.bin]
    repeat' split
    all_goals simp
  | energy =>
    simp only [eval]
    split <;> simp
  | binary op x y ihx ihy =>
    simp only [places, refs, List.forall_mem_append] at hplaces hrefs
    have hx := ihx hplaces.1 hrefs.1
    have hy := ihy hplaces.2 hrefs.2
    exact bind_ne_stray hx fun _ => bind_ne_stray hy fun _ => by simp
  | clamp01 x ih | floor x ih => exact bind_ne_stray (ih hplaces hrefs) fun _ => by simp
  | const | counter | param => simp [eval]

/-- An instruction whose accesses are in range does not leave the storage. -/
theorem Instr.run_ne_stray {instr : Instr Address Nat} (h : m.InRange i instr) {halt : Halt}
    (hrun : instr.run f i m = .error halt) : halt.fault ≠ .strayAddress := by
  have hvalue : instr.value.eval f m i ≠ .error .strayAddress :=
    Expr.eval_ne_stray (fun a ha => h.within.places a (by cases instr <;> simp_all [places, value]))
      h.within.refs
  -- An instruction fails by its value or by its write, and neither of them leaves the storage.
  cases instr with
  | bind k value =>
    have hk : k < m.locals.size := h.within.bound k value rfl
    rw [Instr.run] at hrun
    split at hrun
    · simp [Memory.setLocal, hk] at hrun
    · next fault hfault =>
      cases hrun
      exact fun hstray => hvalue (hstray ▸ hfault)
  | store a value =>
    rw [Instr.run] at hrun
    split at hrun
    · next v _ =>
      rw [Memory.write] at hrun
      rcases Memory.element_within (i := i) (h.within.places a List.mem_cons_self) with
        ⟨j, hj, hholds⟩ | ⟨fault, hfault, hne⟩
      · obtain ⟨m', hm'⟩ := Memory.set_of_holds hholds v
        simp [hj, hm'] at hrun
      · rw [hfault] at hrun
        cases hrun
        exact hne
    · next fault hfault =>
      cases hrun
      exact fun hstray => hvalue (hstray ▸ hfault)

/-- Steps keep what a memory has. -/
theorem bounds_of_runSteps {steps : List (Nat × Instr Address Nat)} {m' : Memory}
    (h : runSteps f steps m = .ok m') : m'.bounds = m.bounds := by
  have hform := Memory.form_runSteps f steps m
  rw [h] at hform
  exact Memory.bounds_of_form hform

/-- Steps that use what exists do not leave the storage. -/
theorem runSteps_ne_stray {steps : List (Nat × Instr Address Nat)}
    (h : ∀ step ∈ steps, step.2.Within m.bounds) {halt : Halt}
    (hrun : runSteps f steps m = .error halt) : halt.fault ≠ .strayAddress := by
  induction steps generalizing m with
  | nil => cases hrun
  | cons step rest ih =>
    obtain ⟨i, instr⟩ := step
    rw [List.forall_mem_cons] at h
    rw [runSteps] at hrun
    cases hfirst : instr.run f i m with
    | error first =>
      rw [hfirst] at hrun
      cases hrun
      exact Instr.run_ne_stray (Memory.inRange_of_within h.1 i) hfirst
    | ok next =>
      rw [hfirst] at hrun
      -- The other steps are run on another memory, which has the same buffers and locals.
      have hform := Memory.form_instr f i m instr
      rw [hfirst] at hform
      exact ih (Memory.bounds_of_form hform ▸ h.2) hrun

end

/-! ## Accesses of a rendering -/

/-- The steps of code are instructions of its loops. -/
theorem Block.exists_loop_of_mem_steps {P L : Type} {f : Frame} {code : Block P L} {i : Nat}
    {instr : Instr P L} (h : (i, instr) ∈ code.steps f) : ∃ l ∈ code.loops, instr ∈ l.2 := by
  induction code with
  | done => cases h
  | note _ _ ih => exact ih h
  | loop count body rest ih =>
    rw [steps, List.mem_append] at h
    rcases h with hround | hrest
    · obtain ⟨k, -, hk⟩ := List.mem_flatMap.1 hround
      obtain ⟨first, hfirst, heq⟩ := List.mem_map.1 hk
      cases heq
      exact ⟨_, List.mem_cons_self, hfirst⟩
    · obtain ⟨l, hl, hinstr⟩ := ih hrest
      exact ⟨l, List.mem_cons_of_mem _ hl, hinstr⟩
  | branch test yes no rest ihyes ihno ih =>
    rw [steps, List.mem_append] at h
    simp only [loops, List.mem_append]
    -- Only one of the ways is taken, but the loops are those of both.
    rcases h with hway | hrest
    · split at hway
      · obtain ⟨l, hl, hinstr⟩ := ihyes hway
        exact ⟨l, .inl (.inl hl), hinstr⟩
      · obtain ⟨l, hl, hinstr⟩ := ihno hway
        exact ⟨l, .inl (.inr hl), hinstr⟩
    · obtain ⟨l, hl, hinstr⟩ := ih hrest
      exact ⟨l, .inr hl, hinstr⟩

namespace Instance

variable {p : Program} {x : Instance}

/-- The steps of a rendering use what the memory has with which it starts. -/
theorem IsOf.steps_within (h : x.IsOf p) (f : Frame) (pixels : Array Pixel) :
    ∀ step ∈ x.code.steps f, step.2.Within (x.start pixels).bounds := by
  rintro ⟨i, instr⟩ hstep
  obtain ⟨l, hl, hinstr⟩ := Block.exists_loop_of_mem_steps hstep
  have hbounds : (x.start pixels).bounds = x.bounds := by simp [start, Memory.bounds, bounds]
  exact hbounds ▸ h.code_within l hl instr hinstr

/-- A rendering does not leave the storage. -/
theorem IsOf.render_ne_stray (h : x.IsOf p) (f : Frame) (pixels : Array Pixel) :
    (x.render f pixels).fault ≠ some .strayAddress := by
  unfold Instance.render
  split
  · dsimp only
    split
    · simp
    · next halt hrun =>
      rw [Block.run_eq_runSteps] at hrun
      exact fun hstray => runSteps_ne_stray (h.steps_within f pixels) hrun (Option.some.inj hstray)
  · simp

end Instance

/-- An instance of any program at all, after any calls with any frames and pixels, whether these
succeeded or not, renders without leaving its storage: a call is never answered by the fault of an
address outside of it, and at every step that is reached all accesses are in range. -/
theorem accesses_in_range {p : Program} {x : Instance} (hx : Instance.ofProgram p = .ok x)
    (history : List Call) (call : Call) :
    ((x.after history).answer call).fault ≠ some .strayAddress ∧
    ∀ before i instr later m,
      (x.after history).code.steps call.frame = before ++ (i, instr) :: later →
      runSteps call.frame before ((x.after history).start call.pixels) = .ok m →
      m.InRange i instr := by
  have hafter : (x.after history).IsOf p := Instance.IsOf.after ⟨x, hx, rfl⟩ history
  refine ⟨hafter.render_ne_stray call.frame call.pixels, ?_⟩
  intro before i instr later m hsteps hrun
  have hwithin := hafter.steps_within call.frame call.pixels (i, instr) (by simp [hsteps])
  exact Memory.inRange_of_within (bounds_of_runSteps hrun ▸ hwithin) i

/-- A program that declares a symbol for two temporaries, another one for a temporary and a slot,
and two slots of different length for one owner. Some of its buffers are empty. -/
def tangledProgram : Program where
  function := "tangled"
  frameWidth := 2
  slots := [⟨"mix", "node", 3⟩, ⟨"tail", "node", 1⟩, ⟨"rest", "", 0⟩]
  temps := [⟨"dup", .float, 0⟩, ⟨"dup", .rgb, 2⟩, ⟨"mix", .rgb, 0⟩]
  body :=
    .loop 2
      [.bind "v" (.load ⟨.buffer "tail", .offset 1, none⟩),
        .store ⟨.buffer "dup", .reverse 1, some .b⟩ (.binary .add (.ref "v") (.const 1)),
        .store ⟨.buffer "mix", .offset 1, none⟩ (.load ⟨.buffer "dup", .counter, some .b⟩)] <|
    .branch .audioPresent
      (.loop 1 [.store ⟨.buffer "rest", .counter, none⟩ (.ref "v")] .done) .done <|
    .loop 2 (Channel.all.map fun c => .store ⟨.out, .counter, some c⟩ (.ref "v")) .done

/-- After a frame that ends at the empty state, and after a call with too few pixels, the program
renders a frame without sound inside its storage. -/
theorem tangledProgram_in_range : ∃ x, Instance.ofProgram tangledProgram = .ok x ∧
    (x.answer ⟨loudFrame, x.darkPixels⟩).fault = some (.outOfBounds "" 0 0) ∧
    let late := x.after [⟨loudFrame, x.darkPixels⟩, ⟨silentFrame, #[]⟩]
    (late.answer ⟨silentFrame, x.darkPixels⟩).fault ≠ some .strayAddress ∧
    ∀ before i instr later m,
      late.code.steps silentFrame = before ++ (i, instr) :: later →
      runSteps silentFrame before (late.start x.darkPixels) = .ok m →
      m.InRange i instr := by
  have hfault : (Instance.ofProgram tangledProgram).toOption.map
      (fun x => (x.answer ⟨loudFrame, x.darkPixels⟩).fault) =
      some (some (.outOfBounds "" 0 0)) := by decide +kernel
  obtain ⟨x, hx, hfault⟩ := Except.exists_ok_of_map hfault
  exact ⟨x, hx, hfault, accesses_in_range hx [⟨loudFrame, x.darkPixels⟩, ⟨silentFrame, #[]⟩]
    ⟨silentFrame, x.darkPixels⟩⟩

end LedPattern
