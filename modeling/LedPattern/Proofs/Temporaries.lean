import LedPattern.Proofs.Typing

/-!
# How many temporaries a program has

A program has at most two temporaries of each shape, however many nodes its graph has
(`temps_bounded_by_shape`). Storage gives out a new temporary only if none of the shape is there but
the one to be avoided, and as symbols differ that is one at most (`Storage.acquire_atMostTwo`). All
stages get their temporaries in this way.

A fork could make an exception, since it may declare a new temporary without looking for an old one.
It does so only if the primary way leaves a slot. A slot holds levels, and what reaches the output
are colors, so this does not happen in a plan that fits (`meeting_rgb`).

No loop reads a temporary that it stores to (`Storage.Apart`). A copy of colors in another order
asks for a buffer other than its input, and all other loops that store to a temporary read buffers
of other elements or none.
-/

namespace LedPattern

/-! ## Temporaries of one shape -/

/-- No more than two temporaries have the same elements and the same length. -/
def Temp.AtMostTwo (temps : List Temp) : Prop :=
  ∀ elem len, temps.countP (fun t => t.elem = elem ∧ t.len = len) ≤ 2

/-- If the keys of a list's elements differ, and all elements of one kind have the same key, there
is at most one of this kind. -/
theorem countP_le_one_of_key {α : Type} {key : α → String} {l : List α} (hn : (l.map key).Nodup)
    {kind : α → Bool} (name : String) (h : ∀ a ∈ l, kind a = true → key a = name) :
    l.countP kind ≤ 1 := by
  have hnames : (l.filter kind).map key = List.replicate (l.filter kind).length name := by
    refine List.eq_replicate_iff.2 ⟨List.length_map _, ?_⟩
    rintro b hb
    obtain ⟨a, ha, rfl⟩ := List.mem_map.1 hb
    obtain ⟨hmem, hkind⟩ := List.mem_filter.1 ha
    exact h a hmem hkind
  have hnodup : ((l.filter kind).map key).Nodup := hn.sublist (List.filter_sublist.map key)
  rw [hnames, List.nodup_replicate] at hnodup
  rwa [List.countP_eq_length_filter]

namespace Storage

variable {s : Storage}

/-- Giving out a temporary leaves at most two of each shape. -/
theorem acquire_atMostTwo (hs : s.Named) (h : Temp.AtMostTwo s.temps) (elem : Elem) (len : Nat)
    (avoid : String) : Temp.AtMostTwo (s.acquire elem len avoid).2.temps := by
  unfold acquire
  split
  · exact h
  · next hfind =>
    intro e n
    show (s.temps ++ [Temp.mk _ elem len]).countP _ ≤ 2
    rw [List.countP_append, List.countP_singleton]
    by_cases hshape : elem = e ∧ len = n
    · obtain ⟨rfl, rfl⟩ := hshape
      -- Every temporary of this shape is the one to be avoided.
      have hone : s.temps.countP (fun t => t.elem = elem ∧ t.len = len) ≤ 1 := by
        refine countP_le_one_of_key hs.temps_nodup avoid fun t ht hkind => ?_
        have hne := List.find?_eq_none.1 hfind t ht
        simp only [decide_eq_true_eq] at hkind
        simpa [hkind.1, hkind.2] using hne
      simpa using hone
    · simpa [hshape] using h e n

end Storage

namespace Kernel

variable {width : Nat} {s : Storage} {cur : Buffer} {t u : Option Shape}

/-- A stage declares no temporary, or storage gives out one. -/
theorem stage_temps (width : Nat) (s : Storage) (cur : Buffer) (st : Stage) :
    (stage width s cur st).storage.temps = s.temps ∨ ∃ elem len avoid,
      (stage width s cur st).storage.temps = (s.acquire elem len avoid).2.temps := by
  cases st with
  | idle | decay => exact .inl rfl
  | sample | ramp | color | mirror => exact .inr ⟨_, _, _, rfl⟩

/-- Stages that fit leave at most two temporaries of each shape. -/
theorem stages_atMostTwo {ss : List Stage} (h : Stage.FitsAll width t ss u)
    (hwidth : width < Index.limit) (hs : s.Named) (hcur : s.Holds cur t)
    (htwo : Temp.AtMostTwo s.temps) : Temp.AtMostTwo (stages width s cur ss).storage.temps := by
  induction h generalizing s cur with
  | nil => exact htwo
  | @cons _ _ _ first _ hfirst _ ih =>
    obtain ⟨hnamed, -, hholds⟩ := stage_storage hfirst hwidth hs hcur
    refine ih hnamed hholds ?_
    rcases stage_temps width s cur first with htemps | ⟨elem, len, avoid, htemps⟩
    · rw [htemps]
      exact htwo
    · rw [htemps]
      exact Storage.acquire_atMostTwo hs htwo elem len avoid

/-- Ways that leave colors meet in the buffer of the primary one: only temporaries hold colors. -/
theorem meeting_rgb {b : Buffer} (hb : s.Declares b) (helem : b.elem = .rgb) :
    meeting s b = (b, s) := by
  rcases hb with htemp | ⟨hfloat, -⟩
  · exact if_pos (List.any_eq_true.2 ⟨_, htemp, decide_eq_true rfl⟩)
  · rw [helem] at hfloat
    cases hfloat

/-- A fork whose ways leave colors declares the temporaries of its ways and no other. -/
theorem fork_temps {f : Fork} {len : Nat}
    (hfirst : Stage.FitsAll width t f.primary (some ⟨.rgb, len⟩))
    (hsecond : Stage.FitsAll width t f.fallback (some ⟨.rgb, len⟩)) (hwidth : width < Index.limit)
    (hs : s.Named) (hcur : s.Holds cur t) :
    (fork width s cur f).storage.temps =
      (stages width (stages width s cur f.primary).storage cur f.fallback).storage.temps := by
  obtain ⟨-, -, -, -, -, hprimary, -⟩ := fork_ways hfirst hsecond hwidth hs hcur
  obtain ⟨hdecl, helem, -, -⟩ := Storage.holds_some.1 hprimary
  simp only [fork, meeting_rgb hdecl helem]

/-- A plan that fits has at most two temporaries of each shape. -/
theorem main_atMostTwo {p : Plan} (h : p.Fits width none) (hwidth : width < Index.limit) :
    Temp.AtMostTwo (main width p).storage.temps := by
  have hnone : Temp.AtMostTwo ({} : Storage).temps := fun _ _ => Nat.zero_le 2
  unfold Plan.Fits at h
  unfold main
  split at h
  · exact stages_atMostTwo h hwidth Storage.named_empty (holds_none _ _) hnone
  · obtain ⟨t, hlead, hfirst, hsecond⟩ := h
    have hstart := holds_none {} Buffer.empty
    obtain ⟨hnamed, -, hholds⟩ := stages_storage hlead hwidth Storage.named_empty hstart
    obtain ⟨hnamed', hgrows, -⟩ := stages_storage hfirst hwidth hnamed hholds
    have hbefore := stages_atMostTwo hlead hwidth Storage.named_empty hstart hnone
    have hprimary := stages_atMostTwo hfirst hwidth hnamed hholds hbefore
    rw [fork_temps hfirst hsecond hwidth hnamed hholds]
    exact stages_atMostTwo hsecond hwidth hnamed' (hgrows.holds hholds) hprimary

end Kernel

/-! ## Loops and what they read -/

/-- A loop, given by its count and body, that reads from no temporary that it stores to. -/
def Storage.Apart (s : Storage) (l : Nat × List (Instr Place String)) : Prop :=
  ∀ t ∈ s.temps, storesTo t.symbol l.2 = true →
    ∀ instr ∈ l.2, ∀ place ∈ instr.value.places, place.target ≠ .buffer t.symbol

/-- A loop that stores to one buffer only need not read from that buffer, if it is a temporary. -/
theorem Storage.apart_of_targets {s : Storage} {l : Nat × List (Instr Place String)} {dst : String}
    (htargets : ∀ instr ∈ l.2, ∀ target ∈ instr.target?, target = .buffer dst)
    (hreads : ∀ t ∈ s.temps, t.symbol = dst →
      ∀ instr ∈ l.2, ∀ place ∈ instr.value.places, place.target ≠ .buffer dst) : s.Apart l := by
  intro t ht hstores
  obtain ⟨instr, hinstr, htarget⟩ := List.any_eq_true.1 hstores
  have hsymbol : t.symbol = dst :=
    Target.buffer.inj (htargets instr hinstr _ (of_decide_eq_true htarget))
  rw [hsymbol]
  exact hreads t ht hsymbol

namespace Kernel

variable {width : Nat} {s S : Storage} {cur : Buffer} {t u : Option Shape}

/-- A color map reads the levels. -/
theorem color_reads (dst src : Buffer) (map : ColorMap) :
    ∀ l ∈ (color dst src map).loops, ∀ instr ∈ l.2, ∀ place ∈ instr.value.places,
      place.target = .buffer src.symbol := by
  cases map <;> simp [color, loop, Block.loops, Channel.all, store, load, place, share, Instr.value,
    Expr.places]

/-- A mirror reads the colors that it puts in order. -/
theorem mirror_reads (dst src : Buffer) (variant : MirrorVariant) :
    ∀ l ∈ (mirror dst src variant).loops, ∀ instr ∈ l.2, ∀ place ∈ instr.value.places,
      place.target = .buffer src.symbol := by
  cases variant <;> simp [mirror, loop, copyColors, Block.loops, Channel.all, store, load, place,
    Instr.value, Expr.places]

/-- A copy reads what it copies. -/
theorem copy_reads (dst src : Buffer) :
    ∀ l ∈ (copy dst src).loops, ∀ instr ∈ l.2, ∀ place ∈ instr.value.places,
      place.target = .buffer src.symbol := by
  unfold copy
  split <;> simp [loop, copyColors, Block.loops, Channel.all, store, load, place, Instr.value,
    Expr.places]

/-- A sample reads no buffer. -/
theorem sample_reads (dst : Buffer) (bins : Nat) :
    ∀ l ∈ (sample dst bins).loops, ∀ instr ∈ l.2, instr.value.places = [] := by
  simp [sample, loop, Block.loops, store, Instr.value, Expr.places]

/-- A ramp reads no buffer. -/
theorem ramp_reads (dst : Buffer) (width : Nat) :
    ∀ l ∈ (ramp dst width).loops, ∀ instr ∈ l.2, instr.value.places = [] := by
  by_cases h : width = 1 <;> simp [ramp, loop, Block.loops, store, Instr.value, Expr.places, h]

/-- The loops of a stage that fits read from no temporary that they store to. -/
theorem stage_apart {st : Stage} (h : st.Fits width t u) (hs : s.Named) (hcur : s.Holds cur t)
    (hS : S.Named) (hgrows : (stage width s cur st).storage.Grows S) :
    ∀ l ∈ (stage width s cur st).code.loops, S.Apart l := by
  intro l hl
  refine Storage.apart_of_targets (stage_targets width s cur st l hl)
    fun x hx hsymbol instr hinstr place hplace htarget => ?_
  cases h with
  | idle => cases hl
  | @sample id bins =>
    rw [sample_reads _ bins l hl instr hinstr] at hplace
    cases hplace
  | ramp =>
    rw [ramp_reads _ width l hl instr hinstr] at hplace
    cases hplace
  | @decay id factor len =>
    -- The buffer is a slot, and no temporary has its symbol.
    obtain ⟨symbol, -, hbuffer, hstorage, -⟩ := Storage.slotFor_spec hs id cur.len
    have hdst : (stage width s cur (.decay id factor)).buffer.symbol = symbol :=
      congrArg Buffer.symbol hbuffer
    have hslot : ⟨symbol, id, cur.len⟩ ∈ S.slots := hgrows.slots.subset (by
      rw [show (stage width s cur (.decay id factor)).storage = _ from hstorage]
      simp)
    exact hS.slot_ne_temp hslot hx (hdst.symm.trans hsymbol.symm)
  | @color id map len =>
    obtain ⟨hdecl, helem, rfl, -⟩ := Storage.holds_some.1 hcur
    have hdst := (Storage.acquire_spec hs .rgb cur.len "").1
    have hne := hdst.symbol_ne hdecl (by simp [helem])
    rw [color_reads _ cur map l hl instr hinstr place hplace] at htarget
    exact hne (Target.buffer.inj htarget)
  | @mirror id variant len =>
    obtain ⟨hdecl, -, rfl, -⟩ := Storage.holds_some.1 hcur
    have hne := (Storage.acquire_spec hs .rgb cur.len cur.symbol).2 hdecl.mem_symbols
    rw [mirror_reads _ cur variant l hl instr hinstr place hplace] at htarget
    exact hne (Target.buffer.inj htarget).symm

/-- The loops of stages that fit read from no temporary that they store to. -/
theorem stages_apart {ss : List Stage} (h : Stage.FitsAll width t ss u)
    (hwidth : width < Index.limit) (hs : s.Named) (hcur : s.Holds cur t) (hS : S.Named)
    (hgrows : (stages width s cur ss).storage.Grows S) :
    ∀ l ∈ (stages width s cur ss).code.loops, S.Apart l := by
  induction h generalizing s cur with
  | nil => simp [stages, Block.loops]
  | cons hfirst hrest ih =>
    obtain ⟨hnamed, -, hholds⟩ := stage_storage hfirst hwidth hs hcur
    obtain ⟨-, hmore, -⟩ := stages_storage hrest hwidth hnamed hholds
    intro l hl
    simp only [stages, Block.loops_append, List.mem_append] at hl
    rcases hl with hl | hl
    · exact stage_apart hfirst hs hcur hS (hmore.trans hgrows) l hl
    · exact ih hnamed hholds hgrows l hl

/-- The end of a branch copies from one buffer to another. -/
theorem join_apart (S : Storage) (dst src : Buffer) : ∀ l ∈ (join dst src).loops, S.Apart l := by
  intro l hl
  refine Storage.apart_of_targets (join_targets dst src l hl)
    fun x _ _ instr hinstr place hplace htarget => ?_
  unfold join at hl
  split at hl
  · cases hl
  · next hne =>
    rw [copy_reads dst src l hl instr hinstr place hplace] at htarget
    exact hne (Target.buffer.inj htarget)

/-- The loops of a fork whose ways fit read from no temporary that they store to. -/
theorem fork_apart {f : Fork} {sh : Shape} (hfirst : Stage.FitsAll width t f.primary (some sh))
    (hsecond : Stage.FitsAll width t f.fallback (some sh)) (hwidth : width < Index.limit)
    (hs : s.Named) (hcur : s.Holds cur t) (hS : S.Named)
    (hgrows : (fork width s cur f).storage.Grows S) :
    ∀ l ∈ (fork width s cur f).code.loops, S.Apart l := by
  obtain ⟨hnamed, hstep, hstep', -, -, -, hdst⟩ := fork_ways hfirst hsecond hwidth hs hcur
  intro l hl
  simp only [fork, note, Block.loops_append, Block.loops, List.nil_append, List.append_nil,
    List.mem_append] at hl
  rcases hl with (hl | hl) | (hl | hl)
  · exact stages_apart hfirst hwidth hs hcur hS ((hstep'.trans hdst.grows).trans hgrows) l hl
  · exact join_apart S _ _ l hl
  · exact stages_apart hsecond hwidth hnamed (hstep.holds hcur) hS (hdst.grows.trans hgrows) l hl
  · exact join_apart S _ _ l hl

/-- The loops of a plan that fits read from no temporary that they store to, as far as the
output. -/
theorem main_apart {p : Plan} (h : p.Fits width none) (hwidth : width < Index.limit) :
    ∀ l ∈ (main width p).code.loops, (main width p).storage.Apart l := by
  have hS := (main_storage h hwidth).1
  rcases p with ⟨lead, _ | f, out⟩
  · exact stages_apart h hwidth Storage.named_empty (holds_none _ _) hS (.refl _)
  · obtain ⟨t, hlead, hfirst, hsecond⟩ := h
    obtain ⟨hnamed, -, hholds⟩ := stages_storage hlead hwidth Storage.named_empty (holds_none _ _)
    obtain ⟨-, hgrows, -⟩ := fork_storage hfirst hsecond hwidth hnamed hholds
    intro l hl
    simp only [main, Block.loops_append, List.mem_append] at hl
    rcases hl with hl | hl
    · exact stages_apart hlead hwidth Storage.named_empty (holds_none _ _) hS hgrows l hl
    · exact fork_apart hfirst hsecond hwidth hnamed hholds hS (.refl _) l hl

end Kernel

/-- All loops of the program of a plan that fits read from no temporary that they store to. -/
theorem Graph.programOf_apart {g : Graph} {pl : Plan} (h : pl.Fits g.frameWidth none)
    (hwidth : g.frameWidth < Index.limit) :
    ∀ l ∈ (g.programOf pl).body.loops, (g.programOf pl).storage.Apart l := by
  intro l hl
  rw [loops_programOf, List.mem_append] at hl
  rcases hl with hl | hl
  · exact Kernel.main_apart h hwidth l hl
  · -- The output stores to the pixels only.
    intro t _ hstores
    obtain ⟨instr, hinstr, htarget⟩ := List.any_eq_true.1 hstores
    cases output_targets _ _ l hl instr hinstr _ (of_decide_eq_true htarget)

/-- Few temporaries, however long the chain. The program of a graph declares at most two temporaries
of each shape, their symbols differ, and no loop of the program reads from a temporary that it
stores to. -/
theorem temps_bounded_by_shape {source : String} {g : Graph} {p : Program}
    (hload : (Graph.load source).value = some g) (hlower : g.lower.program = some p) :
    (∀ elem len, p.temps.countP (fun t => t.elem = elem ∧ t.len = len) ≤ 2) ∧
    (p.temps.map Temp.symbol).Nodup ∧
    ∀ l ∈ p.body.loops, ∀ t ∈ p.temps, storesTo t.symbol l.2 = true →
      ∀ instr ∈ l.2, ∀ place ∈ instr.value.places, place.target ≠ .buffer t.symbol := by
  have hg := Graph.wellFormed_of_load hload
  have hwidth := hg.width_lt
  obtain ⟨pl, hplan, rfl⟩ := Graph.exists_plan_of_lower hlower
  have hnamed : (g.programOf pl).storage.Named := (Kernel.main_storage hplan.fits hwidth).1
  exact ⟨Kernel.main_atMostTwo hplan.fits hwidth, hnamed.temps_nodup,
    Graph.programOf_apart hplan.fits hwidth⟩

/-- Two ramps in a row before a fork, colors that are mirrored on one way only, and so a copy on the
other to where the ways meet. -/
def doubledSource : String :=
  "\x7b\"frame_width\":2,\"nodes\":[\x7b\"id\":\"a\",\"kind\":\"RampShape\"\x7d," ++
  "\x7b\"id\":\"b\",\"kind\":\"RampShape\"\x7d," ++
  "\x7b\"id\":\"f\",\"kind\":\"ConditionalFallback\",\"fallback\":[" ++
  "\x7b\"id\":\"d\",\"kind\":\"Colorize\"\x7d]\x7d,\x7b\"id\":\"c\",\"kind\":\"Colorize\"\x7d," ++
  "\x7b\"id\":\"m\",\"kind\":\"Mirror\",\"variant\":\"center_origin\"\x7d," ++
  "\x7b\"id\":\"o\",\"kind\":\"PixelOutput\"\x7d]\x7d"

/-- The program of `doubledSource` needs two temporaries of levels and two of colors, and all that
is said of temporaries holds of it. -/
theorem doubledSource_bounded :
    ∃ g p, (Graph.load doubledSource).value = some g ∧ g.lower.program = some p ∧
      p.temps = [⟨"tmp_f0", .float, 2⟩, ⟨"tmp_f1", .float, 2⟩, ⟨"tmp_rgb0", .rgb, 2⟩,
        ⟨"tmp_rgb1", .rgb, 2⟩] ∧
      (∀ elem len, p.temps.countP (fun t => t.elem = elem ∧ t.len = len) ≤ 2) ∧
      (p.temps.map Temp.symbol).Nodup ∧
      ∀ l ∈ p.body.loops, ∀ t ∈ p.temps, storesTo t.symbol l.2 = true →
        ∀ instr ∈ l.2, ∀ place ∈ instr.value.places, place.target ≠ .buffer t.symbol := by
  have hresult : (Graph.load doubledSource).value.bind
      (fun g => g.lower.program.map Program.temps) =
      some [⟨"tmp_f0", .float, 2⟩, ⟨"tmp_f1", .float, 2⟩, ⟨"tmp_rgb0", .rgb, 2⟩,
        ⟨"tmp_rgb1", .rgb, 2⟩] := by
    decide +kernel
  obtain ⟨g, hload, hg⟩ := Option.bind_eq_some_iff.1 hresult
  obtain ⟨p, hlower, htemps⟩ := Option.map_eq_some_iff.1 hg
  exact ⟨g, p, hload, hlower, htemps, temps_bounded_by_shape hload hlower⟩

end LedPattern
