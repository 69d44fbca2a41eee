import LedPattern.Proofs.SlotLoops

/-!
# Emitted programs keep their obligations

The program of a plan whose stages fit passes all four checks of its certificate
(`certificate_allPass`). The checks of places follow from `Kernel.main_runs`, and the check of the
output from the fact that no other loop of the code stores to the pixels.

The check of slots counts writers on a path. There are no more of them than loops that store to the
slot (`Program.slotWrites_le_countP`), and by `exists_slot_loop` there is one.
-/

namespace LedPattern

namespace Program

variable {p : Program}

/-- A declared buffer is found under its symbol with its length. -/
theorem targetLength?_eq (hp : p.storage.symbols.Nodup) {b : Buffer} (hb : p.storage.Declares b) :
    p.targetLength? (.buffer b.symbol) = some b.len := by
  unfold targetLength?
  rcases hb with htemp | ⟨-, slot, hslot, hsymbol, hlen⟩
  · have hfound : p.temp? b.symbol = _ := temp?_eq_some hp htemp
    simp only [hfound]
  · dsimp only
    rw [← hsymbol, temp?_slot hp hslot, slot?_eq_some hp hslot, ← hlen]
    rfl

/-- The loops of a program that run pass the checks of their places. -/
theorem instrFits_of_runs (hp : p.storage.symbols.Nodup) {l : Nat × List (Instr Place String)}
    (hl : p.storage.Runs l) : ∀ instr ∈ l.2, p.instrFits l.1 instr = true := by
  intro instr hinstr
  simp only [instrFits, Bool.and_eq_true, List.all_eq_true]
  refine ⟨fun place hplace => ?_, hl.bins instr hinstr⟩
  obtain ⟨b, hb, htarget, -, hfits⟩ := hl.placed instr hinstr place hplace
  rw [placeFits, htarget, targetLength?_eq hp hb]
  exact hfits

/-- A declared buffer passes the check for one. -/
theorem declares_place (hp : p.storage.symbols.Nodup) {b : Buffer} (hb : p.storage.Declares b)
    {place : Place} (htarget : place.target = .buffer b.symbol) : p.declares place = true := by
  simp only [declares, htarget, Bool.or_eq_true, Option.isSome_iff_exists]
  rcases hb with htemp | ⟨-, slot, hslot, hsymbol, -⟩
  · exact .inl ⟨_, temp?_eq_some hp htemp⟩
  · rw [← hsymbol]
    exact .inr ⟨_, slot?_eq_some hp hslot⟩

/-- The loops of a program that run name declared buffers. -/
theorem declares_of_runs (hp : p.storage.symbols.Nodup) {l : Nat × List (Instr Place String)}
    (hl : p.storage.Runs l) : ∀ instr ∈ l.2, instr.places.all p.declares = true := by
  intro instr hinstr
  rw [List.all_eq_true]
  intro place hplace
  obtain ⟨b, hb, htarget, -, -⟩ := hl.placed instr hinstr place hplace
  exact declares_place hp hb htarget

/-- A loop that runs on declared buffers stores no pixel. -/
theorem not_storesOut_of_runs {s : Storage} {l : Nat × List (Instr Place String)}
    (hl : s.Runs l) : l.2.any Instr.storesOut = false := by
  rw [List.any_eq_false]
  intro instr hinstr
  cases instr with
  | bind => simp [Instr.storesOut]
  | store place value =>
    obtain ⟨b, -, htarget, -, -⟩ := hl.placed _ hinstr place (by simp [Instr.places])
    simp [Instr.storesOut, htarget]

/-- What has been passed stays in front while repeats are erased. -/
theorem eraseRepsBy_loop (r : String → String → Bool) (a : String) (l passed : List String) :
    List.eraseRepsBy.loop r a l passed = passed.reverse ++ List.eraseRepsBy.loop r a l [] := by
  induction l generalizing a passed with
  | nil => simp [List.eraseRepsBy.loop]
  | cons b rest ih =>
    rw [List.eraseRepsBy.loop, List.eraseRepsBy.loop]
    cases r a b with
    | true => exact ih a passed
    | false =>
      dsimp only
      rw [ih b (a :: passed), ih b [a]]
      simp

/-- Erasing repeats drops the first of two equal elements. -/
theorem eraseReps_cons_cons (a b : String) (l : List String) :
    (a :: b :: l).eraseReps = if a = b then (b :: l).eraseReps else a :: (b :: l).eraseReps := by
  simp only [List.eraseReps, List.eraseRepsBy, List.eraseRepsBy.loop]
  split
  · next heq =>
    obtain rfl := eq_of_beq heq
    rw [if_pos rfl]
  · next hne =>
    rw [if_neg fun h => absurd (beq_iff_eq.2 h) (by simp [hne]), eraseRepsBy_loop]
    rfl

/-- Erasing repeats adds no element. -/
theorem eraseReps_subset (l : List String) : l.eraseReps ⊆ l := by
  induction l with
  | nil => exact List.Subset.refl _
  | cons a l ih =>
    cases l with
    | nil => exact List.Subset.refl _
    | cons b rest =>
      rw [eraseReps_cons_cons]
      split
      · exact List.subset_cons_of_subset _ ih
      · exact List.cons_subset_cons _ ih

/-- Of a list of equal elements at most one is left. -/
theorem length_eraseReps_le {a : String} {l : List String} (h : ∀ x ∈ l, x = a) :
    l.eraseReps.length ≤ 1 := by
  induction l with
  | nil => exact Nat.zero_le 1
  | cons b l ih =>
    cases l with
    | nil => exact Nat.le_refl 1
    | cons c rest =>
      have hbc : b = c := (h b (by simp)).trans (h c (by simp)).symm
      rw [eraseReps_cons_cons, if_pos hbc]
      exact ih fun x hx => h x (List.mem_cons_of_mem _ hx)

variable {symbol : String}

/-- Stores to other places do not count as writers. -/
theorem loopWrites_eq_zero {body : List (Instr Place String)}
    (h : ∀ instr ∈ body, p.storedSlot? instr ≠ some symbol) : p.loopWrites symbol body = 0 := by
  rw [loopWrites, List.count_eq_zero]
  intro hmem
  obtain ⟨instr, hinstr, hstored⟩ := List.mem_filterMap.1 (eraseReps_subset _ hmem)
  exact h instr hinstr hstored

/-- A loop that does not store to a buffer is no writer of it. -/
theorem loopWrites_of_not_storesTo {body : List (Instr Place String)}
    (h : ¬storesTo symbol body = true) : p.loopWrites symbol body = 0 := by
  refine loopWrites_eq_zero fun instr hinstr hstored => h (List.any_eq_true.2 ⟨instr, hinstr, ?_⟩)
  exact decide_eq_true (storedSlot?_eq_some_iff.1 hstored).1

/-- The loop of a slot counts at most once, as it stores to nothing else. -/
theorem loopWrites_le_one {s : Storage} {slot : Slot} {l : Nat × List (Instr Place String)}
    (h : slot.KeptBy s l) : p.loopWrites symbol l.2 ≤ 1 := by
  refine Nat.le_trans List.count_le_length (length_eraseReps_le (a := slot.symbol) ?_)
  intro x hx
  obtain ⟨instr, hinstr, hstored⟩ := List.mem_filterMap.1 hx
  refine (h.stores x).1 (List.any_eq_true.2 ⟨instr, hinstr, ?_⟩)
  exact decide_eq_true (storedSlot?_eq_some_iff.1 hstored).1

/-- There are no more writers on a path than loops that store to the buffer, if each of them counts
once. -/
theorem slotWrites_le_countP {code : Body}
    (h : ∀ l ∈ code.loops, p.loopWrites symbol l.2 ≤ 1) :
    p.slotWrites symbol code ≤ code.loops.countP fun l => storesTo symbol l.2 := by
  induction code with
  | done => exact Nat.le_refl 0
  | note _ _ ih => exact ih h
  | loop count body rest ih =>
    rw [Block.loops, List.forall_mem_cons] at h
    have hfirst : p.loopWrites symbol body ≤ 1 := h.1
    have hrest := ih h.2
    rw [slotWrites, Block.loops, List.countP_cons]
    by_cases hstores : storesTo symbol body = true
    · rw [if_pos hstores]
      omega
    · rw [if_neg hstores, loopWrites_of_not_storesTo hstores]
      omega
  | branch _ yes no rest ihyes ihno ihrest =>
    rw [Block.loops, List.forall_mem_append, List.forall_mem_append] at h
    have hyes := ihyes h.1.1
    have hno := ihno h.1.2
    have hrest := ihrest h.2
    rw [slotWrites, Block.loops, List.countP_append, List.countP_append]
    omega

end Program

namespace Graph

variable {g : Graph} {pl : Plan}

/-- The loops of a graph's program that no branch encloses. -/
theorem topLoops_programOf (g : Graph) (pl : Plan) :
    (g.programOf pl).body.topLoops = (Kernel.main g.frameWidth pl).code.topLoops ++
      (Kernel.output (Kernel.main g.frameWidth pl).buffer g.frameWidth).topLoops := by
  simp [programOf, Kernel.plan_eq, Kernel.note, Block.topLoops]

/-- The places that the output touches: the pixels, and the colors of the last buffer. -/
theorem output_places (src : Buffer) (width : Nat) :
    ∀ l ∈ (Kernel.output src width).loops, l.1 = width ∧ ∀ instr ∈ l.2, instr.value.bins = [] ∧
      ∀ place ∈ instr.places, ∃ c, place = ⟨.out, .counter, some c⟩ ∨
        place = Kernel.place src .counter (some c) := by
  intro l hl
  simp only [Kernel.output, Kernel.loop, Block.loops, List.mem_singleton] at hl
  subst hl
  refine ⟨rfl, fun instr hinstr => ?_⟩
  rcases List.mem_cons.1 hinstr with rfl | hinstr
  · exact ⟨rfl, by simp [Instr.places, Expr.places]⟩
  · obtain ⟨c, -, rfl⟩ := List.mem_map.1 hinstr
    refine ⟨rfl, fun place hplace => ⟨c, ?_⟩⟩
    simpa [Instr.places, Expr.places, Kernel.load] using hplace

/-- Every loop of the program of a plan that fits finds its places. -/
theorem programOf_fits (h : pl.Fits g.frameWidth none) (hwidth : g.frameWidth < Index.limit) :
    ∀ l ∈ (g.programOf pl).body.loops, ∀ instr ∈ l.2, (g.programOf pl).instrFits l.1 instr = true ∧
      instr.places.all (g.programOf pl).declares = true := by
  obtain ⟨hnamed, hholds⟩ := Kernel.main_storage h hwidth
  have hp : (g.programOf pl).storage.symbols.Nodup := hnamed.symbols_nodup
  obtain ⟨hdecl, -, hlen, -⟩ := Storage.holds_some.1 hholds
  intro l hl instr hinstr
  rw [loops_programOf, List.mem_append] at hl
  rcases hl with hl | hl
  · have hruns : (g.programOf pl).storage.Runs l := Kernel.main_runs h hwidth l hl
    exact ⟨Program.instrFits_of_runs hp hruns instr hinstr,
      Program.declares_of_runs hp hruns instr hinstr⟩
  · obtain ⟨hcount, hinstrs⟩ := output_places _ _ l hl
    obtain ⟨hbins, hplaces⟩ := hinstrs instr hinstr
    have hcounter : Index.counter.fits g.frameWidth g.frameWidth = true :=
      Index.fits_counter (Nat.le_refl _)
    -- Colors come from the last buffer, which is as long as the strip.
    have hlength := Program.targetLength?_eq hp hdecl
    rw [hlen] at hlength
    simp only [Program.instrFits, hbins, Bool.and_eq_true, List.all_eq_true, List.not_mem_nil,
      false_imp_iff, implies_true, and_true, hcount]
    refine ⟨fun place hplace => ?_, fun place hplace => ?_⟩
    · obtain ⟨c, rfl | rfl⟩ := hplaces place hplace
      · exact hcounter
      · rw [Program.placeFits, Kernel.place, hlength]
        exact hcounter
    · obtain ⟨c, rfl | rfl⟩ := hplaces place hplace
      · rfl
      · exact Program.declares_place hp hdecl rfl

/-- The output is the only loop that stores pixels, and it stores them all. -/
theorem programOf_terminal (h : pl.Fits g.frameWidth none) (hwidth : g.frameWidth < Index.limit) :
    (g.programOf pl).terminalCoversFrame = true := by
  have hquiet : ∀ l ∈ (Kernel.main g.frameWidth pl).code.loops, l.2.any Instr.storesOut = false :=
    fun l hl => Program.not_storesOut_of_runs (Kernel.main_runs h hwidth l hl)
  have hloops : (Kernel.main g.frameWidth pl).code.loops.filter
      (fun l => l.2.any Instr.storesOut) = [] :=
    List.filter_eq_nil_iff.2 fun l hl => by simp [hquiet l hl]
  have htop : (Kernel.main g.frameWidth pl).code.topLoops.filter
      (fun l => l.2.any Instr.storesOut) = [] :=
    List.filter_eq_nil_iff.2 fun l hl => by simp [hquiet l ((Block.topLoops_sublist _).subset hl)]
  unfold Program.terminalCoversFrame
  dsimp only
  rw [topLoops_programOf, loops_programOf, List.filter_append, List.filter_append, hloops, htop]
  simp [Kernel.output, Kernel.loop, Block.loops, Block.topLoops, Channel.all, Instr.storesOut,
    Program.coversChannel, programOf]

/-- Every slot of the program of a plan that fits has at most one writer. -/
theorem programOf_writes (h : pl.Fits g.frameWidth none) (hwidth : g.frameWidth < Index.limit)
    {slot : Slot} (hslot : slot ∈ (g.programOf pl).slots) :
    (g.programOf pl).slotWrites slot.symbol (g.programOf pl).body ≤ 1 := by
  obtain ⟨l, hfilter, hkept⟩ := exists_slot_loop h hwidth hslot
  have honce : ∀ m ∈ (g.programOf pl).body.loops,
      (g.programOf pl).loopWrites slot.symbol m.2 ≤ 1 := by
    intro m hm
    by_cases hstores : storesTo slot.symbol m.2 = true
    · -- The loop of the slot is the only one that stores to it.
      have hmem : m ∈ [l] := hfilter ▸ List.mem_filter.2 ⟨hm, hstores⟩
      rw [List.mem_singleton.1 hmem]
      exact Program.loopWrites_le_one hkept
    · rw [Program.loopWrites_of_not_storesTo hstores]
      omega
  calc (g.programOf pl).slotWrites slot.symbol (g.programOf pl).body
      ≤ (g.programOf pl).body.loops.countP fun m => storesTo slot.symbol m.2 :=
        Program.slotWrites_le_countP honce
    _ = [l].length := by rw [List.countP_eq_length_filter, hfilter]
    _ ≤ 1 := Nat.le_refl 1

/-- The program of a plan that fits passes all checks. -/
theorem certificate_allPass (h : pl.Fits g.frameWidth none) (hwidth : g.frameWidth < Index.limit) :
    (g.programOf pl).certificate.allPass = true := by
  have hfits := programOf_fits h hwidth
  simp only [Certificate.allPass, Program.certificate, programOf_terminal h hwidth, Bool.true_and,
    Bool.and_eq_true, List.all_eq_true, decide_eq_true_eq]
  refine ⟨⟨fun l hl instr hinstr => (hfits l hl instr hinstr).1, fun l hl instr hinstr => ?_⟩,
    fun slot hslot => programOf_writes h hwidth hslot⟩
  exact List.all_eq_true.1 (hfits l hl instr hinstr).2

end Graph

end LedPattern
