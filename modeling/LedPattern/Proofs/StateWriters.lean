import LedPattern.Proofs.Obligations
import Mathlib.Algebra.Order.Ring.Nat

/-!
# Which programs pass the check of their states

The check of states promises that on no path two loops write one slot. `Block.Path` says what a path
is: the bodies of the loops that are run when every branch goes one of its two ways. The check adds
up writers along a sequence and takes the larger number of the two ways of a branch, so that it
finds the number of writers on the path that has most (`slotWrites_le_iff`).

It counts runs of stores and not loops. A loop that stores to a slot, then to another one, and then
to the first one again (`Program.ReturnsToSlot`) counts twice for that slot. So the check is passed
exactly by the programs that keep the promise and have no such loop (`singleStateWriter_iff`).
-/

namespace LedPattern

/-- The bodies of the loops that are run on one path through a sequence of statements. At every
branch the path goes one of the two ways, whatever the test. -/
inductive Block.Path {P L : Type} : Block P L → List (List (Instr P L)) → Prop where
  | done : Path .done []
  | note {text : String} {rest : Block P L} {path : List (List (Instr P L))}
      (h : Path rest path) : Path (.note text rest) path
  | loop {count : Nat} {body : List (Instr P L)} {rest : Block P L}
      {path : List (List (Instr P L))} (h : Path rest path) :
      Path (.loop count body rest) (body :: path)
  | yes {test : Test} {yes no rest : Block P L} {way path : List (List (Instr P L))}
      (hway : Path yes way) (h : Path rest path) : Path (.branch test yes no rest) (way ++ path)
  | no {test : Test} {yes no rest : Block P L} {way path : List (List (Instr P L))}
      (hway : Path no way) (h : Path rest path) : Path (.branch test yes no rest) (way ++ path)

namespace Program

/-- On every path, each slot is stored to by at most one loop. -/
def SingleWriter (p : Program) : Prop :=
  ∀ path, p.body.Path path → ∀ slot ∈ p.slots, path.countP (storesTo slot.symbol) ≤ 1

/-- The body of a loop stores to a slot again after it has stored to another one. -/
def ReturnsToSlot (p : Program) (body : List (Instr Place String)) : Prop :=
  ∃ a b, a ≠ b ∧ [a, b, a].Sublist (body.filterMap p.storedSlot?)

/-! ## One loop -/

/-- Erasing repeats loses no element. -/
theorem mem_eraseReps {a : String} {l : List String} : a ∈ l.eraseReps ↔ a ∈ l := by
  refine ⟨fun h => eraseReps_subset l h, fun h => ?_⟩
  induction l with
  | nil => exact h
  | cons b l ih =>
    cases l with
    | nil => exact h
    | cons c rest =>
      rw [eraseReps_cons_cons]
      split
      · next heq =>
        refine ih ?_
        rcases List.mem_cons.1 h with rfl | h
        · exact heq ▸ List.mem_cons_self
        · exact h
      · rcases List.mem_cons.1 h with rfl | h
        · exact List.mem_cons_self
        · exact List.mem_cons_of_mem b (ih h)

/-- An element has one run exactly if no other element stands between two of its occurrences. -/
theorem count_eraseReps_le_one {a : String} {l : List String} :
    l.eraseReps.count a ≤ 1 ↔ ∀ b ≠ a, ¬[a, b, a].Sublist l := by
  induction l with
  | nil => simp [List.eraseReps, List.eraseRepsBy]
  | cons x l ih =>
    cases l with
    | nil =>
      have hshort : ∀ b, ¬[a, b, a].Sublist [x] := by
        intro b h
        have hlength := h.length_le
        simp at hlength
      have hcount : [x].count a ≤ [x].length := List.count_le_length
      exact ⟨fun _ b _ => hshort b, fun _ => hcount⟩
    | cons y rest =>
      rw [eraseReps_cons_cons]
      split
      · next hxy =>
        -- The first of two equal elements adds nothing: what follows it is no `b`.
        subst hxy
        rw [ih]
        refine forall₂_congr fun b hb => not_congr ⟨fun h => h.cons x, fun h => ?_⟩
        cases h with
        | cons _ h => exact h
        | cons_cons _ h =>
          cases h with
          | cons _ h => exact h.cons_cons a
          | cons_cons _ _ => exact absurd rfl hb
      · next hne =>
        by_cases hx : x = a
        · subst hx
          -- Another run of the first element is one behind the second element.
          have hzero : (y :: rest).eraseReps.count x + 1 ≤ 1 ↔ x ∉ y :: rest := by
            rw [← mem_eraseReps, ← List.count_eq_zero]
            omega
          rw [List.count_cons_self, hzero]
          constructor
          · intro hnot b _ h
            cases h with
            | cons _ h => exact hnot (h.subset List.mem_cons_self)
            | cons_cons _ h => exact hnot (h.subset (by simp))
          · intro hnone hmem
            rcases List.mem_cons.1 hmem with heq | hrest
            · exact hne heq
            · exact hnone y (Ne.symm hne)
                (((List.singleton_sublist.2 hrest).cons_cons y).cons_cons x)
        · rw [List.count_cons_of_ne hx, ih]
          refine forall₂_congr fun b _ => not_congr ⟨fun h => h.cons x, fun h => ?_⟩
          cases h with
          | cons _ h => exact h
          | cons_cons _ _ => exact absurd rfl hx

variable {p : Program} {symbol : String}

/-- The symbols under which slots are found are theirs. -/
theorem slot?_isSome_iff : (p.slot? symbol).isSome ↔ ∃ slot ∈ p.slots, slot.symbol = symbol := by
  simp [slot?]

/-- A loop counts as a writer of a slot exactly if it stores to it. -/
theorem loopWrites_pos_iff {slot : Slot} (hslot : slot ∈ p.slots)
    {body : List (Instr Place String)} :
    0 < p.loopWrites slot.symbol body ↔ storesTo slot.symbol body = true := by
  have hsome := slot?_isSome_iff.2 ⟨slot, hslot, rfl⟩
  rw [loopWrites, List.count_pos_iff, mem_eraseReps, List.mem_filterMap, storesTo,
    List.any_eq_true]
  simp only [storedSlot?_eq_some_iff, hsome, and_true, decide_eq_true_eq]

/-- A loop counts at most once for every slot exactly if it returns to none. -/
theorem loopWrites_le_one_iff {body : List (Instr Place String)} :
    (∀ slot ∈ p.slots, p.loopWrites slot.symbol body ≤ 1) ↔ ¬p.ReturnsToSlot body := by
  simp only [loopWrites, count_eraseReps_le_one]
  constructor
  · rintro hslots ⟨a, b, hne, hsub⟩
    -- Only slots occur among the symbols, so that `a` is one.
    obtain ⟨instr, -, hstored⟩ := List.mem_filterMap.1 (hsub.subset List.mem_cons_self)
    obtain ⟨slot, hslot, rfl⟩ := slot?_isSome_iff.1 (storedSlot?_eq_some_iff.1 hstored).2
    exact hslots slot hslot b hne.symm hsub
  · intro hnone slot _ b hne hsub
    exact hnone ⟨slot.symbol, b, hne.symm, hsub⟩

/-! ## All paths -/

/-- On no path are there more writers than the check finds. -/
theorem sum_le_slotWrites {b : Body} {path : List (List (Instr Place String))} (h : b.Path path) :
    (path.map (p.loopWrites symbol)).sum ≤ p.slotWrites symbol b := by
  induction h with
  | done => exact Nat.le_refl _
  | note _ ih => exact ih
  | loop _ ih =>
    rw [List.map_cons, List.sum_cons, slotWrites]
    omega
  | yes _ _ ihway ih =>
    rw [List.map_append, List.sum_append, slotWrites]
    omega
  | no _ _ ihway ih =>
    rw [List.map_append, List.sum_append, slotWrites]
    omega

/-- On some path there are as many writers as the check finds. -/
theorem exists_path_sum_eq (p : Program) (symbol : String) (b : Body) :
    ∃ path, b.Path path ∧ (path.map (p.loopWrites symbol)).sum = p.slotWrites symbol b := by
  induction b with
  | done => exact ⟨[], .done, rfl⟩
  | note text rest ih =>
    obtain ⟨path, hpath, hsum⟩ := ih
    exact ⟨path, .note hpath, hsum⟩
  | loop count body rest ih =>
    obtain ⟨path, hpath, hsum⟩ := ih
    refine ⟨body :: path, .loop hpath, ?_⟩
    rw [List.map_cons, List.sum_cons, hsum, slotWrites]
  | branch test yes no rest ihyes ihno ih =>
    obtain ⟨path, hpath, hsum⟩ := ih
    obtain ⟨left, hleft, hleftSum⟩ := ihyes
    obtain ⟨right, hright, hrightSum⟩ := ihno
    -- The path goes the way that has more writers.
    rcases Nat.le_total (p.slotWrites symbol yes) (p.slotWrites symbol no) with hle | hle
    · refine ⟨right ++ path, .no hright hpath, ?_⟩
      rw [List.map_append, List.sum_append, hrightSum, hsum, slotWrites, Nat.max_eq_right hle]
    · refine ⟨left ++ path, .yes hleft hpath, ?_⟩
      rw [List.map_append, List.sum_append, hleftSum, hsum, slotWrites, Nat.max_eq_left hle]

/-- The check finds the number of writers on the path that has most. -/
theorem slotWrites_le_iff {b : Body} {n : Nat} :
    p.slotWrites symbol b ≤ n ↔
      ∀ path, b.Path path → (path.map (p.loopWrites symbol)).sum ≤ n := by
  constructor
  · intro h path hpath
    exact Nat.le_trans (sum_le_slotWrites hpath) h
  · intro h
    obtain ⟨path, hpath, hsum⟩ := exists_path_sum_eq p symbol b
    rw [← hsum]
    exact h path hpath

end Program

namespace Block

variable {P L : Type}

/-- There is a path through every sequence. -/
theorem exists_path (b : Block P L) : ∃ path, b.Path path := by
  induction b with
  | done => exact ⟨[], .done⟩
  | note _ _ ih =>
    obtain ⟨path, hpath⟩ := ih
    exact ⟨path, .note hpath⟩
  | loop count body _ ih =>
    obtain ⟨path, hpath⟩ := ih
    exact ⟨body :: path, .loop hpath⟩
  | branch _ _ _ _ ihyes _ ih =>
    obtain ⟨way, hway⟩ := ihyes
    obtain ⟨path, hpath⟩ := ih
    exact ⟨way ++ path, .yes hway hpath⟩

/-- A path leads through every loop. -/
theorem exists_path_of_mem_loops {b : Block P L} {l : Nat × List (Instr P L)} (hl : l ∈ b.loops) :
    ∃ path, b.Path path ∧ l.2 ∈ path := by
  induction b with
  | done => cases hl
  | note _ _ ih =>
    obtain ⟨path, hpath, hmem⟩ := ih hl
    exact ⟨path, .note hpath, hmem⟩
  | loop count body rest ih =>
    rcases List.mem_cons.1 hl with rfl | hl
    · obtain ⟨path, hpath⟩ := rest.exists_path
      exact ⟨body :: path, .loop hpath, List.mem_cons_self⟩
    · obtain ⟨path, hpath, hmem⟩ := ih hl
      exact ⟨body :: path, .loop hpath, List.mem_cons_of_mem body hmem⟩
  | branch test yes no rest ihyes ihno ih =>
    rw [loops, List.mem_append, List.mem_append] at hl
    -- The path goes the way that the loop is on, and any way if it is on neither.
    rcases hl with (hl | hl) | hl
    · obtain ⟨way, hway, hmem⟩ := ihyes hl
      obtain ⟨path, hpath⟩ := rest.exists_path
      exact ⟨way ++ path, .yes hway hpath, List.mem_append_left path hmem⟩
    · obtain ⟨way, hway, hmem⟩ := ihno hl
      obtain ⟨path, hpath⟩ := rest.exists_path
      exact ⟨way ++ path, .no hway hpath, List.mem_append_left path hmem⟩
    · obtain ⟨way, hway⟩ := yes.exists_path
      obtain ⟨path, hpath, hmem⟩ := ih hl
      exact ⟨way ++ path, .yes hway hpath, List.mem_append_right way hmem⟩

/-- A path leads through loops of the sequence only. -/
theorem Path.subset_loops {b : Block P L} {path : List (List (Instr P L))} (h : b.Path path) :
    path ⊆ b.loops.map Prod.snd := by
  induction h with
  | done => exact List.nil_subset _
  | note _ ih => exact ih
  | loop _ ih => exact List.cons_subset_cons _ ih
  | yes _ _ ihway ih =>
    rw [loops, List.map_append, List.map_append, List.append_assoc]
    exact List.append_subset.2 ⟨fun _ hb => List.mem_append_left _ (ihway hb),
      fun _ hb => List.mem_append_right _ (List.mem_append_right _ (ih hb))⟩
  | no _ _ ihway ih =>
    rw [loops, List.map_append, List.map_append, List.append_assoc]
    exact List.append_subset.2
      ⟨fun _ hb => List.mem_append_right _ (List.mem_append_left _ (ihway hb)),
        fun _ hb => List.mem_append_right _ (List.mem_append_right _ (ih hb))⟩

end Block

/-- A sum of numbers is at most one exactly if none is larger and at most one is not zero. -/
theorem sum_le_one_iff {α : Type} (f : α → Nat) (l : List α) :
    (l.map f).sum ≤ 1 ↔ l.countP (fun a => 0 < f a) ≤ 1 ∧ ∀ a ∈ l, f a ≤ 1 := by
  induction l with
  | nil => simp
  | cons a l ih =>
    have hzero : (l.map f).sum = 0 ↔ l.countP (fun a => 0 < f a) = 0 := by
      simp [List.sum_eq_zero_iff_forall_eq_nat, List.countP_eq_zero]
    rw [List.map_cons, List.sum_cons, List.countP_cons, List.forall_mem_cons]
    by_cases hpos : 0 < f a
    · simp only [hpos, decide_true, if_true]
      constructor
      · intro h
        have hsum : (l.map f).sum = 0 := by omega
        have hle := (ih.1 (by omega)).2
        exact ⟨by omega, by omega, hle⟩
      · rintro ⟨hcount, ha, -⟩
        have hsum := hzero.2 (by omega)
        omega
    · simp only [hpos, decide_false, Bool.false_eq_true, if_false]
      have ha : f a = 0 := by omega
      simp only [ha, Nat.zero_add, Nat.add_zero, Nat.zero_le, true_and]
      exact ih

/-- The check of states is passed exactly by the programs in which, on every path, each slot is
stored to by at most one loop, and in which no loop returns to a slot after it has stored to
another one. -/
theorem singleStateWriter_iff (p : Program) : p.certificate.singleStateWriter = true ↔
    p.SingleWriter ∧ ∀ l ∈ p.body.loops, ¬p.ReturnsToSlot l.2 := by
  have hcheck : p.certificate.singleStateWriter = true ↔ ∀ slot ∈ p.slots, ∀ path,
      p.body.Path path → (path.map (p.loopWrites slot.symbol)).sum ≤ 1 := by
    simp only [Program.certificate, List.all_eq_true, decide_eq_true_eq, Program.slotWrites_le_iff]
  have hcount : ∀ slot ∈ p.slots, ∀ path : List (List (Instr Place String)),
      path.countP (fun body => 0 < p.loopWrites slot.symbol body) =
        path.countP (storesTo slot.symbol) := by
    intro slot hslot path
    refine List.countP_congr fun body _ => ?_
    rw [decide_eq_true_eq]
    exact Program.loopWrites_pos_iff hslot
  rw [hcheck]
  constructor
  · intro h
    refine ⟨fun path hpath slot hslot => ?_, fun l hl => ?_⟩
    · rw [← hcount slot hslot]
      exact ((sum_le_one_iff _ _).1 (h slot hslot path hpath)).1
    · obtain ⟨path, hpath, hmem⟩ := Block.exists_path_of_mem_loops hl
      refine Program.loopWrites_le_one_iff.1 fun slot hslot => ?_
      exact ((sum_le_one_iff _ _).1 (h slot hslot path hpath)).2 l.2 hmem
  · rintro ⟨hsingle, hnone⟩ slot hslot path hpath
    refine (sum_le_one_iff _ _).2 ⟨?_, fun body hbody => ?_⟩
    · rw [hcount slot hslot]
      exact hsingle path hpath slot hslot
    · obtain ⟨l, hloop, rfl⟩ := List.mem_map.1 (hpath.subset_loops hbody)
      exact Program.loopWrites_le_one_iff.2 (hnone l hloop) slot hslot

/-- A program whose first loop alone writes its two slots, the first of them before and after the
second. -/
def braidedProgram : Program where
  function := "braided"
  frameWidth := 1
  slots := [⟨"a", "a", 1⟩, ⟨"b", "b", 1⟩]
  temps := []
  body :=
    .loop 1
      [.store ⟨.buffer "a", .counter, none⟩ (.const 1),
        .store ⟨.buffer "b", .counter, none⟩ (.const 1),
        .store ⟨.buffer "a", .counter, none⟩ (.const 1)] <|
    .loop 1
      (Channel.all.map fun c =>
        .store ⟨.out, .counter, some c⟩ (.load ⟨.buffer "a", .counter, none⟩))
      .done

/-- In `braidedProgram` no slot has two loops that store to it, and yet the check of states fails,
the only one of the four. -/
theorem braidedProgram_rejected : braidedProgram.SingleWriter ∧
    braidedProgram.certificate = ⟨true, true, true, false⟩ := by
  refine ⟨fun path hpath => ?_, by decide⟩
  cases hpath with
  | loop hrest =>
    cases hrest with
    | loop hend =>
      cases hend
      decide

end LedPattern
