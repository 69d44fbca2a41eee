import LedPattern.Proofs.Preservation

/-!
# Which programs have an instance

An instance replaces names in the order of text, with one table of locals for the whole program. So
it is as if all loops, those of both ways of a branch too, were one (`Scope.body_leads_iff`), and a
program has an instance exactly if its places exist and if that one loop binds every local before it
reads it (`ofProgram_isOk_iff`).

A loop of the program may then read a local that it does not bind itself, but an earlier loop does
(`Program.Borrows`). This is the only way in which a program with an instance fails to be scoped
loop by loop. What such a loop reads may be as old as the last frame that ran the other one
(`leakyProgram_carries`).
-/

namespace LedPattern

/-! ## Locals and loops -/

/-- Whatever local an instruction reads, one of those before it binds. -/
def Instr.BindsFirst (is : List (Instr Place String)) : Prop :=
  ∀ pre i post, is = pre ++ i :: post → i.value.refs ⊆ pre.filterMap Instr.bound?

/-- A sequence that reads nothing from outside binds every local first. -/
theorem Instr.closed_nil_iff {is : List (Instr Place String)} : Closed [] is ↔ BindsFirst is :=
  closed_iff

namespace Program

/-- Every place in the program's code has an address. -/
def Addressed (p : Program) : Prop :=
  ∀ l ∈ p.body.loops, ∀ i ∈ l.2, ∀ place ∈ i.places,
    ∃ a, Scope.address ⟨p.layout.1, []⟩ place = .ok a

/-- Every loop binds a local before it reads it. -/
def LoopScoped (p : Program) : Prop := ∀ l ∈ p.body.loops, Instr.BindsFirst l.2

/-- A loop reads a local that it has not bound, but a loop before it in the text has. -/
def Borrows (p : Program) : Prop :=
  ∃ earlier l later pre i post, ∃ name ∈ i.value.refs,
    p.body.loops = earlier ++ l :: later ∧ l.2 = pre ++ i :: post ∧
      name ∉ pre.filterMap Instr.bound? ∧
      name ∈ (earlier.flatMap Prod.snd).filterMap Instr.bound?

variable {p : Program}

/-- A program has an instance exactly if its places have addresses and if its instructions, all
loops in a row, bind every local before they read it. -/
theorem ofProgram_isOk_iff : (∃ x, Instance.ofProgram p = .ok x) ↔
    p.Addressed ∧ Instr.BindsFirst (p.body.loops.flatMap Prod.snd) := by
  have hbody : (∃ x, Instance.ofProgram p = .ok x) ↔
      ∃ t, Scope.Leads ⟨p.layout.1, []⟩ (p.body.loops.flatMap Prod.snd) t := by
    simp only [Instance.ofProgram_eq, ← Scope.body_leads_iff]
    constructor
    · rintro ⟨x, hx⟩
      obtain ⟨⟨t, code⟩, hcode, -⟩ := Except.bind_eq_ok_iff.1 hx
      exact ⟨t, code, hcode⟩
    · rintro ⟨t, code, hcode⟩
      exact ⟨_, Except.bind_eq_ok_iff.2 ⟨_, hcode, rfl⟩⟩
  rw [hbody, Scope.exists_leads_iff, Instr.closed_nil_iff]
  simp only [Addressed, List.mem_flatMap, forall_exists_index, and_imp]
  exact and_congr_left fun _ => ⟨fun h l hl i hi => h i l hl hi, fun h i l hl hi => h l hl i hi⟩

/-- If all loops in a row bind locals first, then each of them does unless one borrows. -/
theorem loopScoped_iff (h : Instr.BindsFirst (p.body.loops.flatMap Prod.snd)) :
    p.LoopScoped ↔ ¬p.Borrows := by
  constructor
  · rintro hscoped ⟨earlier, l, later, pre, i, post, name, hname, hloops, hbody, hnew, -⟩
    have hl : l ∈ p.body.loops := by simp [hloops]
    exact hnew (hscoped l hl pre i post hbody hname)
  · intro hnone l hl pre i post hbody name hname
    obtain ⟨earlier, later, hloops⟩ := List.append_of_mem hl
    have hrow : p.body.loops.flatMap Prod.snd =
        (earlier.flatMap Prod.snd ++ pre) ++ i :: (post ++ later.flatMap Prod.snd) := by
      simp [hloops, hbody]
    have hbound := h _ i _ hrow hname
    rw [List.filterMap_append, List.mem_append] at hbound
    by_contra hnew
    exact hnone ⟨earlier, l, later, pre, i, post, name, hname, hloops, hbody, hnew,
      hbound.resolve_right hnew⟩

end Program

/-- A program has an instance exactly if its places have addresses and if every local is bound
before it is read in the order of text, whatever loops this happens in. Its locals are then scoped
to their loops exactly if no loop borrows one. -/
theorem instance_locals (p : Program) :
    ((∃ x, Instance.ofProgram p = .ok x) ↔
      p.Addressed ∧ Instr.BindsFirst (p.body.loops.flatMap Prod.snd)) ∧
    ((∃ x, Instance.ofProgram p = .ok x) ∧ p.LoopScoped ↔
      p.Addressed ∧ Instr.BindsFirst (p.body.loops.flatMap Prod.snd) ∧ ¬p.Borrows) := by
  refine ⟨Program.ofProgram_isOk_iff, ?_⟩
  rw [Program.ofProgram_isOk_iff, and_assoc]
  refine and_congr_right fun _ => and_congr_right fun hfirst => ?_
  exact Program.loopScoped_iff hfirst

/-- A program that binds a local when there is sound and shows it on every frame. -/
def leakyProgram : Program where
  function := "leaky"
  frameWidth := 1
  slots := []
  temps := []
  body :=
    .branch .audioPresent (.loop 1 [.bind "v" (.const 1)] .done) .done <|
    .loop 1 (Channel.all.map fun c => .store ⟨.out, .counter, some c⟩ (.ref "v")) .done

/-- A program whose last loop reads a local that it does not bind has an instance. On a frame
without sound it shows what a frame before left, and it has no states that could say so. -/
theorem leakyProgram_carries : ¬leakyProgram.LoopScoped ∧
    ∃ sim loud, Simulator.ofProgram leakyProgram = .ok sim ∧ sim.render loudFrame = .ok loud ∧
      loud.state.arena = sim.state.arena ∧
      (sim.step silentFrame).1.pixels ≠ (loud.step silentFrame).1.pixels := by
  constructor
  · intro hscoped
    have hread := hscoped (1, Channel.all.map fun c => .store ⟨.out, .counter, some c⟩ (.ref "v"))
      (by simp [leakyProgram, Block.loops]) [] _ _ rfl
    exact absurd (hread List.mem_cons_self) (by simp)
  · exact ⟨_, _, rfl, rfl, rfl, by decide +kernel⟩

end LedPattern
