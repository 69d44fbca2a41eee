import LedPattern.Proofs.Rendering
import LedPattern.Proofs.States

/-!
# Programs of graphs are sound

The program of a graph that can be loaded and planned is `Sound` (`Graph.programOf_sound`), so that
every instance of it renders without a fault. Besides a plan and a width that is a word, this only
takes that no two nodes with a state share an identifier (`programOf_sound_of_states`). Most of it
has been shown for the code of a plan: its names differ, its places exist, and its locals are bound
before they are read. What is left is that it reads the audio signal only on the first way of a
branch (`main_quiet`), and that the output, too, finds its names.
-/

namespace LedPattern

namespace Block.Quiet

variable {P L : Type} {a b : Block P L}

/-- One quiet sequence after another is quiet. -/
theorem append (ha : a.Quiet) (hb : b.Quiet) : (a ++ b).Quiet := by
  intro l hl
  rw [Block.silentLoops_append, List.mem_append] at hl
  exact hl.elim (ha l) (hb l)

/-- A loop is quiet if its instructions are. -/
theorem loop {count : Nat} {body : List (Instr P L)} (h : ∀ i ∈ body, i.value.hears = false) :
    (Block.loop count body .done).Quiet := by
  intro l hl
  rw [List.mem_singleton.1 hl]
  exact h

/-- A note is quiet. -/
theorem note (text : String) : (Block.note text .done : Block P L).Quiet := by
  intro l hl
  cases hl

end Block.Quiet

namespace Kernel

/-- Copying colors does not read the audio signal. -/
theorem copyColors_quiet (dst src : Buffer) (target origin : Index) :
    ∀ i ∈ copyColors dst src target origin, i.value.hears = false := by
  intro i hi
  obtain ⟨c, -, rfl⟩ := List.mem_map.1 hi
  rfl

/-- A stage reads the audio signal only where there is one. -/
theorem stage_quiet (width : Nat) (s : Storage) (cur : Buffer) (st : Stage) :
    (stage width s cur st).code.Quiet := by
  cases st with
  | idle id => exact .note _
  | sample id bins =>
    -- The way that is taken without audio writes zeros.
    refine .append (.note _) fun l hl i hi => ?_
    simp only [sample, Block.silentLoops, Kernel.loop, List.append_nil, List.mem_singleton] at hl
    subst hl
    rw [List.mem_singleton.1 hi]
    rfl
  | ramp id =>
    refine .append (.note _) (.loop fun i hi => ?_)
    rw [List.mem_singleton.1 hi]
    dsimp only [store, Instr.value]
    split <;> rfl
  | decay id factor =>
    refine .append (.note _) (.loop fun i hi => ?_)
    rw [List.mem_singleton.1 hi]
    rfl
  | color id map =>
    refine .append (.note _) (.loop fun i hi => ?_)
    rcases List.mem_cons.1 hi with rfl | hi
    · rfl
    · obtain ⟨c, -, rfl⟩ := List.mem_map.1 hi
      cases map <;> rfl
  | mirror id variant =>
    refine .append (.note _) ?_
    cases variant with
    | fullReversal => exact .loop (copyColors_quiet _ _ _ _)
    | centerOrigin =>
      refine .loop fun i hi => ?_
      exact (List.mem_append.1 hi).elim (copyColors_quiet _ _ _ _ i) (copyColors_quiet _ _ _ _ i)

/-- Stages, one after another, read the audio signal only where there is one. -/
theorem stages_quiet (width : Nat) (s : Storage) (cur : Buffer) (ss : List Stage) :
    (stages width s cur ss).code.Quiet := by
  induction ss generalizing s cur with
  | nil => exact fun l hl => nomatch hl
  | cons first rest ih => exact (stage_quiet width s cur first).append (ih _ _)

/-- Moving the result of a branch does not read the audio signal. -/
theorem join_quiet (dst src : Buffer) : (join dst src).Quiet := by
  unfold join
  split
  · exact fun l hl => nomatch hl
  · refine Block.Quiet.append (.note _) (b := copy dst src) ?_
    unfold copy
    split
    · refine .loop fun i hi => ?_
      rw [List.mem_singleton.1 hi]
      rfl
    · exact .loop (copyColors_quiet _ _ _ _)

/-- The code before the output reads the audio signal only where there is one. -/
theorem main_quiet (width : Nat) (p : Plan) : (main width p).code.Quiet := by
  rcases p with ⟨lead, _ | f, out⟩
  · exact stages_quiet _ _ _ _
  · refine (stages_quiet _ _ _ _).append (.append (.note _) fun l hl => ?_)
    simp only [Block.silentLoops, List.append_nil] at hl
    exact (stages_quiet _ _ _ _).append (join_quiet _ _) l hl

/-- The output does not read the audio signal. -/
theorem output_quiet (src : Buffer) (width : Nat) : (output src width).Quiet := by
  refine .loop fun i hi => ?_
  rcases List.mem_cons.1 hi with rfl | hi
  · rfl
  · obtain ⟨c, -, rfl⟩ := List.mem_map.1 hi
    rfl

/-- The output binds its local before it reads it. -/
theorem output_closed (src : Buffer) (width : Nat) :
    ∀ l ∈ (output src width).loops, Instr.Closed [] l.2 := by
  intro l hl
  simp only [output, loop, Block.loops, List.mem_singleton] at hl
  subst hl
  simp [Channel.all, Instr.Closed, Expr.refs, load]

end Kernel

/-- A place in a declared buffer has an address. -/
theorem Storage.Placed.finds {p : Program} {count : Nat} {place : Place}
    (h : p.storage.Placed count place) : ∃ a, p.Finds place a := by
  obtain ⟨b, hb, htarget, hchannel, -⟩ := h
  obtain ⟨holder, hholder⟩ := Program.exists_assigns hb
  obtain ⟨symbol, elem, len⟩ := b
  obtain ⟨target, index, channel⟩ := place
  dsimp only at htarget hchannel
  subst htarget
  cases elem with
  | float =>
    cases channel with
    | none => exact ⟨_, .level hholder⟩
    | some c => exact absurd (hchannel.1 rfl) (by decide)
  | rgb =>
    cases channel with
    | none => exact absurd (hchannel.2 rfl) (by decide)
    | some c => exact ⟨_, .color hholder⟩

namespace Graph

variable {g : Graph} {pl : Plan}

/-- The program of a graph that has a plan is sound, if no two nodes with a state share an
identifier. -/
theorem programOf_sound_of_states (hwidth : g.frameWidth < Index.limit)
    (hstates : g.DistinctStates) (h : Planned g.frameWidth none g.nodes pl) :
    (g.programOf pl).Sound := by
  obtain ⟨hnamed, hholds⟩ := Kernel.main_storage h.fits hwidth
  obtain ⟨hdecl, helem, -, -⟩ := Storage.holds_some.1 hholds
  have hdistinct : (g.programOf pl).Distinct :=
    ⟨hnamed.symbols_nodup, owners_nodup hwidth hstates h⟩
  refine ⟨hdistinct, fun l hl i hi => (programOf_fits h.fits hwidth l hl i hi).1, ?_, ?_⟩
  · show (Kernel.plan g.frameWidth pl).code.Quiet
    rw [Kernel.plan_eq]
    exact ((Kernel.main_quiet _ _).append (.note _)).append (Kernel.output_quiet _ _)
  · refine Scope.body_isOk hdistinct rfl ?_ ?_
    · -- The last loop writes the pixels, and all others write what the storage declares.
      intro l hl i hi place hplace
      rw [loops_programOf, List.mem_append] at hl
      rcases hl with hl | hl
      · have hruns : (g.programOf pl).storage.Runs l := Kernel.main_runs h.fits hwidth l hl
        exact (hruns.placed i hi place hplace).finds
      · obtain ⟨c, rfl | rfl⟩ := ((output_places _ _ l hl).2 i hi).2 place hplace
        · exact ⟨_, .out⟩
        · have hplaced : (g.programOf pl).storage.Placed 0
              (Kernel.place (Kernel.main g.frameWidth pl).buffer .counter (some c)) :=
            Storage.placed_place hdecl (by simp [helem]) rfl
          exact hplaced.finds
    · intro l hl
      rw [loops_programOf, List.mem_append] at hl
      rcases hl with hl | hl
      · exact (Kernel.main_runs h.fits hwidth l hl).closed
      · exact Kernel.output_closed _ _ l hl

/-- The program of a graph in order is sound. -/
theorem programOf_sound (hg : g.WellFormed) (h : Planned g.frameWidth none g.nodes pl) :
    (g.programOf pl).Sound :=
  programOf_sound_of_states hg.width_lt hg.distinctStates h

end Graph

end LedPattern
