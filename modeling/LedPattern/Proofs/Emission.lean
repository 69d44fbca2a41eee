import LedPattern.Proofs.Constants
import LedPattern.Proofs.Loading
import LedPattern.Proofs.Obligations
import LedPattern.Proofs.Printing

/-!
# Programs of graphs can be printed

The program of a graph that can be loaded and planned is `Printable`
(`Graph.programOf_printable`), so that its artifact reads back as the program.

Names come first. All symbols that lowering makes have an underscore, which no keyword has
(`isName_of_underscore`). The lengths of buffers are words as long as those of the shapes are
(`Storage.Sized`). With that each kernel is printable, and so are stages, forks and plans.
-/

namespace LedPattern

open Lexer

/-! ## Names -/

/-- A sanitized name has only characters of identifiers. -/
theorem Text.all_sanitize (s : String) : (sanitize s).toList.all isIdentifierChar = true := by
  rw [List.all_eq_true, sanitize, String.toList_ofList]
  intro c hc
  obtain ⟨d, -, rfl⟩ := List.mem_map.1 hc
  by_cases hd : isLetterOrDigit d = true
  · simp only [hd, if_true, isIdentifierChar, Bool.true_or]
  · rw [if_neg hd]
    decide

/-- A number has only characters of identifiers. -/
theorem all_natText (n : Nat) : (natText n).toList.all Text.isIdentifierChar = true := by
  rw [List.all_eq_true, toList_natText]
  intro c hc
  simp only [Text.isIdentifierChar, Text.isLetterOrDigit, isDigit_of_mem_digitChars hc,
    Bool.or_true, Bool.true_or]

namespace Lexer

/-- A word with more characters of identifiers is a word. -/
theorem isWord_append {a b : String} (ha : isWord a = true)
    (hb : b.toList.all Text.isIdentifierChar = true) : isWord (a ++ b) = true := by
  simp only [isWord, Bool.and_eq_true] at ha ⊢
  obtain ⟨hstart, hchars⟩ := ha
  rw [String.toList_append]
  refine ⟨?_, by rw [List.all_append, hchars, hb, Bool.and_self]⟩
  cases hlist : a.toList with
  | nil =>
    rw [hlist] at hstart
    cases hstart
  | cons c cs =>
    rw [hlist] at hstart
    exact hstart

/-- No keyword has an underscore, so a word with one is a name. It is not that of the pixels. -/
theorem isName_of_underscore {s : String} (hs : isWord s = true) (h : '_' ∈ s.toList) :
    isName s = true ∧ s ≠ "out" := by
  have hkeywords : ∀ k ∈ Keyword.all, '_' ∉ k.text.toList := by decide
  constructor
  · rw [isName, hs, Bool.true_and, Option.isNone_iff_eq_none, Keyword.ofText?, List.find?_eq_none]
    intro k hk heq
    rw [← of_decide_eq_true heq] at h
    exact hkeywords k hk h
  · rintro rfl
    exact absurd h (by decide)

end Lexer

/-- The name of a graph's function is a name. -/
theorem Graph.isName_functionName (g : Graph) : isName g.functionName = true := by
  unfold functionName
  refine (isName_of_underscore ?_ ?_).1
  · exact isWord_append (isWord_append (by decide) (Text.all_sanitize _)) (by decide)
  · simp [String.toList_append]

/-- The symbols that slots may get are names. -/
theorem Slot.isName_candidate (owner : String) (k : Nat) :
    isName (candidate owner k) = true ∧ candidate owner k ≠ "out" := by
  have hbase : isWord ("state_" ++ Text.sanitize owner) = true :=
    isWord_append (by decide) (Text.all_sanitize owner)
  unfold candidate
  dsimp only
  split
  · exact isName_of_underscore hbase (by simp [String.toList_append])
  · refine isName_of_underscore ?_ (by simp [String.toList_append])
    exact isWord_append (isWord_append hbase (by decide)) (all_natText _)

/-- The symbols of temporaries are names. -/
theorem Storage.isName_tempSymbol (elem : Elem) (k : Nat) :
    isName (tempSymbol elem k) = true ∧ tempSymbol elem k ≠ "out" := by
  cases elem <;> refine isName_of_underscore ?_ (by simp [tempSymbol, String.toList_append]) <;>
    exact isWord_append (by decide) (all_natText k)

/-! ## Buffers -/

/-- A buffer can be printed: it has a name, and its length is a word. -/
structure Buffer.Printable (b : Buffer) : Prop where
  isName : Lexer.isName b.symbol = true
  ne_out : b.symbol ≠ "out"
  len_lt : b.len < Index.limit

namespace Storage

/-- The lengths of all buffers are words. -/
def Sized (s : Storage) : Prop := ∀ b, s.Declares b → b.len < Index.limit

variable {s t : Storage}

/-- No buffer is declared at the start. -/
theorem sized_empty : Sized {} := by
  rintro b (htemp | ⟨-, slot, hslot, -⟩)
  · cases htemp
  · cases hslot

/-- All buffers of storage in order can be printed. -/
theorem Named.printable (hs : s.Named) (hsize : s.Sized) {b : Buffer} (hb : s.Declares b) :
    b.Printable := by
  have hname : Lexer.isName b.symbol = true ∧ b.symbol ≠ "out" := by
    rcases hb with htemp | ⟨-, slot, hslot, hsymbol, -⟩
    · obtain ⟨k, -, hk⟩ := hs.temps _ htemp
      dsimp only at hk
      rw [hk]
      exact isName_tempSymbol b.elem k
    · obtain ⟨k, hk⟩ := hs.slots slot hslot
      rw [← hsymbol, hk]
      exact Slot.isName_candidate slot.owner k
  exact ⟨hname.1, hname.2, hsize b hb⟩

/-- A temporary whose length is a word keeps the lengths words. -/
theorem Provides.sized {elem : Elem} {len : Nat} {b : Buffer} (h : s.Provides elem len b t)
    (hs : s.Sized) (hlen : len < Index.limit) : t.Sized := by
  intro c hc
  rcases h.older c hc with hold | rfl
  · exact hs c hold
  · rw [h.len_eq]
    exact hlen

/-- A slot whose length is a word keeps the lengths words. -/
theorem slotFor_sized (hnamed : s.Named) (hs : s.Sized) (owner : String) {len : Nat}
    (hlen : len < Index.limit) : (s.slotFor owner len).2.Sized := by
  obtain ⟨symbol, -, -, hstorage, -⟩ := slotFor_spec hnamed owner len
  rw [hstorage]
  rintro c (htemp | ⟨helem, slot, hslot, hsymbol, hclen⟩)
  · exact hs c (.inl htemp)
  · rcases List.mem_append.1 hslot with hold | hnew
    · exact hs c (.inr ⟨helem, slot, hold, hsymbol, hclen⟩)
    · rw [List.mem_singleton.1 hnew] at hclen
      exact hclen ▸ hlen

end Storage

/-! ## Code -/

/-- One sequence after another can be printed if both can. -/
@[simp]
theorem Block.isPrintable_append (a b : Body) :
    (a ++ b).isPrintable = (a.isPrintable && b.isPrintable) := by
  show (a.append b).isPrintable = _
  induction a with
  | done => simp [append, isPrintable]
  | note _ _ ih => exact ih
  | loop count body _ ih => simp only [append, isPrintable, ih, Bool.and_assoc]
  | branch _ _ _ _ _ _ ih => simp only [append, isPrintable, ih, Bool.and_assoc]

namespace Kernel

variable {dst src : Buffer}

/-- A place of a buffer can be printed if its index can. -/
theorem place_isPrintable (hb : dst.Printable) {index : Index} (hindex : index.isPrintable = true)
    (channel : Option Channel) : (place dst index channel).isPrintable = true := by
  simp [place, Place.isPrintable, Target.isPrintable, hb.isName, hb.ne_out, hindex]

/-- The place for the counter can be printed. -/
theorem counter_isPrintable (hb : dst.Printable) (channel : Option Channel) :
    (place dst .counter channel).isPrintable = true := place_isPrintable hb rfl channel

/-- A note can be printed. -/
@[simp]
theorem note_isPrintable (id what : String) : (note id what).isPrintable = true := rfl

/-- A loop can be printed if its instructions can. -/
theorem loop_isPrintable {count : Nat} (hcount : count < Index.limit)
    {body : List (Instr Place String)} (hbody : ∀ i ∈ body, i.isPrintable = true) :
    (loop count body).isPrintable = true := by
  simp only [loop, Block.isPrintable, hcount, decide_true, List.all_eq_true.2 hbody, Bool.and_self]

/-- A loop that stores a level for each counter can be printed if the level can. -/
theorem levels_isPrintable (hd : dst.Printable) {count : Nat} (hcount : count < Index.limit)
    {value : Expr Place String} (hvalue : value.isPrintable = true) :
    (loop count [store dst .counter none value]).isPrintable = true := by
  refine loop_isPrintable hcount fun i hi => ?_
  rw [List.mem_singleton.1 hi]
  simp only [store, Instr.isPrintable, counter_isPrintable hd, hvalue, Bool.and_self]

/-- A sample can be printed. -/
theorem sample_isPrintable (hd : dst.Printable) {bins : Nat} (hbins : bins < Index.limit) :
    (sample dst bins).isPrintable = true := by
  simp only [sample, Block.isPrintable, Test.isPrintable, Bool.true_and, Bool.and_true,
    Bool.and_eq_true]
  exact ⟨levels_isPrintable hd hbins rfl, levels_isPrintable hd hbins (by decide)⟩

/-- A ramp can be printed. -/
theorem ramp_isPrintable (hd : dst.Printable) {width : Nat} (hwidth : width < Index.limit) :
    (ramp dst width).isPrintable = true := by
  refine levels_isPrintable hd hwidth ?_
  split
  · decide
  · simp only [Expr.isPrintable, Bool.true_and]
    exact Single.isFinite_ofNat (Nat.lt_of_le_of_lt (Nat.sub_le _ _) hwidth)

/-- A decay can be printed if its factor is finite. -/
theorem decay_isPrintable (hd : dst.Printable) (hs : src.Printable) {factor : Float32}
    (hfactor : Single.isFinite factor = true) : (decay dst src factor).isPrintable = true := by
  have hone : Single.isFinite 1 = true := by decide
  refine levels_isPrintable hd hs.len_lt ?_
  simp only [Expr.isPrintable, load, hfactor, hone, counter_isPrintable hd,
    counter_isPrintable hs, Bool.and_self]

/-- The share of a color can be printed if the color map is finite. -/
theorem share_isPrintable {map : ColorMap} (hmap : map.isFinite = true) (c : Channel) :
    (share map c).isPrintable = true := by
  have hlocal : isName "v" = true := by decide
  cases map with
  | grayscale => exact hlocal
  | tint r g b =>
    simp only [ColorMap.isFinite, Bool.and_eq_true] at hmap
    obtain ⟨⟨hr, hg⟩, hb⟩ := hmap
    cases c <;> simp only [share, Expr.isPrintable, hlocal, hr, hg, hb, Bool.and_self]

/-- Colors from levels can be printed if the color map is finite. -/
theorem color_isPrintable (hd : dst.Printable) (hs : src.Printable) {map : ColorMap}
    (hmap : map.isFinite = true) : (color dst src map).isPrintable = true := by
  refine loop_isPrintable hs.len_lt fun i hi => ?_
  rcases List.mem_cons.1 hi with rfl | hi
  · have hlocal : isName "v" = true := by decide
    simp only [Instr.isPrintable, Expr.isPrintable, load, hlocal, counter_isPrintable hs,
      Bool.and_self]
  · obtain ⟨c, -, rfl⟩ := List.mem_map.1 hi
    simp only [store, Instr.isPrintable, counter_isPrintable hd, share_isPrintable hmap,
      Bool.and_self]

/-- Copies of colors can be printed if the indices can. -/
theorem copyColors_isPrintable (hd : dst.Printable) (hs : src.Printable) {target origin : Index}
    (htarget : target.isPrintable = true) (horigin : origin.isPrintable = true) :
    ∀ i ∈ copyColors dst src target origin, i.isPrintable = true := by
  intro i hi
  obtain ⟨c, -, rfl⟩ := List.mem_map.1 hi
  simp only [store, load, Instr.isPrintable, Expr.isPrintable, place_isPrintable hd htarget,
    place_isPrintable hs horigin, Bool.and_self]

/-- A mirror can be printed. -/
theorem mirror_isPrintable (hd : dst.Printable) (hs : src.Printable) (variant : MirrorVariant) :
    (mirror dst src variant).isPrintable = true := by
  have hlen := hs.len_lt
  cases variant with
  | fullReversal =>
    have hlast : (Index.reverse (src.len - 1)).isPrintable = true :=
      decide_eq_true (by omega)
    exact loop_isPrintable hlen (copyColors_isPrintable hd hs rfl hlast)
  | centerOrigin =>
    have hback : (Index.reverse (src.len / 2 - 1)).isPrintable = true :=
      decide_eq_true (by omega)
    have hforth : (Index.offset (src.len / 2)).isPrintable = true :=
      decide_eq_true (by omega)
    refine loop_isPrintable (by omega) fun i hi => ?_
    rcases List.mem_append.1 hi with hi | hi
    · exact copyColors_isPrintable hd hs hback rfl i hi
    · exact copyColors_isPrintable hd hs hforth rfl i hi

/-- The end of a branch can be printed. -/
theorem join_isPrintable (hd : dst.Printable) (hs : src.Printable) :
    (join dst src).isPrintable = true := by
  unfold join
  split
  · rfl
  · show (copy dst src).isPrintable = true
    unfold copy
    split
    · exact levels_isPrintable hd hs.len_lt (counter_isPrintable hs none)
    · exact loop_isPrintable hs.len_lt (copyColors_isPrintable hd hs rfl rfl)

/-- The output can be printed. -/
theorem output_isPrintable (hs : src.Printable) {width : Nat} (hwidth : width < Index.limit) :
    (output src width).isPrintable = true := by
  have hlocal : isName "bright" = true := by decide
  have hscale : Single.isFinite 255 = true := by decide
  have hhalf : Single.isFinite 0.5 = true := by decide
  refine loop_isPrintable hwidth fun i hi => ?_
  rcases List.mem_cons.1 hi with rfl | hi
  · simp only [Instr.isPrintable, Expr.isPrintable, hlocal, Bool.and_self]
  · obtain ⟨c, -, rfl⟩ := List.mem_map.1 hi
    simp only [Instr.isPrintable, Expr.isPrintable, load, counter_isPrintable hs, hlocal, hscale,
      hhalf, Bool.and_self, Bool.and_true]
    rfl

/-- The test of a finite predicate can be printed. -/
theorem testOf_isPrintable {predicate : Predicate} (h : predicate.isFinite = true) :
    (testOf predicate).isPrintable = true := by
  cases predicate with
  | audioAvailable => rfl
  | energyAbove threshold => exact h

/-- Code under a note can be printed. -/
theorem noted_isPrintable (id what : String) {code : Body} (h : code.isPrintable = true) :
    (note id what ++ code).isPrintable = true := by
  rw [Block.isPrintable_append, note_isPrintable, h, Bool.and_self]

variable {width : Nat} {s : Storage} {cur : Buffer} {t u : Option Shape}

/-- A stage that fits keeps lengths words. With finite constants its code can be printed. -/
theorem stage_isPrintable {st : Stage} (h : st.Fits width t u) (hwidth : width < Index.limit)
    (hs : s.Named) (hsize : s.Sized) (hcur : s.Holds cur t) (hfinite : st.isFinite = true) :
    (stage width s cur st).storage.Sized ∧ (stage width s cur st).code.isPrintable = true := by
  cases h with
  | idle => exact ⟨hsize, rfl⟩
  | @sample id bins _ hbins =>
    have hlimit : bins < Index.limit := Nat.lt_of_le_of_lt hbins (by decide)
    have hdst := (Storage.acquire_spec hs .float bins "").1
    have hsized := hdst.sized hsize hlimit
    have hprint := hdst.named.printable hsized hdst.declares
    exact ⟨hsized, noted_isPrintable _ _ (sample_isPrintable hprint hlimit)⟩
  | ramp =>
    have hdst := (Storage.acquire_spec hs .float width cur.symbol).1
    have hsized := hdst.sized hsize hwidth
    have hprint := hdst.named.printable hsized hdst.declares
    exact ⟨hsized, noted_isPrintable _ _ (ramp_isPrintable hprint hwidth)⟩
  | @decay id factor len =>
    obtain ⟨hdecl, -, rfl, hlimit⟩ := Storage.holds_some.1 hcur
    have hsized := Storage.slotFor_sized hs hsize id hlimit
    obtain ⟨symbol, -, hbuffer, hstorage, hnamed⟩ := Storage.slotFor_spec hs id cur.len
    have hdst : (s.slotFor id cur.len).2.Declares (s.slotFor id cur.len).1 := by
      rw [hstorage, hbuffer]
      exact .inr ⟨rfl, ⟨symbol, id, cur.len⟩, by simp, rfl, rfl⟩
    have hprint := hnamed.printable hsized hdst
    exact ⟨hsized, noted_isPrintable _ _
      (decay_isPrintable hprint (hs.printable hsize hdecl) hfinite)⟩
  | color =>
    obtain ⟨hdecl, -, rfl, hlimit⟩ := Storage.holds_some.1 hcur
    have hdst := (Storage.acquire_spec hs .rgb cur.len "").1
    have hsized := hdst.sized hsize hlimit
    have hprint := hdst.named.printable hsized hdst.declares
    exact ⟨hsized, noted_isPrintable _ _
      (color_isPrintable hprint (hs.printable hsize hdecl) hfinite)⟩
  | @mirror id variant =>
    obtain ⟨hdecl, -, rfl, hlimit⟩ := Storage.holds_some.1 hcur
    have hdst := (Storage.acquire_spec hs .rgb cur.len cur.symbol).1
    have hsized := hdst.sized hsize hlimit
    have hprint := hdst.named.printable hsized hdst.declares
    exact ⟨hsized, noted_isPrintable _ _
      (mirror_isPrintable hprint (hs.printable hsize hdecl) variant)⟩

/-- Stages that fit keep lengths words. With finite constants their code can be printed. -/
theorem stages_isPrintable {ss : List Stage} (h : Stage.FitsAll width t ss u)
    (hwidth : width < Index.limit) (hs : s.Named) (hsize : s.Sized) (hcur : s.Holds cur t)
    (hfinite : ∀ st ∈ ss, st.isFinite = true) :
    (stages width s cur ss).storage.Sized ∧ (stages width s cur ss).code.isPrintable = true := by
  induction h generalizing s cur with
  | nil => exact ⟨hsize, rfl⟩
  | cons hfirst _ ih =>
    rw [List.forall_mem_cons] at hfinite
    obtain ⟨hnamed, -, hholds⟩ := stage_storage hfirst hwidth hs hcur
    obtain ⟨hsized, hcode⟩ := stage_isPrintable hfirst hwidth hs hsize hcur hfinite.1
    obtain ⟨hsized', hcode'⟩ := ih hnamed hsized hholds hfinite.2
    refine ⟨hsized', ?_⟩
    rw [stages, Block.isPrintable_append, hcode, hcode', Bool.and_self]

/-- A fork whose ways fit keeps lengths words. With finite constants its code can be printed. -/
theorem fork_isPrintable {f : Fork} {sh : Shape}
    (hfirst : Stage.FitsAll width t f.primary (some sh))
    (hsecond : Stage.FitsAll width t f.fallback (some sh)) (hwidth : width < Index.limit)
    (hs : s.Named) (hsize : s.Sized) (hcur : s.Holds cur t)
    (hpredicate : f.predicate.isFinite = true) (hprimary : ∀ st ∈ f.primary, st.isFinite = true)
    (hfallback : ∀ st ∈ f.fallback, st.isFinite = true) :
    (fork width s cur f).storage.Sized ∧ (fork width s cur f).code.isPrintable = true := by
  obtain ⟨hnamed, hgrows, -, hnamed', hholds', hholds, hdst⟩ :=
    fork_ways hfirst hsecond hwidth hs hcur
  obtain ⟨hsized, hcode⟩ := stages_isPrintable hfirst hwidth hs hsize hcur hprimary
  obtain ⟨hsized', hcode'⟩ :=
    stages_isPrintable hsecond hwidth hnamed hsized (hgrows.holds hcur) hfallback
  obtain ⟨hdecl, -, -, hlen⟩ := Storage.holds_some.1 hholds
  obtain ⟨hdecl', -, -, -⟩ := Storage.holds_some.1 hholds'
  -- Both results and the buffer in which they meet can be printed.
  have hmeet := hdst.sized hsized' hlen
  have hprint := hdst.named.printable hmeet hdst.declares
  have hjoin := join_isPrintable hprint (hnamed'.printable hsized' hdecl)
  have hjoin' := join_isPrintable hprint (hnamed'.printable hsized' hdecl')
  refine ⟨hmeet, ?_⟩
  simp only [fork, Block.isPrintable, Block.isPrintable_append, note_isPrintable,
    testOf_isPrintable hpredicate, hcode, hcode', hjoin, hjoin', Bool.and_self]

/-- A plan that fits has storage whose lengths are words. With finite constants its code can be
printed, as far as the output. -/
theorem main_isPrintable {p : Plan} (h : p.Fits width none) (hwidth : width < Index.limit)
    (hp : p.Finite) :
    (main width p).storage.Sized ∧ (main width p).code.isPrintable = true := by
  unfold Plan.Fits at h
  unfold main
  split at h
  · exact stages_isPrintable h hwidth Storage.named_empty Storage.sized_empty (holds_none _ _)
      hp.lead
  · rename_i f hfork
    obtain ⟨t, hlead, hfirst, hsecond⟩ := h
    obtain ⟨hnamed, -, hholds⟩ := stages_storage hlead hwidth Storage.named_empty (holds_none _ _)
    obtain ⟨hsized, hcode⟩ := stages_isPrintable hlead hwidth Storage.named_empty
      Storage.sized_empty (holds_none _ _) hp.lead
    obtain ⟨hsized', hcode'⟩ := fork_isPrintable hfirst hsecond hwidth hnamed hsized hholds
      (hp.predicate f hfork) (hp.primary f hfork) (hp.fallback f hfork)
    exact ⟨hsized', by rw [Block.isPrintable_append, hcode, hcode', Bool.and_self]⟩

end Kernel

namespace Graph

variable {g : Graph} {pl : Plan}

/-- The first loop of a lowered program that writes pixels is the output. -/
theorem outputWidth?_programOf (h : pl.Fits g.frameWidth none)
    (hwidth : g.frameWidth < Index.limit) :
    (g.programOf pl).body.outputWidth? = some g.frameWidth := by
  have hmain : (Kernel.main g.frameWidth pl).code.loops.find? (fun l => l.2.any Instr.storesOut) =
      none := by
    rw [List.find?_eq_none]
    intro l hl
    rw [Program.not_storesOut_of_runs (Kernel.main_runs h hwidth l hl)]
    exact Bool.false_ne_true
  rw [Block.outputWidth?, loops_programOf, List.find?_append, hmain, Option.none_or]
  simp [Kernel.output, Kernel.loop, Block.loops, Channel.all, Instr.storesOut]

/-- The program of a graph that has a plan can be printed, if its width is a word. -/
theorem programOf_printable (hwidth : g.frameWidth < Index.limit)
    (h : Planned g.frameWidth none g.nodes pl) : (g.programOf pl).Printable := by
  obtain ⟨hnamed, hholds⟩ := Kernel.main_storage h.fits hwidth
  obtain ⟨hdecl, -, -, -⟩ := Storage.holds_some.1 hholds
  obtain ⟨hsized, hcode⟩ := Kernel.main_isPrintable h.fits hwidth h.finite
  refine ⟨g.isName_functionName, fun slot hslot => ?_, fun temp htemp => ?_, ?_,
    outputWidth?_programOf h.fits hwidth⟩
  · have hprint := hnamed.printable hsized (b := ⟨slot.symbol, .float, slot.len⟩)
      (.inr ⟨rfl, slot, hslot, rfl, rfl⟩)
    exact ⟨hprint.isName, hprint.len_lt⟩
  · have hprint := hnamed.printable hsized (b := ⟨temp.symbol, temp.elem, temp.len⟩) (.inl htemp)
    exact ⟨hprint.isName, hprint.len_lt⟩
  · have houtput := Kernel.output_isPrintable (hnamed.printable hsized hdecl) hwidth
    show (Kernel.plan g.frameWidth pl).code.isPrintable = true
    rw [Kernel.plan_eq, Block.isPrintable_append, Block.isPrintable_append, hcode,
      Kernel.note_isPrintable, houtput]
    rfl

end Graph

end LedPattern
