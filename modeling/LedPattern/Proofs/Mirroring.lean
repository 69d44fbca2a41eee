import LedPattern.Proofs.Preservation
import LedPattern.Proofs.Reports

/-!
# A mirror before the output

A mirror that is put right before the output of a straight chain shows the pixels of the chain in
the mirror, on every frame (`mirror_reflects_pixels`). The two programs may differ in the
temporaries that their loops use, so they are not compared: both render what their graphs mean.

The chain with the mirror has a plan as the chain without it had, since the mirror takes the colors
that were meant for the output and leaves as many (`StagedAll.append`). On one frame it means the
same pixels in the mirror and leaves the same vectors (`Meaning.chain_insert`), and so it does on
all frames of a sequence (`Graph.meanings_insert`), as both graphs start with the same vectors.
-/

namespace LedPattern

/-- A graph with one more node right before its last one. -/
def Graph.insertBeforeLast (g : Graph) (m : Node) : Graph :=
  { g with nodes := g.nodes.dropLast ++ m :: g.nodes.getLast?.toList }

/-- The pixels `qs` of a strip of `width` LEDs show the pixels `ps` in a mirror. -/
def MirrorVariant.Reflects (width : Nat) (ps qs : List Pixel) : MirrorVariant → Prop
  | .fullReversal => qs = ps.reverse
  | .centerOrigin => ∀ i < width / 2,
    qs[width / 2 - 1 - i]? = ps[i]? ∧ qs[width / 2 + i]? = ps[i]?

/-- The nodes of two segments have stages, if the first node of the second one takes a buffer. -/
theorem StagedAll.append {width : Nat} {before after : List Node} {t u w : Option Shape}
    {ss ss' : List Stage} (hbefore : StagedAll width before t ss u)
    (hafter : StagedAll width after u ss' w) (hreads : ¬StartsWithSource after) :
    StagedAll width (before ++ after) t (ss ++ ss') w := by
  induction hbefore with
  | nil => exact hafter
  | cons hfirst _ ih =>
    exact .cons (hfirst.congr (startsWithSource_append _ hreads).symm) (ih hafter)

/-- The plan of a chain without a conditional node is that of a straight chain. -/
theorem Planned.exists_straight {width : Nat} {t : Option Shape} {nodes : List Node} {p : Plan}
    (h : Planned width t nodes p) (hstraight : ∀ n ∈ nodes, ¬n.IsKind .conditionalFallback) :
    ∃ chain last lead, nodes = chain ++ [last] ∧
      StagedAll width chain t lead (some ⟨.rgb, width⟩) ∧ last.operation = .ok .pixelOutput := by
  cases h with
  | straight hlead hlast => exact ⟨_, _, _, rfl, hlead, hlast⟩
  | @forked before primary n last _ _ _ _ _ _ hop =>
    exact absurd (Node.operation_ok hop).1 (hstraight n (by simp))

/-- Mirrored colors are shown as the mirrored pixels of the colors. -/
theorem Meaning.reflects_mirrored (brightness : Float32) (cs : List Color)
    (variant : MirrorVariant) :
    variant.Reflects cs.length (cs.map (shown brightness))
      ((mirrored cs variant).map (shown brightness)) := by
  cases variant with
  | fullReversal => exact List.map_reverse
  | centerOrigin =>
    intro i hi
    have hhalf : (cs.take (cs.length / 2)).length = cs.length / 2 := by
      rw [List.length_take]
      omega
    have hcolor : (cs.take (cs.length / 2))[i]? = cs[i]? := List.getElem?_take_of_lt hi
    simp only [mirrored, List.getElem?_map]
    constructor
    · rw [List.getElem?_append_left (by rw [List.length_reverse]; omega),
        List.getElem?_reverse (by omega), hhalf,
        show cs.length / 2 - 1 - (cs.length / 2 - 1 - i) = i by omega, hcolor]
    · rw [List.getElem?_append_right (by rw [List.length_reverse]; omega), List.length_reverse,
        hhalf, Nat.add_sub_cancel_left, hcolor]

namespace Meaning

variable {width : Nat} {f : Frame} {m last : Node} {variant : MirrorVariant}

/-- What a chain means with a mirror before its output. -/
theorem chain_insert {nodes : List Node} {t u : Option Shape} {ss : List Stage}
    (hnodes : StagedAll width nodes t ss u) (hlast : last.operation = .ok .pixelOutput)
    (hop : m.operation = .ok (.mirror variant)) {x : Option Samples} {v w : Vectors}
    {ps : List Pixel} (h : chain width f (nodes ++ [last]) x v = some (ps, w)) :
    ∃ qs, chain width f (nodes ++ [m, last]) x v = some (qs, w) ∧
      variant.Reflects ps.length ps qs := by
  have hread := not_startsWithSource (Node.operation_ok hlast).1 rfl []
  have hread' := not_startsWithSource (Node.operation_ok hop).1 rfl [last]
  rw [chain_append hnodes hread] at h
  obtain ⟨⟨y, w'⟩, hsegment, h⟩ := Option.bind_eq_some_iff.1 h
  simp only [chain, hlast] at h
  obtain ⟨ps', houtput, h⟩ := Option.bind_eq_some_iff.1 h
  obtain ⟨rfl, rfl⟩ := Prod.mk.inj (Option.some.inj h)
  -- What reaches the output are colors, and these now reach the mirror.
  rcases y with _ | xs | cs
  · cases houtput
  · cases houtput
  · obtain rfl := Option.some.inj houtput
    refine ⟨(mirrored cs variant).map (shown f.params.brightness), ?_, ?_⟩
    · rw [chain_append hnodes hread', hsegment]
      simp only [Option.bind_some, chain, hop, hlast, node, output]
      rfl
    · rw [List.length_map]
      exact reflects_mirrored _ cs variant

/-- A mirror has no state, and does not change how many samples reach the nodes with one. -/
theorem chainStates_insert (hop : m.operation = .ok (.mirror variant)) (hleaf : m.fallback = [])
    {tail : List Node} (htail : ¬StartsWithSource tail) (len : Nat) (before : List Node) :
    chainStates width len (before ++ m :: tail) = chainStates width len (before ++ tail) := by
  have hkind : m.IsKind .mirror := (Node.operation_ok hop).1
  induction before generalizing len with
  | nil =>
    have hlength : lengthAfter width m tail len = len := by simp [lengthAfter, hop]
    rw [List.nil_append, List.nil_append, chainStates, if_neg (hkind.ne (by decide)), hleaf,
      hlength]
    rfl
  | cons n rest ih =>
    have hnext : StartsWithSource (rest ++ m :: tail) ↔ StartsWithSource (rest ++ tail) := by
      rw [startsWithSource_append rest htail,
        startsWithSource_append rest (not_startsWithSource hkind rfl tail)]
    have hlength : lengthAfter width n (rest ++ m :: tail) len =
        lengthAfter width n (rest ++ tail) len := by
      simp only [lengthAfter, hnext]
    rw [List.cons_append, List.cons_append, chainStates, chainStates, hlength, ih]

end Meaning

namespace Graph

variable {g : Graph} {m last : Node} {variant : MirrorVariant} {chain : List Node}
  {lead : List Stage}

/-- The node stands between the others and the last one. -/
theorem insertBeforeLast_nodes (hnodes : g.nodes = chain ++ [last]) :
    (g.insertBeforeLast m).nodes = chain ++ [m, last] := by
  simp [insertBeforeLast, hnodes]

/-- The nodes of a graph with one more node before the last are those of before and the new one. -/
theorem allNodes_insertBeforeLast (hleaf : m.fallback = []) :
    (g.insertBeforeLast m).allNodes.Perm (m :: g.allNodes) := by
  have hnodes : g.nodes.dropLast ++ g.nodes.getLast?.toList = g.nodes := by
    rcases List.eq_nil_or_concat g.nodes with hnil | ⟨chain, last, hconcat⟩
    · simp [hnil]
    · simp [hconcat]
  have hmirror : m.preorder = [m] := by
    rw [Node.preorder_eq, hleaf]
    rfl
  have hall : g.allNodes =
      Node.preorderAll g.nodes.dropLast ++ Node.preorderAll g.nodes.getLast?.toList := by
    rw [← Node.preorderAll_append, hnodes, allNodes]
  rw [hall, allNodes, insertBeforeLast, Node.preorderAll_append, Node.preorderAll, hmirror]
  exact List.perm_middle

/-- A node with a new identifier leaves a graph in order. -/
theorem WellFormed.insertBeforeLast (hg : g.WellFormed) (hleaf : m.fallback = [])
    (hfresh : m.id ∉ g.ids) : (g.insertBeforeLast m).WellFormed := by
  have hperm := allNodes_insertBeforeLast (g := g) hleaf
  refine ⟨hg.width_pos, hg.width_le, ?_, fun n hn => ?_⟩
  · rw [(hperm.map Node.id).nodup_iff, List.map_cons, List.nodup_cons]
    exact ⟨hfresh, hg.ids_nodup⟩
  · rcases List.mem_cons.1 (hperm.subset hn) with rfl | hn
    · exact fun _ => hleaf
    · exact hg.consistent n hn

/-- A straight chain has a plan with a mirror before its output. -/
theorem planned_insert (hnodes : g.nodes = chain ++ [last])
    (hlead : StagedAll g.frameWidth chain none lead (some ⟨.rgb, g.frameWidth⟩))
    (hlast : last.operation = .ok .pixelOutput) (hop : m.operation = .ok (.mirror variant))
    (heven : variant = .centerOrigin → g.frameWidth % 2 = 0) :
    ∃ pl, Planned (g.insertBeforeLast m).frameWidth none (g.insertBeforeLast m).nodes pl := by
  have hread := not_startsWithSource (Node.operation_ok hop).1 rfl []
  have hchain := hlead.append (.cons (.mirror hop heven) .nil) hread
  rw [insertBeforeLast_nodes hnodes, List.append_cons]
  exact ⟨_, .straight hchain hlast⟩

/-- Before the first frame all nodes have the vectors that they had. -/
theorem restingVectors_insert (hnodes : g.nodes = chain ++ [last])
    (hlast : last.operation = .ok .pixelOutput) (hop : m.operation = .ok (.mirror variant))
    (hleaf : m.fallback = []) : (g.insertBeforeLast m).restingVectors = g.restingVectors := by
  have hread := not_startsWithSource (Node.operation_ok hlast).1 rfl []
  unfold restingVectors
  rw [insertBeforeLast_nodes hnodes, hnodes, Meaning.chainStates_insert hop hleaf hread]
  rfl

/-- On all frames of a sequence the mirror shows what the graph meant without it. -/
theorem meanings_insert (hnodes : g.nodes = chain ++ [last])
    (hlead : StagedAll g.frameWidth chain none lead (some ⟨.rgb, g.frameWidth⟩))
    (hlast : last.operation = .ok .pixelOutput) (hop : m.operation = .ok (.mirror variant))
    {v : Vectors} {frames : List Frame} {steps : List (List Pixel × Vectors)}
    (h : g.meanings v frames = some steps) :
    ∃ steps', (g.insertBeforeLast m).meanings v frames = some steps' ∧
      List.Forall₂ (fun a b => variant.Reflects a.1.length a.1 b.1) steps steps' := by
  -- A mirror keeps nothing, so both graphs go on with the same vectors.
  have hstep : ∀ f v w ps v', v = w → g.meaning f v = some (ps, v') →
      ∃ qs w', (g.insertBeforeLast m).meaning f w = some (qs, w') ∧
        variant.Reflects ps.length ps qs ∧ v' = w' := by
    rintro f v _ ps v' rfl hfirst
    rw [meaning, hnodes] at hfirst
    obtain ⟨qs, hfirst', hreflects⟩ := Meaning.chain_insert hlead hlast hop hfirst
    rw [← insertBeforeLast_nodes hnodes] at hfirst'
    exact ⟨qs, v', hfirst', hreflects, rfl⟩
  exact meanings_related hstep rfl h

end Graph

/-- A mirror before the output. If a graph without a conditional node is lowered, it is lowered as
well with a mirror of its own identifier before the output, provided that there is an even number of
LEDs if the mirror has a middle. On every frame of every sequence the pixels are then those of
before, from end to end or with the first half of them outwards from the middle. -/
theorem mirror_reflects_pixels {source : String} {g : Graph} {p : Program} {m : Node}
    {variant : MirrorVariant} (hload : (Graph.load source).value = some g)
    (hlower : g.lower.program = some p)
    (hstraight : ∀ n ∈ g.allNodes, ¬n.IsKind .conditionalFallback)
    (hop : m.operation = .ok (.mirror variant)) (hm : m.Consistent) (hfresh : m.id ∉ g.ids)
    (heven : variant = .centerOrigin → g.frameWidth % 2 = 0) :
    ∃ p' sim sim', (g.insertBeforeLast m).lower.program = some p' ∧
      Simulator.ofProgram p = .ok sim ∧ Simulator.ofProgram p' = .ok sim' ∧
      ∀ frames : List Frame, (∀ f ∈ frames, f.Complete) → ∃ ss ss',
        sim.trace frames = .ok ss ∧ sim'.trace frames = .ok ss' ∧
        List.Forall₂ (fun s s' =>
          s.pixels.size = g.frameWidth ∧ s'.pixels.size = g.frameWidth ∧
          variant.Reflects g.frameWidth s.pixels.toList s'.pixels.toList) ss ss' := by
  have hg := Graph.wellFormed_of_load hload
  have hkind : m.IsKind .mirror := (Node.operation_ok hop).1
  have hleaf : m.fallback = [] := Node.fallback_eq_nil hm ⟨_, hop⟩ (hkind.ne (by decide))
  have hg' := hg.insertBeforeLast hleaf hfresh
  obtain ⟨pl, hplan, rfl⟩ := Graph.exists_plan_of_lower hlower
  obtain ⟨chain, last, lead, hnodes, hlead, hlast⟩ := hplan.exists_straight fun n hn =>
    hstraight n ((Node.sublist_preorderAll g.nodes).subset hn)
  obtain ⟨pl', hplan'⟩ := Graph.planned_insert hnodes hlead hlast hop heven
  have hlower' := (Graph.lower_of_plan hg' (Graph.plan_result_iff.2 hplan')).2
  obtain ⟨sim, hsim, hmodels⟩ := Simulator.exists_ofProgram (Graph.programOf_sound hg hplan)
  obtain ⟨sim', hsim', hmodels'⟩ := Simulator.exists_ofProgram (Graph.programOf_sound hg' hplan')
  refine ⟨_, sim, sim', by rw [hlower'], hsim, hsim', fun frames hframes => ?_⟩
  obtain ⟨ss, steps, htrace, hsteps, hshown⟩ := Graph.trace_meanings hg hplan hmodels hframes
  obtain ⟨ss', steps', htrace', hsteps', hshown'⟩ :=
    Graph.trace_meanings hg' hplan' hmodels' hframes
  obtain ⟨other, hother, hreflects⟩ := Graph.meanings_insert hnodes hlead hlast hop hsteps
  rw [Graph.restingVectors_insert hnodes hlast hop hleaf] at hsteps'
  obtain rfl : steps' = other := Option.some.inj (hsteps'.symm.trans hother)
  refine ⟨ss, ss', htrace, htrace', ?_⟩
  have hmirrored : List.Forall₂ (fun s step => s.pixels.size = g.frameWidth ∧
      variant.Reflects g.frameWidth s.pixels.toList step.1) ss steps' := by
    refine forall₂_compose ?_ hshown hreflects
    rintro s step step' ⟨hpixels, hsize⟩ hstep
    rw [← hpixels, Array.length_toList, hsize] at hstep
    exact ⟨hsize, hstep⟩
  refine forall₂_compose ?_ hmirrored hshown'.flip
  rintro s step s' ⟨hsize, hstep⟩ ⟨hpixels, hsize'⟩
  exact ⟨hsize, hsize', hpixels ▸ hstep⟩

/-- A ramp that fades in, from the last LED to the first. -/
def reversedRampSource : String :=
  "\x7b\"frame_width\":4,\"nodes\":[\x7b\"id\":\"r\",\"kind\":\"RampShape\"\x7d," ++
  "\x7b\"id\":\"p\",\"kind\":\"PersistDecay\"\x7d,\x7b\"id\":\"c\",\"kind\":\"Colorize\"\x7d," ++
  "\x7b\"id\":\"x\",\"kind\":\"MirrorReverse\"\x7d," ++
  "\x7b\"id\":\"o\",\"kind\":\"PixelOutput\"\x7d]\x7d"

/-- A mirror to be put before the output of the reversed ramp. -/
def secondMirror (variant : MirrorVariant) : Node :=
  ⟨"m", "Mirror", [("variant", .text variant.name)], false, []⟩

/-- With either way of mirroring before its output, the reversed ramp is shown in the mirror. -/
theorem reversedRampSource_reflects :
    ∃ g p, (Graph.load reversedRampSource).value = some g ∧ g.lower.program = some p ∧
      g.frameWidth = 4 ∧ (∀ n ∈ g.allNodes, ¬n.IsKind .conditionalFallback) ∧ "m" ∉ g.ids ∧
      ∀ variant, (secondMirror variant).operation = .ok (.mirror variant) ∧
        ∃ p' sim sim' ss ss', (g.insertBeforeLast (secondMirror variant)).lower.program = some p' ∧
          Simulator.ofProgram p = .ok sim ∧ Simulator.ofProgram p' = .ok sim' ∧
          sim.trace [silentFrame, loudFrame] = .ok ss ∧
          sim'.trace [silentFrame, loudFrame] = .ok ss' ∧
          List.Forall₂ (fun s s' => s.pixels.size = 4 ∧ s'.pixels.size = 4 ∧
            variant.Reflects 4 s.pixels.toList s'.pixels.toList) ss ss' := by
  have hresult : (Graph.load reversedRampSource).value.map (fun g => (g.ids, g.frameWidth,
      g.lower.program.isSome, decide (∀ n ∈ g.allNodes, ¬n.IsKind .conditionalFallback))) =
      some (["r", "p", "c", "x", "o"], 4, true, true) := by
    decide +kernel
  obtain ⟨g, hload, hg⟩ := Option.map_eq_some_iff.1 hresult
  simp only [Prod.mk.injEq, decide_eq_true_eq] at hg
  obtain ⟨hids, hwidth, hsome, hstraight⟩ := hg
  obtain ⟨p, hlower⟩ := Option.isSome_iff_exists.1 hsome
  have hfresh : "m" ∉ g.ids := by
    rw [hids]
    decide
  refine ⟨g, p, hload, hlower, hwidth, hstraight, hfresh, fun variant => ?_⟩
  have hop : (secondMirror variant).operation = .ok (.mirror variant) := by
    cases variant <;> rfl
  have hframes : ∀ f ∈ [silentFrame, loudFrame], f.Complete := by
    simp [loudFrame, silentFrame, Frame.Complete]
  obtain ⟨p', sim, sim', hlower', hsim, hsim', htraces⟩ := mirror_reflects_pixels hload hlower
    hstraight hop (fun _ => rfl) hfresh (fun _ => by rw [hwidth])
  obtain ⟨ss, ss', htrace, htrace', hreflects⟩ := htraces _ hframes
  rw [hwidth] at hreflects
  exact ⟨hop, p', sim, sim', ss, ss', hlower', hsim, hsim', htrace, htrace', hreflects⟩

end LedPattern
