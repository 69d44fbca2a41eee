import LedPattern.Proofs.DotReading
import LedPattern.Proofs.Emission
import LedPattern.Proofs.Loading

/-!
# What a drawing shows

The drawing of a graph is read back (`Graph.exists_drawing`), and what it declares is compared with
the nodes of the graph. Each line of a drawing is one statement, of which the reader finds the
vertex or the edge (`draws_nodeLine`, `draws_edgeLine`), and lists of nodes and clusters follow from
their lines. Names from the graph stand only between quotes, where they cannot end a label.

Only one fallback list is drawn, that of the first node of the chain that has nodes in it. What is
inside other nodes is left out. `Graph.exists_hidden` gives the nodes that are left out, and says
when there are none.
-/

namespace LedPattern

/-- The kind of a node as a drawing shows it. Another name for a kind is shown as the kind, and a
name that is no kind as it stands. -/
def Node.shownKind (n : Node) : String :=
  match NodeKind.ofName? n.kind with
  | some k => k.name
  | none => n.kind

namespace Dot

/-- The label of a node, with a line for its identifier and one for its kind. -/
def label (n : Node) : String := escape n.id ++ "\\n" ++ escape n.shownKind

/-! ## Names of vertices -/

/-- A name that the vertices of drawings have: the letter of a list and a number. -/
def IsVertex (name : String) : Prop :=
  ∃ letter number, (letter = 'n' ∨ letter = 'f') ∧ name.toList = letter :: digitChars number

/-- The nodes of the chain and of a fallback list are named by the letter of their list. -/
theorem isVertex_vertex {letter : String} {c : Char} (hletter : letter.toList = [c])
    (hc : c = 'n' ∨ c = 'f') (i : Nat) : IsVertex (vertex letter i) :=
  ⟨c, i, hc, by simp [vertex, String.toList_append, hletter]⟩

namespace IsVertex

variable {name : String}

/-- The name of a vertex is one word. -/
theorem run_scan (h : IsVertex name) :
    run scan .between name.toList = some ([], .word name.toList) := by
  obtain ⟨letter, number, hletter, hname⟩ := h
  refine run_scan_name (by simp [hname]) ?_
  have hdigits := all_natText number
  rw [toList_natText] at hdigits
  rw [hname, List.all_cons, hdigits, Bool.and_true]
  rcases hletter with rfl | rfl <;> decide

/-- The name of a vertex is no keyword, since it has digits behind its first letter. -/
theorem not_keyword (h : IsVertex name) : name ∉ keywords := by
  obtain ⟨letter, number, -, hname⟩ := h
  have hkeywords : ∀ k ∈ keywords, k.toList.tail.all Char.isDigit = false := by decide
  intro hmem
  have hfalse := hkeywords name hmem
  have hdigits : (digitChars number).all Char.isDigit = true :=
    List.all_eq_true.2 fun c hc => isDigit_of_mem_digitChars hc
  rw [hname, List.tail_cons, hdigits] at hfalse
  cases hfalse

end IsVertex

/-! ## Lines -/

/-- A line draws what its tokens say. -/
theorem draws_line {indent depth depth' : Nat} {s : String} {tokens : List Token}
    {d : List Statement} {vs : List (String × Option String)} {es : List (String × String)}
    (hscan : run scan .between s.toList = some (tokens, .between))
    (hread : run advance ⟨depth, []⟩ tokens = some (d, ⟨depth', []⟩)) (hvs : vertices d = vs)
    (hes : edges d = es) : Draws depth (line indent s) vs es depth' :=
  ⟨tokens, d, run_scan_line hscan, hread, hvs, hes⟩

/-- The first line opens the graph. -/
theorem draws_title (name : String) :
    Draws 0 (line 0 ("digraph " ++ title name ++ " \x7b")) [] [] 1 := by
  have hword : (title name).toList.all Text.isIdentifierChar = true := by
    unfold title
    dsimp only
    split
    · rw [String.toList_append, List.all_append, Text.all_sanitize]
      rfl
    · exact Text.all_sanitize name
  have hstart : run scan .between "digraph ".toList = some ([.word "digraph"], .between) := rfl
  by_cases hempty : (title name).toList = []
  · have hscan : run scan .between ("digraph " ++ title name ++ " \x7b").toList =
        some ([.word "digraph", .sign '\x7b'], .between) := by
      rw [String.toList_append, String.toList_append, hempty]
      rfl
    exact draws_line hscan rfl rfl rfl
  · have hend : run scan (.word (title name).toList) " \x7b".toList =
        some ([.word (String.ofList (title name).toList), .sign '\x7b'], .between) := rfl
    have hscan := run_append (run_append hstart (run_scan_name hempty hword)) hend
    rw [← String.toList_append, ← String.toList_append] at hscan
    exact draws_line hscan rfl rfl rfl

/-- The line with the caption of the drawing. -/
theorem draws_caption (name : String) (width depth : Nat) :
    Draws (depth + 1) (line 1 ("label=\"" ++ escape name ++ " (frame_width " ++ natText width
      ++ ")\";")) [] [] (depth + 1) := by
  have hdigits : ∀ c ∈ (natText width).toList, c ≠ '"' ∧ c ≠ '\\' := by
    intro c hc
    rw [toList_natText] at hc
    have hdigit := isDigit_of_mem_digitChars hc
    constructor <;> rintro rfl <;> exact absurd hdigit (by decide)
  have hstart : run scan .between "label=\"".toList =
      some ([.word "label", .sign '='], .quoted []) := rfl
  have hwidth : ∀ w, run scan (.quoted w) " (frame_width ".toList =
      some ([], .quoted (w ++ " (frame_width ".toList)) := fun w => run_scan_quoted (by simp)
  have hend : ∀ w, run scan (.quoted w) ")\";".toList =
      some ([.quoted (String.ofList (w ++ [')'])), .sign ';'], .between) := fun _ => rfl
  have hscan := run_append (run_append (run_append (run_append hstart (run_scan_escape _ name))
    (hwidth _)) (run_scan_quoted hdigits)) (hend _)
  simp only [← String.toList_append] at hscan
  exact draws_line hscan rfl rfl rfl

/-- The attributes that a node's kind adds to its label can be read. -/
theorem exists_attributes (kind : Option NodeKind) : ∃ tokens pairs,
    run scan .between (attributes kind ++ "]").toList = some (tokens, .between) ∧
      (∀ t ∈ tokens, t.isEnd = false) ∧ attributes? tokens = some pairs := by
  rcases kind with _ | k
  · exact ⟨_, _, rfl, by decide, rfl⟩
  · cases k <;> exact ⟨_, _, rfl, by decide, rfl⟩

/-- The line of a node declares its vertex. -/
theorem draws_nodeLine {name : String} (hname : IsVertex name) (indent depth : Nat) (n : Node) :
    Draws (depth + 1) (nodeLine indent name n) [(name, some (label n))] [] (depth + 1) := by
  obtain ⟨tokens, pairs, hattributes, hends, hpairs⟩ := exists_attributes (NodeKind.ofName? n.kind)
  have hopen : run scan (.word name.toList) " [label=\"".toList =
      some ([.word (String.ofList name.toList), .sign '[', .word "label", .sign '='],
        .quoted []) := rfl
  have hbreak : ∀ w, run scan (.quoted w) "\\n".toList =
      some ([], .quoted (w ++ "\\n".toList)) := fun _ => rfl
  have hclose : ∀ w, run scan (.quoted w) "\", ".toList =
      some ([.quoted (String.ofList w), .sign ','], .between) := fun _ => rfl
  have hend : run scan .between ";".toList = some ([.sign ';'], .between) := rfl
  -- The name, the two lines of the label, the attributes and the semicolon, piece by piece.
  have hscan := run_append (run_append (run_append (run_append (run_append (run_append
    (run_append hname.run_scan hopen) (run_scan_escape _ n.id)) (hbreak _))
    (run_scan_escape _ n.shownKind)) (hclose _)) hattributes) hend
  simp only [← String.toList_append, List.nil_append, List.append_nil, String.ofList_toList]
    at hscan
  have htext : nodeLine indent name n = line indent (name ++ " [label=\"" ++ escape n.id ++ "\\n" ++
      escape n.shownKind ++ "\", " ++ (attributes (NodeKind.ofName? n.kind) ++ "]") ++ ";") := by
    simp only [nodeLine, Node.shownKind, String.append_assoc]
    rfl
  have hstatement : statement? (.word name :: .sign '[' :: .word "label" :: .sign '=' ::
      .quoted (label n) :: .sign ',' :: tokens) =
      some (.node name (("label", label n) :: pairs)) := by
    simp [statement?, attributes?, Token.value?, hpairs, hname.not_keyword]
  rw [htext]
  refine draws_line hscan (run_advance_statement ?_ hstatement) rfl rfl
  simp only [List.forall_mem_append]
  exact ⟨by simp [Token.isEnd], hends⟩

/-- The attributes that edges have. -/
def edgeLabels : List String :=
  ["", " [label=\"primary\"]", " [label=\"fallback\", style=dashed]", " [style=dashed]"]

/-- What follows the ends of an edge can be read. -/
theorem exists_edgeLabel {label : String} (h : label ∈ edgeLabels) :
    ∃ (tokens : List Token) (pairs : Attributes),
    (∀ w, run scan (.word w) (label ++ ";").toList =
      some (Token.word (String.ofList w) :: (tokens ++ [Token.sign ';']), .between)) ∧
      (∀ t ∈ tokens, t.isEnd = false) ∧
      ∀ a b, statement? (.word a :: .arrow :: .word b :: tokens) = some (.edge a b pairs) := by
  simp only [edgeLabels, List.mem_cons, List.not_mem_nil, or_false] at h
  rcases h with rfl | rfl | rfl | rfl
  · exact ⟨[], _, fun _ => rfl, by decide, fun _ _ => rfl⟩
  · exact ⟨[.sign '[', .word "label", .sign '=', .quoted "primary", .sign ']'], _, fun _ => rfl,
      by decide, fun _ _ => rfl⟩
  · exact ⟨[.sign '[', .word "label", .sign '=', .quoted "fallback", .sign ',', .word "style",
      .sign '=', .word "dashed", .sign ']'], _, fun _ => rfl, by decide, fun _ _ => rfl⟩
  · exact ⟨[.sign '[', .word "style", .sign '=', .word "dashed", .sign ']'], _, fun _ => rfl,
      by decide, fun _ _ => rfl⟩

/-- The line of an arrow draws its edge. -/
theorem draws_edgeLine {source target label : String} (hsource : IsVertex source)
    (htarget : IsVertex target) (hlabel : label ∈ edgeLabels) (indent depth : Nat) :
    Draws (depth + 1) (edgeLine indent source target label) [] [(source, target)] (depth + 1) := by
  obtain ⟨tokens, pairs, hscanLabel, hends, hstatement⟩ := exists_edgeLabel hlabel
  have harrow : run scan (.word source.toList) " -> ".toList =
      some ([.word (String.ofList source.toList), .arrow], .between) := rfl
  have hscan := run_append (run_append (run_append hsource.run_scan harrow) htarget.run_scan)
    (hscanLabel target.toList)
  simp only [← String.toList_append, List.nil_append, List.append_nil, String.ofList_toList,
    ← List.cons_append, ← List.append_assoc] at hscan
  have htext : edgeLine indent source target label =
      line indent (source ++ " -> " ++ target ++ (label ++ ";")) := by
    simp only [edgeLine, String.append_assoc]
  rw [htext]
  refine draws_line hscan (run_advance_statement ?_ (hstatement source target)) rfl rfl
  simpa [Token.isEnd] using hends

/-! ## Lists of nodes -/

/-- The vertices of a list of nodes, the first being number `number`. -/
def listVertices (letter : String) (number : Nat) (nodes : List Node) :
    List (String × Option String) :=
  (nodes.zipIdx number).map fun p => (vertex letter p.2, some (label p.1))

/-- The edges between neighbours in a list of `count` nodes. -/
def listEdges (letter : String) (count : Nat) : List (String × String) :=
  (List.range (count - 1)).map fun i => (vertex letter i, vertex letter (i + 1))

/-- The lines of a list of nodes declare its vertices. -/
theorem draws_nodeLines {letter : String} (hletter : ∀ i, IsVertex (vertex letter i))
    (indent depth number : Nat) (nodes : List Node) :
    Draws (depth + 1) (nodeLines indent letter number nodes) (listVertices letter number nodes) []
      (depth + 1) := by
  induction nodes generalizing number with
  | nil => exact .empty
  | cons n rest ih =>
    exact (draws_nodeLine (hletter number) indent depth n).append (ih (number + 1))

/-- The arrows of the chain draw its edges. -/
theorem draws_chainLines (choice : Option Nat) (count depth : Nat) :
    Draws (depth + 1) (chainLines choice count) [] (listEdges "n" count) (depth + 1) := by
  have hchain : ∀ i, IsVertex (vertex "n" i) := isVertex_vertex rfl (.inl rfl)
  refine .join fun i _ => ?_
  refine draws_edgeLine (hchain i) (hchain (i + 1)) ?_ 1 depth
  split <;> decide

/-- The edges that lead to a fallback list and back. -/
def clusterEdges (choice last count : Nat) : List (String × String) :=
  listEdges "f" count ++ [(vertex "n" choice, vertex "f" 0)] ++
    if choice < last then [(vertex "f" (count - 1), vertex "n" last)] else []

/-- The cluster declares the vertices of a fallback list and draws its edges. -/
theorem draws_clusterLines (choice last depth : Nat) (fallback : List Node) :
    Draws (depth + 1) (clusterLines choice last fallback) (listVertices "f" 0 fallback)
      (clusterEdges choice last fallback.length) (depth + 1) := by
  have hchain : ∀ i, IsVertex (vertex "n" i) := isVertex_vertex rfl (.inl rfl)
  have hfallback : ∀ i, IsVertex (vertex "f" i) := isVertex_vertex rfl (.inr rfl)
  -- The lines that are the same in every cluster.
  have hblank : Draws (depth + 1) (line 0 "") [] [] (depth + 1) := draws_line rfl rfl rfl rfl
  have hopen : Draws (depth + 1) (line 1 "subgraph cluster_fallback \x7b") [] [] (depth + 2) :=
    draws_line rfl rfl rfl rfl
  have hlabel : Draws (depth + 2) (line 2 "label=\"fallback\";") [] [] (depth + 2) :=
    draws_line rfl rfl rfl rfl
  have hstyle : Draws (depth + 2) (line 2 "style=dashed;") [] [] (depth + 2) :=
    draws_line rfl rfl rfl rfl
  have hcolor : Draws (depth + 2) (line 2 "color=gray50;") [] [] (depth + 2) :=
    draws_line rfl rfl rfl rfl
  have hclose : Draws (depth + 2) (line 1 "\x7d") [] [] (depth + 1) := draws_line rfl rfl rfl rfl
  have hedges : Draws (depth + 2) (String.join ((List.range (fallback.length - 1)).map fun j =>
      edgeLine 2 (vertex "f" j) (vertex "f" (j + 1)) "")) [] (listEdges "f" fallback.length)
      (depth + 2) :=
    .join fun j _ => draws_edgeLine (hfallback j) (hfallback (j + 1)) (by decide) 2 _
  have henter := draws_edgeLine (hchain choice) (hfallback 0)
    (by decide : " [label=\"fallback\", style=dashed]" ∈ edgeLabels) 1 depth
  have hleave : Draws (depth + 1) (if choice < last then
      edgeLine 1 (vertex "f" (fallback.length - 1)) (vertex "n" last) " [style=dashed]" else "") []
      (if choice < last then [(vertex "f" (fallback.length - 1), vertex "n" last)] else [])
      (depth + 1) := by
    split
    · exact draws_edgeLine (hfallback _) (hchain last) (by decide) 1 depth
    · exact .empty
  have hhead := (((hblank.append hopen).append hlabel).append hstyle).append hcolor
  have hall := ((((hhead.append (draws_nodeLines hfallback 2 (depth + 1) 0 fallback)).append
    hedges).append hclose).append henter).append hleave
  simpa [clusterLines, clusterEdges] using hall

/-- The vertices of a list are numbered. -/
theorem map_fst_listVertices (letter : String) (number : Nat) (nodes : List Node) :
    (listVertices letter number nodes).map Prod.fst =
      (List.range' number nodes.length).map (vertex letter) := by
  rw [← List.zipIdx_map_snd number nodes, listVertices, List.map_map, List.map_map]
  rfl

/-- The vertices of a list have the labels of its nodes. -/
theorem map_snd_listVertices (letter : String) (number : Nat) (nodes : List Node) :
    (listVertices letter number nodes).map Prod.snd = nodes.map fun n => some (label n) := by
  conv_rhs => rw [← List.zipIdx_map_fst number nodes]
  rw [listVertices, List.map_map, List.map_map]
  rfl

/-- Every number below the length of a list is that of a vertex. -/
theorem mem_listVertices {letter : String} {nodes : List Node} {i : Nat} (h : i < nodes.length) :
    vertex letter i ∈ (listVertices letter 0 nodes).map Prod.fst := by
  rw [map_fst_listVertices]
  exact List.mem_map_of_mem (List.mem_range'_1.2 (by omega))

/-- Vertices of one list with different numbers differ. -/
theorem vertex_injective {letter : String} {i j : Nat} (h : vertex letter i = vertex letter j) :
    i = j := by
  have hlist := congrArg String.toList h
  simp only [vertex, String.toList_append, List.append_cancel_left_eq, toList_natText] at hlist
  exact digitChars_injective hlist

/-- Vertices of the chain and of a fallback list differ. -/
theorem vertex_ne (i j : Nat) : vertex "n" i ≠ vertex "f" j := by
  intro h
  have hlist := congrArg String.toList h
  simp [vertex, String.toList_append] at hlist

/-- No name occurs twice in a drawing. -/
theorem nodup_names (nodes fallback : List Node) :
    ((listVertices "n" 0 nodes ++ listVertices "f" 0 fallback).map Prod.fst).Nodup := by
  rw [List.map_append, map_fst_listVertices, map_fst_listVertices, List.nodup_append]
  have hlist : ∀ letter count, ((List.range' 0 count).map (vertex letter)).Nodup :=
    fun _ _ => List.Nodup.map (fun _ _ => vertex_injective) List.nodup_range'
  refine ⟨hlist _ _, hlist _ _, ?_⟩
  intro a ha b hb
  obtain ⟨i, -, rfl⟩ := List.mem_map.1 ha
  obtain ⟨j, -, rfl⟩ := List.mem_map.1 hb
  exact vertex_ne i j

/-- An edge whose ends are declared. -/
def EndsIn (names : List String) (e : String × String) : Prop := e.1 ∈ names ∧ e.2 ∈ names

/-- The edges of a list end in its vertices. -/
theorem listEdges_endsIn {letter : String} {nodes : List Node} {e : String × String}
    (h : e ∈ listEdges letter nodes.length) :
    EndsIn ((listVertices letter 0 nodes).map Prod.fst) e := by
  obtain ⟨i, hi, rfl⟩ := List.mem_map.1 h
  rw [List.mem_range] at hi
  exact ⟨mem_listVertices (by omega), mem_listVertices (by omega)⟩

/-- Ends that are declared stay so if more is. -/
theorem EndsIn.mono {names more : List String} {e : String × String} (h : EndsIn names e)
    (hsub : names ⊆ more) : EndsIn more e :=
  ⟨hsub h.1, hsub h.2⟩

/-- The edges around a fallback list with nodes in it end in vertices of the drawing. -/
theorem clusterEdges_endsIn {nodes fallback : List Node} {choice last : Nat}
    (hchoice : choice < nodes.length) (hlast : last < nodes.length) (hfallback : fallback ≠ [])
    {e : String × String} (h : e ∈ clusterEdges choice last fallback.length) :
    EndsIn ((listVertices "n" 0 nodes ++ listVertices "f" 0 fallback).map Prod.fst) e := by
  have hpos := List.length_pos_of_ne_nil hfallback
  have hchain : ∀ i < nodes.length, vertex "n" i ∈
      (listVertices "n" 0 nodes ++ listVertices "f" 0 fallback).map Prod.fst := fun i hi => by
    rw [List.map_append]
    exact List.mem_append_left _ (mem_listVertices hi)
  have hlist : (listVertices "f" 0 fallback).map Prod.fst ⊆
      (listVertices "n" 0 nodes ++ listVertices "f" 0 fallback).map Prod.fst :=
    List.map_subset _ (List.subset_append_right ..)
  simp only [clusterEdges, List.mem_append, List.mem_singleton] at h
  rcases h with (h | rfl) | h
  · exact (listEdges_endsIn h).mono hlist
  · exact ⟨hchain choice hchoice, hlist (mem_listVertices hpos)⟩
  · split at h
    · obtain rfl := List.mem_singleton.1 h
      exact ⟨hlist (mem_listVertices (by omega)), hchain last hlast⟩
    · cases h

end Dot

/-! ## Nodes that are shown and nodes that are not -/

namespace Node

/-- The nodes inside some nodes, at every depth. -/
def inside (nodes : List Node) : List Node := nodes.flatMap fun n => preorderAll n.fallback

/-- A node has other nodes in it. -/
def hasInner (n : Node) : Bool := !n.fallback.isEmpty

/-- The nodes of a tree are those of its top level and those inside them. -/
theorem preorderAll_perm (nodes : List Node) :
    (preorderAll nodes).Perm (nodes ++ inside nodes) := by
  induction nodes with
  | nil => exact .nil
  | cons n rest ih =>
    rw [preorderAll, preorder_eq, inside, List.flatMap_cons, List.cons_append, List.cons_append]
    exact .cons n ((ih.append_left _).trans (List.perm_append_comm_assoc ..))

/-- A tree without nodes has none at its top level. -/
theorem preorderAll_eq_nil {nodes : List Node} : preorderAll nodes = [] ↔ nodes = [] := by
  refine ⟨fun h => ?_, fun h => by rw [h]; rfl⟩
  have hsub := sublist_preorderAll nodes
  rw [h] at hsub
  exact List.sublist_nil.1 hsub

/-- Nothing is inside some nodes if and only if none of them has nodes in it. -/
theorem inside_eq_nil {nodes : List Node} : inside nodes = [] ↔ nodes.countP hasInner = 0 := by
  simp [inside, List.flatMap_eq_nil_iff, List.countP_eq_zero, preorderAll_eq_nil, hasInner]

/-- Nothing is inside the nodes before the first one that has nodes in it. -/
theorem inside_of_first {before after : List Node} {n : Node} (h : before.countP hasInner = 0) :
    inside (before ++ n :: after) = preorderAll n.fallback ++ inside after := by
  have hnil : inside before = [] := inside_eq_nil.2 h
  rw [inside] at hnil
  rw [inside, List.flatMap_append, List.flatMap_cons, hnil]
  rfl

end Node

namespace Graph

/-- The fallback list that the drawing of a graph shows: that of the first node of the chain that
has nodes in its list. -/
def shownFallback (g : Graph) : List Node :=
  match g.nodes.find? Node.hasInner with
  | some n => n.fallback
  | none => []

/-- The nodes that the drawing of a graph shows. -/
def shownNodes (g : Graph) : List Node := g.nodes ++ g.shownFallback

/-- What a drawing does not show is nothing if and only if at most one node has nodes in it. -/
theorem exists_hidden (g : Graph) : ∃ hidden, g.allNodes.Perm (g.shownNodes ++ hidden) ∧
    (hidden = [] ↔ g.allNodes.countP Node.hasInner ≤ 1) := by
  have hperm := Node.preorderAll_perm g.nodes
  unfold shownNodes shownFallback allNodes
  rcases hfind : g.nodes.find? Node.hasInner with _ | n
  · have hnone : g.nodes.countP Node.hasInner = 0 := by
      rw [List.countP_eq_zero]
      exact List.find?_eq_none.1 hfind
    rw [Node.inside_eq_nil.2 hnone, List.append_nil] at hperm
    refine ⟨[], by simpa using hperm, ?_⟩
    rw [hperm.countP_eq, hnone]
    simp
  · obtain ⟨hn, before, after, hnodes, hbefore⟩ := List.find?_eq_some_iff_append.1 hfind
    have hzero : before.countP Node.hasInner = 0 := by
      rw [List.countP_eq_zero]
      simpa using hbefore
    have hfirst : g.nodes.countP Node.hasInner = 1 + after.countP Node.hasInner := by
      rw [hnodes, List.countP_append, hzero, List.countP_cons_of_pos hn]
      omega
    -- What is not shown lies deeper in the shown list, or in the lists of later nodes.
    have hall : (Node.preorderAll g.nodes).Perm
        (g.nodes ++ n.fallback ++ (Node.inside n.fallback ++ Node.inside after)) := by
      have hinside : Node.inside g.nodes = Node.preorderAll n.fallback ++ Node.inside after := by
        rw [hnodes, Node.inside_of_first hzero]
      rw [hinside] at hperm
      rw [List.append_assoc, ← List.append_assoc n.fallback]
      exact hperm.trans (((Node.preorderAll_perm n.fallback).append_right _).append_left _)
    refine ⟨_, hall, ?_⟩
    rw [hall.countP_eq, List.append_eq_nil_iff, List.countP_append, List.countP_append, hfirst,
      Node.inside_eq_nil, Node.inside_eq_nil]
    constructor
    · rintro ⟨hfallback, hafter⟩
      rw [Node.inside_eq_nil.2 hfallback, Node.inside_eq_nil.2 hafter, hfallback, hafter]
      rfl
    · intro hle
      omega

/-- The drawing shows as many nodes as there are if and only if at most one has nodes in it. -/
theorem length_shownNodes_iff (g : Graph) :
    g.shownNodes.length = g.nodeCount ↔ g.allNodes.countP Node.hasInner ≤ 1 := by
  obtain ⟨hidden, hperm, hhidden⟩ := g.exists_hidden
  rw [← hhidden, nodeCount, hperm.length_eq, List.length_append, ← List.length_eq_zero_iff]
  omega

/-- The drawing shows every node if at most one has nodes in it. -/
theorem shownNodes_perm {g : Graph} (h : g.allNodes.countP Node.hasInner ≤ 1) :
    g.shownNodes.Perm g.allNodes := by
  obtain ⟨hidden, hperm, hhidden⟩ := g.exists_hidden
  rw [hhidden.2 h, List.append_nil] at hperm
  exact hperm.symm

/-- The vertices that the drawing of a graph declares. -/
def shownVertices (g : Graph) : List (String × Option String) :=
  Dot.listVertices "n" 0 g.nodes ++ Dot.listVertices "f" 0 g.shownFallback

/-- The cluster of the drawing of a graph, or the empty text if there is none. -/
def clusterText (g : Graph) : String :=
  match g.nodes.find? Node.hasInner with
  | some n => Dot.clusterLines ((g.nodes.findIdx? Node.hasInner).getD 0) (g.nodes.length - 1)
      n.fallback
  | none => ""

/-- The cluster declares the vertices of the fallback list that is shown, and its edges end in
vertices of the drawing. -/
theorem exists_cluster (g : Graph) : ∃ es,
    Dot.Draws 1 g.clusterText (Dot.listVertices "f" 0 g.shownFallback) es 1 ∧
      ∀ e ∈ es, Dot.EndsIn (g.shownVertices.map Prod.fst) e := by
  unfold shownVertices clusterText shownFallback
  rcases hfind : g.nodes.find? Node.hasInner with _ | n
  · exact ⟨[], .empty, List.forall_mem_nil _⟩
  · refine ⟨_, Dot.draws_clusterLines _ _ 0 n.fallback, fun e he => ?_⟩
    have hmem := List.mem_of_find?_eq_some hfind
    have hpos := List.length_pos_of_mem hmem
    have hchoice : (g.nodes.findIdx? Node.hasInner).getD 0 < g.nodes.length := by
      rcases hidx : g.nodes.findIdx? Node.hasInner with _ | i
      · exact hpos
      · exact (List.findIdx?_eq_some_iff_getElem.1 hidx).1
    have hinner : n.fallback ≠ [] := by simpa [Node.hasInner] using List.find?_some hfind
    exact Dot.clusterEdges_endsIn hchoice (by omega) hinner he

/-- The drawing of a graph can be read. It declares vertices for the nodes that are shown, and its
edges end in them. -/
theorem exists_drawing (g : Graph) : ∃ d, Dot.read g.dot = some d ∧
    Dot.vertices d = g.shownVertices ∧
      ∀ e ∈ Dot.edges d, Dot.EndsIn (g.shownVertices.map Prod.fst) e := by
  obtain ⟨es, hcluster, hends⟩ := g.exists_cluster
  -- The lines that are the same in every drawing.
  have hrank : Dot.Draws 1 (Dot.line 1 "rankdir=LR;") [] [] 1 := Dot.draws_line rfl rfl rfl rfl
  have hnode : Dot.Draws 1 (Dot.line 1 "node [fontname=\"Helvetica\", fontsize=10];") [] [] 1 :=
    Dot.draws_line rfl rfl rfl rfl
  have hedge : Dot.Draws 1 (Dot.line 1 "edge [fontname=\"Helvetica\", fontsize=9];") [] [] 1 :=
    Dot.draws_line rfl rfl rfl rfl
  have hblank : Dot.Draws 1 (Dot.line 0 "") [] [] 1 := Dot.draws_line rfl rfl rfl rfl
  have hclose : Dot.Draws 1 (Dot.line 0 "\x7d") [] [] 0 := Dot.draws_line rfl rfl rfl rfl
  have hhead := (((((Dot.draws_title (g.name.getD "pattern")).append hrank).append
    (Dot.draws_caption (g.name.getD "pattern") g.frameWidth 0)).append hnode).append
    hedge).append hblank
  have hchain : ∀ i, Dot.IsVertex (Dot.vertex "n" i) := Dot.isVertex_vertex rfl (.inl rfl)
  have hnodes := Dot.draws_nodeLines hchain 1 0 0 g.nodes
  have hall := (((hhead.append hnodes).append
    (Dot.draws_chainLines (g.nodes.findIdx? Node.hasInner) g.nodes.length 0)).append
    hcluster).append hclose
  simp only [List.nil_append, List.append_nil] at hall
  obtain ⟨d, hread, hvertices, hedges⟩ := hall.read_eq
  refine ⟨d, hread, hvertices, fun e he => ?_⟩
  rw [hedges, List.mem_append] at he
  rcases he with he | he
  · exact (Dot.listEdges_endsIn he).mono (List.map_subset _ (List.subset_append_left ..))
  · exact hends e he

end Graph

/-- A label shows the identifier and the kind of its node, each on a line of its own. -/
theorem Dot.shownLines_label (n : Node) :
    shownLines (label n).toList = [n.id.toList, n.shownKind.toList] := by
  have hkind : shownLines ("\\n".toList ++ (escape n.shownKind).toList) =
      [[], n.shownKind.toList] := by
    have hline := shownLines_escape n.shownKind []
    rw [List.append_nil] at hline
    simp [shownLines, hline]
  rw [label, String.toList_append, String.toList_append, List.append_assoc, shownLines_escape,
    hkind]
  simp

/-- What a drawing shows. The drawing of every graph can be read back. No name is declared twice,
and each end of an edge is declared. The labels are those of the nodes of the chain and of the
fallback list of the first of them that has nodes in its list, and each label shows the identifier
and the kind of its node. These are all nodes of the graph, each once, if and only if at most one
node, at any depth, has nodes in its fallback list. Otherwise the drawing declares too few. -/
theorem drawing_shows_all_iff (g : Graph) : ∃ d, Dot.read g.dot = some d ∧
    ((Dot.vertices d).map Prod.fst).Nodup ∧
    (∀ e ∈ Dot.edges d, e.1 ∈ (Dot.vertices d).map Prod.fst ∧ e.2 ∈ (Dot.vertices d).map Prod.fst) ∧
    (Dot.vertices d).map Prod.snd = g.shownNodes.map (fun n => some (Dot.label n)) ∧
    (∀ n, Dot.shownLines (Dot.label n).toList = [n.id.toList, n.shownKind.toList]) ∧
    (((Dot.vertices d).map Prod.snd).Perm (g.allNodes.map fun n => some (Dot.label n)) ↔
      g.allNodes.countP Node.hasInner ≤ 1) ∧
    ((Dot.vertices d).length = g.nodeCount ↔ g.allNodes.countP Node.hasInner ≤ 1) := by
  obtain ⟨d, hread, hvertices, hedges⟩ := g.exists_drawing
  have hlabels :
      (Dot.vertices d).map Prod.snd = g.shownNodes.map (fun n => some (Dot.label n)) := by
    rw [hvertices, Graph.shownVertices, List.map_append, Dot.map_snd_listVertices,
      Dot.map_snd_listVertices, ← List.map_append]
    rfl
  have hlength : (Dot.vertices d).length = g.nodeCount ↔ g.allNodes.countP Node.hasInner ≤ 1 := by
    have hcount := congrArg List.length hlabels
    rw [List.length_map, List.length_map] at hcount
    rw [hcount]
    exact g.length_shownNodes_iff
  refine ⟨d, hread, ?_, ?_, hlabels, Dot.shownLines_label, ?_, hlength⟩
  · rw [hvertices]
    exact Dot.nodup_names g.nodes g.shownFallback
  · rw [hvertices]
    exact hedges
  · constructor
    · intro hperm
      have hcount := hperm.length_eq
      rw [List.length_map, List.length_map] at hcount
      exact hlength.1 hcount
    · intro h
      rw [hlabels]
      exact (Graph.shownNodes_perm h).map _

/-- A chain in which two nodes have nodes in their fallback lists. -/
def twoForksSource : String :=
  "\x7b\"frame_width\":2,\"nodes\":[" ++
  "\x7b\"id\":\"a\",\"kind\":\"ConditionalFallback\",\"fallback\":[" ++
  "\x7b\"id\":\"b\",\"kind\":\"RampShape\"\x7d]\x7d," ++
  "\x7b\"id\":\"c\",\"kind\":\"ConditionalFallback\",\"fallback\":[" ++
  "\x7b\"id\":\"d\",\"kind\":\"RampShape\"\x7d]\x7d," ++
  "\x7b\"id\":\"o\",\"kind\":\"PixelOutput\"\x7d]\x7d"

/-- The graph has five nodes, but its drawing declares four vertices, none of them for the node in
the second fallback list. -/
theorem twoForksSource_hides : ∃ g d, (Graph.load twoForksSource).value = some g ∧
    Dot.read g.dot = some d ∧ g.allNodes.map Node.id = ["a", "b", "c", "d", "o"] ∧
    g.nodeCount = 5 ∧
    Dot.vertices d = [("n0", some "a\\nConditionalFallback"),
      ("n1", some "c\\nConditionalFallback"), ("n2", some "o\\nPixelOutput"),
      ("f0", some "b\\nRampShape")] := by
  have hresult : (Graph.load twoForksSource).value.map
      (fun g => (g.allNodes.map Node.id, g.nodeCount, g.shownVertices)) =
      some (["a", "b", "c", "d", "o"], 5, [("n0", some "a\\nConditionalFallback"),
        ("n1", some "c\\nConditionalFallback"), ("n2", some "o\\nPixelOutput"),
        ("f0", some "b\\nRampShape")]) := by
    decide +kernel
  obtain ⟨g, hload, hg⟩ := Option.map_eq_some_iff.1 hresult
  obtain ⟨hids, hcount, hshown⟩ := by simpa only [Prod.mk.injEq] using hg
  obtain ⟨d, hread, hvertices, -⟩ := g.exists_drawing
  exact ⟨g, d, hload, hread, hids, hcount, hvertices.trans hshown⟩

end LedPattern
