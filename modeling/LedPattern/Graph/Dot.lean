import LedPattern.Graph.Basic
import LedPattern.Graph.Kind
import LedPattern.Text.Identifier

/-!
# Drawings of graphs

The text of a drawing in the DOT language. The nodes stand from left to right. The first node
with a fallback list has that list drawn as a dashed cluster, which is entered from the node and
left towards the last one.

Specification of `pgc`, section 14: the view of a graph.
-/

namespace LedPattern

namespace Dot

/-- A line at a depth of four blanks a step. -/
def line (depth : Nat) (s : String) : String :=
  String.ofList (List.replicate (4 * depth) ' ') ++ s ++ "\n"

/-- A text as it stands between quotes. -/
def escape (s : String) : String :=
  String.ofList (s.toList.flatMap fun c =>
    if c = '\\' then ['\\', '\\'] else if c = '"' then ['\\', '"'] else [c])

/-- A name for the whole drawing. -/
def title (s : String) : String :=
  let body := Text.sanitize s
  if Text.startsWithDigit body then "_" ++ body else body

/-- How a node of a kind is drawn. -/
def attributes : Option NodeKind → String
  | some .audioInput => "shape=invhouse"
  | some .persistDecay => "shape=box, style=\"rounded,filled\", fillcolor=lightyellow"
  | some .conditionalFallback => "shape=diamond"
  | some .pixelOutput => "shape=house, style=filled, fillcolor=lightgray"
  | some .rampShape | some .colorize | some .mirror => "shape=box, style=rounded"
  | none => "shape=box, color=red"

/-- The name of a node in the drawing: its number in its list after the list's letter. -/
def vertex (letter : String) (number : Nat) : String := letter ++ natText number

/-- The line of a node. A kind that is not known is shown as it stands. -/
def nodeLine (depth : Nat) (name : String) (n : Node) : String :=
  let kind := NodeKind.ofName? n.kind
  let shown := match kind with
    | some k => k.name
    | none => n.kind
  line depth (name ++ " [label=\"" ++ escape n.id ++ "\\n" ++ escape shown ++ "\", "
    ++ attributes kind ++ "];")

/-- The lines of a list of nodes, the first being number `number`. -/
def nodeLines (depth : Nat) (letter : String) : (number : Nat) → List Node → String
  | _, [] => ""
  | number, n :: rest =>
    nodeLine depth (vertex letter number) n ++ nodeLines depth letter (number + 1) rest

/-- The line of an arrow. -/
def edgeLine (depth : Nat) (source target label : String) : String :=
  line depth (source ++ " -> " ++ target ++ label ++ ";")

/-- The arrows of the chain up to node `count`. The one that leaves the node that chooses is
marked. -/
def chainLines (choice : Option Nat) (count : Nat) : String :=
  String.join ((List.range (count - 1)).map fun i =>
    edgeLine 1 (vertex "n" i) (vertex "n" (i + 1))
      (if choice = some i then " [label=\"primary\"]" else ""))

/-- The cluster of a fallback list, with the arrows that lead there and back. -/
def clusterLines (choice last : Nat) (fallback : List Node) : String :=
  line 0 "" ++ line 1 "subgraph cluster_fallback \x7b" ++ line 2 "label=\"fallback\";"
    ++ line 2 "style=dashed;" ++ line 2 "color=gray50;" ++ nodeLines 2 "f" 0 fallback
    ++ String.join ((List.range (fallback.length - 1)).map fun j =>
      edgeLine 2 (vertex "f" j) (vertex "f" (j + 1)) "")
    ++ line 1 "\x7d"
    ++ edgeLine 1 (vertex "n" choice) (vertex "f" 0) " [label=\"fallback\", style=dashed]"
    ++ (if choice < last then
        edgeLine 1 (vertex "f" (fallback.length - 1)) (vertex "n" last) " [style=dashed]"
      else "")

end Dot

/-- The drawing of a graph. -/
def Graph.dot (g : Graph) : String :=
  let name := g.name.getD "pattern"
  let choice := g.nodes.findIdx? fun n => !n.fallback.isEmpty
  let cluster := match g.nodes.find? fun n => !n.fallback.isEmpty with
    | some n => Dot.clusterLines (choice.getD 0) (g.nodes.length - 1) n.fallback
    | none => ""
  Dot.line 0 ("digraph " ++ Dot.title name ++ " \x7b") ++ Dot.line 1 "rankdir=LR;"
    ++ Dot.line 1 ("label=\"" ++ Dot.escape name ++ " (frame_width " ++ natText g.frameWidth
      ++ ")\";")
    ++ Dot.line 1 "node [fontname=\"Helvetica\", fontsize=10];"
    ++ Dot.line 1 "edge [fontname=\"Helvetica\", fontsize=9];" ++ Dot.line 0 ""
    ++ Dot.nodeLines 1 "n" 0 g.nodes ++ Dot.chainLines choice g.nodes.length ++ cluster
    ++ Dot.line 0 "\x7d"

end LedPattern
