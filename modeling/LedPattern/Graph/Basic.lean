import LedPattern.Number.Double
import LedPattern.Text.Quoted

/-!
# Pattern graphs

A pattern graph is a chain of nodes that is run from left to right for every frame of a strip of
LEDs. A node that chooses between two ways holds the second one as a list of nodes of its own.

Specification of `pgc`, section 3, *Graph* and *Node*.
-/

namespace LedPattern

/-- The value of a node's parameter. -/
inductive Param where
  | number (value : Float)
  | text (value : String)
  | bool (value : Bool)

/-- The text of a parameter if it is one. -/
def Param.asText? : Param → Option String
  | .text s => some s
  | _ => none

/-- A parameter as messages show it. -/
def Param.shown : Param → String
  | .number x => "Number(" ++ Double.text x ++ ")"
  | .text s => "Text(" ++ Text.quoted s ++ ")"
  | .bool b => "Bool(" ++ (if b then "true" else "false") ++ ")"

/-- A node as its graph declares it. The kind is a name that lowering looks up, and the parameters
are sorted by their names. -/
structure Node where
  id : String
  kind : String
  params : List (String × Param)
  /-- Whether the declaration has a fallback list, be it empty. -/
  hasFallback : Bool
  fallback : List Node

/-- The value of a parameter. -/
def Node.param? (n : Node) (name : String) : Option Param := n.params.lookup name

mutual

/-- A node and the nodes inside it, each before those that it holds. -/
def Node.preorder : Node → List Node
  | ⟨id, kind, params, hasFallback, fallback⟩ =>
    ⟨id, kind, params, hasFallback, fallback⟩ :: Node.preorderAll fallback

/-- Some nodes and the nodes inside them, in order of declaration. -/
def Node.preorderAll : List Node → List Node
  | [] => []
  | node :: rest => node.preorder ++ Node.preorderAll rest

end

/-- A pattern graph for a strip of `frameWidth` LEDs. -/
structure Graph where
  name : Option String
  frameWidth : Nat
  nodes : List Node

namespace Graph

/-- The greatest number of LEDs. -/
def maxFrameWidth : Nat := 4096

/-- All nodes of a graph in order of declaration. -/
def allNodes (g : Graph) : List Node := Node.preorderAll g.nodes

/-- The number of nodes, those of fallback lists included. -/
def nodeCount (g : Graph) : Nat := g.allNodes.length

/-- The first node with a given identifier. -/
def find? (g : Graph) (id : String) : Option Node := g.allNodes.find? fun n => n.id = id

end Graph

end LedPattern
