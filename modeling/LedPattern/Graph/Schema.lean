import LedPattern.Diagnostic
import LedPattern.Graph.Basic
import LedPattern.Json.Reader

/-!
# Loading a graph

A graph is described by a JSON object. Loading checks the description against the schema, reports
everything that is wrong with it in order of declaration, and yields the graph if nothing is.
What the kinds and parameters mean is not looked at.

Specification of `pgc`, section 4.1: the graph loader and validator, `load_graph`.
-/

namespace LedPattern

/-- A value and what was reported on the way to it. -/
structure Loaded (α : Type) where
  value : α
  diagnostics : List Diagnostic

/-- What the members of a node hold besides its identifier and its kind. -/
structure NodeFields where
  params : List (String × Param) := []
  hasFallback : Bool := false
  fallback : List Node := []

namespace Graph

open Diagnostic (Code)

/-- The error placed at a node if its identifier is known. -/
def placed (id : Option String) (d : Diagnostic) : Diagnostic :=
  match id with
  | some id => d.atNode id
  | none => d

/-- The identifier of a node: text that is not empty. -/
def loadId (path : String) (members : Json.Members) : Loaded (Option String) :=
  let missing (message : String) : Loaded (Option String) :=
    ⟨none, [(Diagnostic.error .missingId message).atField (path ++ ".id")]⟩
  match members.get? "id" with
  | some (.string s) =>
    if s.isEmpty then missing "node `id` must be a non-empty string" else ⟨some s, []⟩
  | some _ => missing "node `id` must be a non-empty string"
  | none => missing "node has no `id`"

/-- The kind of a node: text, under one of two keys. -/
def loadKind (path : String) (id : Option String) (members : Json.Members) :
    Loaded (Option String) :=
  let missing (message : String) : Loaded (Option String) :=
    ⟨none, [(placed id (Diagnostic.error .missingKind message)).atField (path ++ ".kind")]⟩
  match (members.get? "kind").or (members.get? "type") with
  | some (.string s) => ⟨some s, []⟩
  | some _ => missing "node `kind` must be a string"
  | none => missing "node has no `kind`"

/-- A parameter's value: a number, a text or a truth value. -/
def loadParam? : Json → Option Param
  | .number n => some (.number n.toDouble)
  | .string s => some (.text s)
  | .bool b => some (.bool b)
  | _ => none

mutual

/-- A node found at `path`. -/
def loadNode (path : String) : Json → Loaded (Option Node)
  | .object members =>
    let id := loadId path members
    let kind := loadKind path id.value members
    let fields := loadFields path id.value members
    let node := match id.value, kind.value with
      | some id, some kind =>
        some ⟨id, kind, fields.value.params, fields.value.hasFallback, fields.value.fallback⟩
      | _, _ => none
    ⟨node, id.diagnostics ++ kind.diagnostics ++ fields.diagnostics⟩
  | _ => ⟨none, [(Diagnostic.error .invalidJson "node must be a JSON object").atField path]⟩

/-- The nodes of a list found at `path`, the first having number `i`. -/
def loadNodes (path : String) (i : Nat) : List Json → Loaded (List Node)
  | [] => ⟨[], []⟩
  | item :: rest =>
    let node := loadNode (path ++ "[" ++ natText i ++ "]") item
    let nodes := loadNodes path (i + 1) rest
    ⟨node.value.toList ++ nodes.value, node.diagnostics ++ nodes.diagnostics⟩

/-- The parameters and the fallback list of a node found at `path`. -/
def loadFields (path : String) (id : Option String) : List (String × Json) → Loaded NodeFields
  | [] => ⟨{}, []⟩
  | (key, value) :: rest =>
    let fields := loadFields path id rest
    if key = "id" ∨ key = "kind" ∨ key = "type" then fields
    else if key = "fallback" then
      match value with
      | .array items =>
        let nodes := loadNodes (path ++ ".fallback") 0 items
        ⟨{ fields.value with hasFallback := true, fallback := nodes.value },
          nodes.diagnostics ++ fields.diagnostics⟩
      | _ =>
        let problem := Diagnostic.error .badParameterValue "`fallback` must be an array of nodes"
        ⟨{ fields.value with hasFallback := true },
          (placed id problem).atField (path ++ ".fallback") :: fields.diagnostics⟩
    else
      match loadParam? value with
      | some param =>
        ⟨{ fields.value with params := (key, param) :: fields.value.params }, fields.diagnostics⟩
      | none =>
        let problem := Diagnostic.error .badParameterValue
          ("parameter `" ++ key ++ "` must be a number, string or bool")
        ⟨fields.value, (placed id problem).atField (path ++ "." ++ key) :: fields.diagnostics⟩

end

/-- The width that a value at `field` gives. -/
def loadWidth (field : String) (value : Json) : Loaded (Option Nat) :=
  let bad (rest : String) : Loaded (Option Nat) :=
    ⟨none, [(Diagnostic.error .badFrameWidth ("`" ++ field ++ "` " ++ rest)).atField field]⟩
  let notInteger := bad ("must be an integer, got " ++ value.text)
  match value with
  | .number (.int w) =>
    if Int64.maxValue.toInt < w then notInteger
    else if w ≤ 0 then bad ("must be positive, got " ++ value.text)
    else if w ≤ maxFrameWidth then ⟨some w.toNat, []⟩
    else bad (value.text ++ " exceeds the " ++ natText maxFrameWidth ++ " pixel limit")
  | _ => notInteger

/-- The width of the strip, under one of two keys. -/
def loadFrameWidth (members : Json.Members) : Loaded (Option Nat) :=
  match members.get? "frame_width", members.get? "num_leds" with
  | some value, _ => loadWidth "frame_width" value
  | none, some value => loadWidth "num_leds" value
  | none, none =>
    ⟨none, [(Diagnostic.error .missingFrameWidth "graph has no `frame_width`").atField
      "frame_width"]⟩

/-- The chain of nodes. -/
def loadChain (members : Json.Members) : Loaded (Option (List Node)) :=
  let bad (code : Code) (message : String) : Loaded (Option (List Node)) :=
    ⟨none, [(Diagnostic.error code message).atField "nodes"]⟩
  match members.get? "nodes" with
  | none => bad .missingNodes "graph has no `nodes` array"
  | some (.array []) => bad .emptyNodes "graph `nodes` array is empty"
  | some (.array items) =>
    let nodes := loadNodes "nodes" 0 items
    ⟨some nodes.value, nodes.diagnostics⟩
  | some _ => bad .missingNodes "`nodes` must be an array"

/-- An error for each identifier that has occurred before, be it in `seen`. -/
def duplicateIds (seen : List String) : List Node → List Diagnostic
  | [] => []
  | node :: rest =>
    if seen.contains node.id then
      ((Diagnostic.error .duplicateId ("duplicate node id \"" ++ node.id ++ "\"")).atNode
        node.id).atField "id" :: duplicateIds seen rest
    else duplicateIds (node.id :: seen) rest

/-- The graph that the members of an object describe. -/
def loadMembers (members : Json.Members) : Loaded (Option Graph) :=
  let name := match members.get? "name" with
    | some (.string s) => some s
    | _ => none
  let width := loadFrameWidth members
  let chain := loadChain members
  let duplicates := match chain.value with
    | some nodes => duplicateIds [] (Node.preorderAll nodes)
    | none => []
  let graph := match width.value, chain.value with
    | some frameWidth, some nodes => some { name, frameWidth, nodes }
    | _, _ => none
  ⟨graph, width.diagnostics ++ chain.diagnostics ++ duplicates⟩

/-- The graph that a JSON value describes, unless something is wrong with it. -/
def ofJson (value : Json) : Loaded (Option Graph) :=
  let loaded := match value with
    | .object members => loadMembers members
    | _ => ⟨none, [Diagnostic.error .invalidJson "graph description must be a JSON object"]⟩
  if Diagnostic.anyError loaded.diagnostics then ⟨none, loaded.diagnostics⟩ else loaded

/-- The graph that a text describes, unless something is wrong with it. -/
def load (source : String) : Loaded (Option Graph) :=
  match Json.parse source with
  | .ok value => ofJson value
  | .error message =>
    ⟨none, [Diagnostic.error .invalidJson ("invalid graph JSON: " ++ message)]⟩

end Graph

end LedPattern
