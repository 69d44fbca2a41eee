import LedPattern.Proofs.Ordered
import LedPattern.Graph.Schema
import Mathlib.Data.List.Forall2

/-!
# Descriptions of graphs

Which JSON values describe graphs, and which graph a value describes, said without the way in which
descriptions are loaded. `Json.nodeDeclarations` lists the descriptions of all nodes, those inside
fallback lists included. `Json.IsGraph` asks of each of them what `NodeSchema` says of a single
node, and of all that no identifier occurs twice. `Json.DescribesGraph` relates a description to its
graph, node by node and list by list (`Json.Describes`).

The lemmas take the members of a node's description apart, as loading does, into the first member
and the rest. They rely on no key occurring twice, so that at most one member is a fallback list.
-/

namespace LedPattern

namespace Json

/-- The keys of a node's members that name no parameter. -/
def reservedKeys : List String := ["id", "kind", "type", "fallback"]

/-- The parameter that a number, a text or a truth value gives. -/
inductive GivesParam : Json → Param → Prop where
  | number (n : Number) : GivesParam (.number n) (.number n.toDouble)
  | text (s : String) : GivesParam (.string s) (.text s)
  | bool (b : Bool) : GivesParam (.bool b) (.bool b)

/-- The items of an array under a key. -/
def Members.items (members : Members) (key : String) : List Json :=
  match members.get? key with
  | some (.array items) => items
  | _ => []

mutual

/-- The description of a node and those of the nodes inside it, each before those that it holds. -/
def declarations : Json → List Json
  | .object members => .object members :: fallbackDeclarations members
  | value => [value]

/-- The descriptions of some nodes and of the nodes inside them. -/
def allDeclarations : List Json → List Json
  | [] => []
  | item :: rest => item.declarations ++ allDeclarations rest

/-- The descriptions in the fallback list of an object. -/
def fallbackDeclarations : List (String × Json) → List Json
  | [] => []
  | (key, .array items) :: rest =>
    (if key = "fallback" then allDeclarations items else []) ++ fallbackDeclarations rest
  | _ :: rest => fallbackDeclarations rest

end

/-- What the schema asks of a single node's description, apart from the nodes inside it. -/
structure NodeSchema (members : Members) : Prop where
  /-- The identifier is a text that is not empty. -/
  id : ∃ s, members.get? "id" = some (.string s) ∧ s ≠ ""
  /-- The kind is a text, under one of two keys. -/
  kind : ∃ s, (members.get? "kind").or (members.get? "type") = some (.string s)
  /-- A fallback list is an array. -/
  fallback : ∀ value, members.get? "fallback" = some value → ∃ items, value = .array items
  /-- All other members are numbers, texts or truth values. -/
  params : ∀ m ∈ members, m.1 ∉ reservedKeys → ∃ param, m.2.GivesParam param

/-- A value that describes a node, apart from the nodes inside it. -/
def IsNode (value : Json) : Prop := ∃ members, value = .object members ∧ NodeSchema members

/-- A value describes a node: its identifier, its kind, exactly its parameters, and the nodes of its
fallback list in order of declaration. -/
inductive Describes : Json → Node → Prop where
  | node {members : Members} {n : Node} (hid : members.get? "id" = some (.string n.id))
      (hkind : (members.get? "kind").or (members.get? "type") = some (.string n.kind))
      (hparams : List.Forall₂ (fun m p => m.1 = p.1 ∧ m.2.GivesParam p.2)
        (members.filter fun m => m.1 ∉ reservedKeys) n.params)
      (hlist : n.hasFallback = (members.get? "fallback").isSome)
      (hfallback : List.Forall₂ Describes (members.items "fallback") n.fallback) :
      Describes (.object members) n

/-- The identifier that a description gives. -/
def declaredId? : Json → Option String
  | .object members =>
    match Members.get? members "id" with
    | some (.string s) => some s
    | _ => none
  | _ => none

/-- The descriptions of all nodes of a graph, in order of declaration. -/
def nodeDeclarations : Json → List Json
  | .object members => allDeclarations (Members.items members "nodes")
  | _ => []

/-- The identifiers that the descriptions of nodes give. -/
def nodeIds (root : Json) : List String := root.nodeDeclarations.filterMap declaredId?

/-- What the schema asks of the members of a graph's description. -/
structure GraphSchema (members : Members) : Prop where
  /-- The width is an integer in range, under one of two keys. -/
  width : ∃ w : Int, (members.get? "frame_width").or (members.get? "num_leds") =
    some (.number (.int w)) ∧ 1 ≤ w ∧ w ≤ 4096
  /-- The nodes form an array that is not empty. -/
  list : ∃ items, members.get? "nodes" = some (.array items) ∧ items ≠ []
  /-- Each description of a node is in order, however deep it lies. -/
  nodes : ∀ d ∈ (Json.object members).nodeDeclarations, d.IsNode
  /-- No two of them give the same identifier. -/
  distinct : (Json.object members).nodeIds.Nodup

/-- A value that describes a graph. -/
def IsGraph (root : Json) : Prop := ∃ members, root = .object members ∧ GraphSchema members

/-- A value describes a graph: its name if that is a text, its width and its chain of nodes. -/
inductive DescribesGraph : Json → Graph → Prop where
  | graph {members : Members} {g : Graph}
      (hname : ∀ s, g.name = some s ↔ members.get? "name" = some (.string s))
      (hwidth : (members.get? "frame_width").or (members.get? "num_leds") =
        some (.number (.int g.frameWidth)))
      (hnodes : List.Forall₂ Describes (members.items "nodes") g.nodes) :
      DescribesGraph (.object members) g

/-- A node has the identifier that its description gives. -/
theorem declaredId?_of_describes {value : Json} {n : Node} (h : value.Describes n) :
    value.declaredId? = some n.id := by
  cases h with
  | node hid => simp [declaredId?, hid]

/-- Nodes have the identifiers that their descriptions give. -/
theorem filterMap_declaredId? {values : List Json} {nodes : List Node}
    (h : List.Forall₂ Describes values nodes) :
    values.filterMap declaredId? = nodes.map Node.id := by
  induction h with
  | nil => rfl
  | cons hfirst _ ih =>
    rw [List.filterMap_cons_some (declaredId?_of_describes hfirst), ih, List.map_cons]

/-- The reserved keys are those of the identifier, of the kind and of the fallback list. -/
theorem mem_reservedKeys {key : String} :
    key ∈ reservedKeys ↔ (key = "id" ∨ key = "kind" ∨ key = "type") ∨ key = "fallback" := by
  simp [reservedKeys, or_assoc]

/-- What the schema asks of the members of a node besides its identifier and its kind, and of the
nodes inside it. -/
structure FieldsFit (members : Members) : Prop where
  fallback : ∀ value, members.get? "fallback" = some value → ∃ items, value = .array items
  params : ∀ m ∈ members, m.1 ∉ reservedKeys → ∃ param, m.2.GivesParam param
  nodes : ∀ d ∈ fallbackDeclarations members, d.IsNode

/-- The members of a node describe its parameters and the nodes inside it. -/
structure GivesFields (members : Members) (fields : NodeFields) : Prop where
  params : List.Forall₂ (fun m p => m.1 = p.1 ∧ m.2.GivesParam p.2)
    (members.filter fun m => m.1 ∉ reservedKeys) fields.params
  hasFallback : fields.hasFallback = (members.get? "fallback").isSome
  fallback : List.Forall₂ Describes (members.items "fallback") fields.fallback
  inside : List.Forall₂ Describes (fallbackDeclarations members) (Node.preorderAll fields.fallback)

/-- Looking up a key passes over the members with other keys. -/
theorem Members.get?_cons_of_ne {key k : String} (h : key ≠ k) (value : Json) (rest : Members) :
    Members.get? ((k, value) :: rest) key = rest.get? key := by
  rw [get?, List.lookup_cons, beq_eq_false_iff_ne.2 h]
  rfl

/-- Looking up a key finds the first member that has it. -/
theorem Members.get?_cons_self (key : String) (value : Json) (rest : Members) :
    Members.get? ((key, value) :: rest) key = some value := by
  rw [get?, List.lookup_cons, beq_self_eq_true]

/-- A key that no member has is not found. -/
theorem Members.get?_eq_none {members : Members} {key : String}
    (h : key ∉ members.map Prod.fst) : members.get? key = none := by
  rw [get?, List.lookup_eq_none_iff]
  intro m hm
  exact bne_iff_ne.2 fun heq => h (heq ▸ List.mem_map_of_mem hm)

/-- Other members hold no descriptions of nodes. -/
theorem fallbackDeclarations_cons_of_ne {key : String} (h : key ≠ "fallback") (value : Json)
    (rest : Members) : fallbackDeclarations ((key, value) :: rest) = fallbackDeclarations rest := by
  cases value <;> simp [fallbackDeclarations, h]

/-- Without a fallback list there are no descriptions inside. -/
theorem fallbackDeclarations_eq_nil {members : Members} (h : "fallback" ∉ members.map Prod.fst) :
    fallbackDeclarations members = [] := by
  induction members with
  | nil => rfl
  | cons first rest ih =>
    rw [List.map_cons, List.mem_cons, not_or] at h
    rw [fallbackDeclarations_cons_of_ne (Ne.symm h.1), ih h.2]

/-- A member other than the fallback list adds a condition of its own. -/
theorem fieldsFit_cons {key : String} (h : key ≠ "fallback") (value : Json) (rest : Members) :
    FieldsFit ((key, value) :: rest) ↔
      (key ∉ reservedKeys → ∃ param, value.GivesParam param) ∧ FieldsFit rest := by
  constructor
  · rintro ⟨hfallback, hparams, hnodes⟩
    rw [List.forall_mem_cons] at hparams
    rw [Members.get?_cons_of_ne h.symm] at hfallback
    rw [fallbackDeclarations_cons_of_ne h] at hnodes
    exact ⟨hparams.1, hfallback, hparams.2, hnodes⟩
  · rintro ⟨hparam, hfallback, hparams, hnodes⟩
    refine ⟨?_, List.forall_mem_cons.2 ⟨hparam, hparams⟩, ?_⟩
    · rwa [Members.get?_cons_of_ne h.symm]
    · rwa [fallbackDeclarations_cons_of_ne h]

/-- A fallback list adds the conditions on the nodes in it. -/
theorem fieldsFit_fallback {rest : Members} (h : "fallback" ∉ rest.map Prod.fst)
    (items : List Json) :
    FieldsFit (("fallback", .array items) :: rest) ↔
      (∀ d ∈ allDeclarations items, d.IsNode) ∧ FieldsFit rest := by
  have hnone := Members.get?_eq_none h
  have hnil := fallbackDeclarations_eq_nil h
  have hreserved : "fallback" ∈ reservedKeys := by decide
  constructor
  · rintro ⟨-, hparams, hnodes⟩
    rw [fallbackDeclarations, if_pos rfl, hnil, List.append_nil] at hnodes
    exact ⟨hnodes, by simp [hnone], (List.forall_mem_cons.1 hparams).2, by simp [hnil]⟩
  · rintro ⟨hnodes, -, hparams, -⟩
    refine ⟨fun value hvalue => ?_, List.forall_mem_cons.2 ⟨absurd hreserved, hparams⟩, ?_⟩
    · rw [Members.get?_cons_self] at hvalue
      exact ⟨items, (Option.some.inj hvalue).symm⟩
    · rwa [fallbackDeclarations, if_pos rfl, hnil, List.append_nil]

namespace GivesFields

variable {key : String} {value : Json} {rest : Members} {fields : NodeFields}

/-- A member other than the fallback list changes at most the parameters. -/
theorem other (h : key ≠ "fallback") {params : List (String × Param)}
    (hparams : List.Forall₂ (fun m p => m.1 = p.1 ∧ m.2.GivesParam p.2)
      (((key, value) :: rest).filter fun m => m.1 ∉ reservedKeys) params)
    (hrest : GivesFields rest fields) :
    GivesFields ((key, value) :: rest) { fields with params := params } := by
  refine ⟨hparams, ?_, ?_, ?_⟩
  · rw [Members.get?_cons_of_ne h.symm]
    exact hrest.hasFallback
  · rw [Members.items, Members.get?_cons_of_ne h.symm]
    exact hrest.fallback
  · rw [fallbackDeclarations_cons_of_ne h]
    exact hrest.inside

/-- A member with a reserved key gives no parameter. -/
theorem skip (h : key ≠ "fallback") (hkey : key ∈ reservedKeys) (hrest : GivesFields rest fields) :
    GivesFields ((key, value) :: rest) fields := by
  refine other h ?_ hrest
  rw [List.filter_cons_of_neg (by simpa using hkey)]
  exact hrest.params

/-- A member with another key gives a parameter. -/
theorem param {param : Param} (hkey : key ∉ reservedKeys) (hparam : value.GivesParam param)
    (hrest : GivesFields rest fields) :
    GivesFields ((key, value) :: rest) { fields with params := (key, param) :: fields.params } := by
  have h : key ≠ "fallback" := by
    rintro rfl
    exact hkey (by decide)
  refine other h ?_ hrest
  rw [List.filter_cons_of_pos (by simpa using hkey)]
  exact .cons ⟨rfl, hparam⟩ hrest.params

/-- A fallback list gives the nodes that it describes. -/
theorem list {items : List Json} {nodes : List Node} (h : "fallback" ∉ rest.map Prod.fst)
    (hnodes : List.Forall₂ Describes items nodes)
    (hinside : List.Forall₂ Describes (allDeclarations items) (Node.preorderAll nodes))
    (hrest : GivesFields rest fields) :
    GivesFields (("fallback", .array items) :: rest)
      { fields with hasFallback := true, fallback := nodes } := by
  refine ⟨?_, ?_, ?_, ?_⟩
  · rw [List.filter_cons_of_neg (by simp [reservedKeys])]
    exact hrest.params
  · rw [Members.get?_cons_self]
    rfl
  · rw [Members.items, Members.get?_cons_self]
    exact hnodes
  · rwa [fallbackDeclarations, if_pos rfl, fallbackDeclarations_eq_nil h, List.append_nil]

end GivesFields

end Json

end LedPattern
