/-!
# Diagnostics

What loading, lowering and verification report about a graph: a message, how serious it is, and
where it belongs. A code is stable: it keeps its meaning once it is given out.

Specification of `pgc`, section 11: diagnostics with stable codes.
-/

namespace LedPattern

namespace Diagnostic

/-- A stable code, known by its text: `E00` starts those of the schema, `E01` those of lowering,
`E02` those of artifacts, and `W01` the warnings of lowering. -/
structure Code where
  text : String
deriving DecidableEq, Repr

namespace Code

/-- The description is no JSON text. -/
def invalidJson : Code := ⟨"E0001"⟩

/-- The description gives no frame width. -/
def missingFrameWidth : Code := ⟨"E0002"⟩

/-- The frame width is not a positive integer in range. -/
def badFrameWidth : Code := ⟨"E0003"⟩

/-- The description has no list of nodes. -/
def missingNodes : Code := ⟨"E0004"⟩

/-- The list of nodes is empty. -/
def emptyNodes : Code := ⟨"E0005"⟩

/-- A node has no usable id. -/
def missingId : Code := ⟨"E0006"⟩

/-- A node has no usable kind. -/
def missingKind : Code := ⟨"E0007"⟩

/-- Two nodes share an id. -/
def duplicateId : Code := ⟨"E0008"⟩

/-- A member of a node has a value of the wrong type. -/
def badParameterValue : Code := ⟨"E0009"⟩

/-- No kind of node has this name. -/
def unknownKind : Code := ⟨"E0100"⟩

/-- A parameter lies outside its range. -/
def parameterRange : Code := ⟨"E0101"⟩

/-- Two lengths that have to agree differ. -/
def lengthMismatch : Code := ⟨"E0102"⟩

/-- A buffer holds elements of the wrong type. -/
def typeMismatch : Code := ⟨"E0103"⟩

/-- A node that reads a buffer has none before it. -/
def missingInput : Code := ⟨"E0104"⟩

/-- The pixel output is missing, or not the last node. -/
def terminal : Code := ⟨"E0105"⟩

/-- A mirror names no variant that exists. -/
def mirrorVariant : Code := ⟨"E0106"⟩

/-- A mirror about the centre reads a buffer of odd length. -/
def mirrorOddWidth : Code := ⟨"E0107"⟩

/-- A conditional stands where it cannot split the chain. -/
def conditionalPlacement : Code := ⟨"E0108"⟩

/-- A parameter does not fit its node. -/
def badParameter : Code := ⟨"E0109"⟩

/-- The lowered program misses an obligation. -/
def obligation : Code := ⟨"E0110"⟩

/-- An artifact cannot be read. -/
def artifactParse : Code := ⟨"E0200"⟩

/-- An artifact renders other pixels than its graph. -/
def equivalence : Code := ⟨"E0201"⟩

/-- The output of a node is never read. -/
def discardedOutput : Code := ⟨"W0100"⟩

end Code

/-- How serious a diagnostic is. Only an error stops the work. -/
inductive Level where
  | error
  | warning
deriving DecidableEq, Repr

/-- The name of a level. -/
def Level.name : Level → String
  | .error => "error"
  | .warning => "warning"

end Diagnostic

/-- A message about a graph, with the node and the field that it concerns where these are known,
and at times a hint. -/
structure Diagnostic where
  level : Diagnostic.Level
  message : String
  code : Option Diagnostic.Code := none
  node : Option String := none
  field : Option String := none
  hint : Option String := none
deriving DecidableEq, Repr

namespace Diagnostic

/-- An error with a code. -/
def error (code : Code) (message : String) : Diagnostic := { level := .error, message, code }

/-- A warning with a code. -/
def warning (code : Code) (message : String) : Diagnostic := { level := .warning, message, code }

/-- The diagnostic placed at a node. -/
def atNode (d : Diagnostic) (id : String) : Diagnostic := { d with node := some id }

/-- The diagnostic placed at a field. -/
def atField (d : Diagnostic) (name : String) : Diagnostic := { d with field := some name }

/-- The diagnostic with a hint. -/
def withHint (d : Diagnostic) (hint : String) : Diagnostic := { d with hint := some hint }

/-- Whether the diagnostic is an error. -/
def isError (d : Diagnostic) : Bool := d.level = .error

/-- Where a diagnostic belongs, in brackets. -/
def place (d : Diagnostic) : String :=
  match d.node, d.field with
  | some node, some field => " (node \"" ++ node ++ "\", field `" ++ field ++ "`)"
  | some node, none => " (node \"" ++ node ++ "\")"
  | none, some field => " (field `" ++ field ++ "`)"
  | none, none => ""

/-- The text of a diagnostic. A hint stands on a line of its own. -/
def text (d : Diagnostic) : String :=
  let code := match d.code with
    | some code => "[" ++ code.text ++ "]"
    | none => ""
  let hint := match d.hint with
    | some hint => "\n  hint: " ++ hint
    | none => ""
  d.level.name ++ code ++ ": " ++ d.message ++ d.place ++ hint

/-- Whether there is an error among some diagnostics. -/
def anyError (ds : List Diagnostic) : Bool := ds.any isError

/-- The errors among some diagnostics. -/
def errors (ds : List Diagnostic) : List Diagnostic := ds.filter isError

end Diagnostic

end LedPattern
