import LedPattern.Json.Value

/-!
# Kinds of nodes

The closed set of node kinds, with the names that a graph may use for each and what each one
takes and leaves. The table's JSON text identifies the set in a build record.

Specification of `pgc`, section 4.2: the lowering table, but for the loops; section 4.1 for the
other names of kinds, and section 14 for the fingerprint of the table.
-/

namespace LedPattern

/-- The kinds of nodes. -/
inductive NodeKind where
  | audioInput
  | rampShape
  | persistDecay
  | colorize
  | mirror
  | conditionalFallback
  | pixelOutput
deriving DecidableEq, Repr

/-- What a node takes from the chain or leaves in it. -/
inductive Signal where
  | nothing
  | audio
  | float
  | rgb
  | passthrough
  | pixels
deriving DecidableEq, Repr

/-- The name of a signal. -/
def Signal.name : Signal → String
  | .nothing => "Nothing"
  | .audio => "Audio"
  | .float => "Float"
  | .rgb => "Rgb"
  | .passthrough => "Passthrough"
  | .pixels => "Pixels"

namespace NodeKind

/-- The kinds in the order of the table. -/
def all : List NodeKind :=
  [.audioInput, .rampShape, .persistDecay, .colorize, .mirror, .conditionalFallback, .pixelOutput]

/-- The name of a kind. -/
def name : NodeKind → String
  | .audioInput => "AudioInput"
  | .rampShape => "RampShape"
  | .persistDecay => "PersistDecay"
  | .colorize => "Colorize"
  | .mirror => "Mirror"
  | .conditionalFallback => "ConditionalFallback"
  | .pixelOutput => "PixelOutput"

/-- The other names of a kind. -/
def aliases : NodeKind → List String
  | .audioInput => ["AudioSpectrum"]
  | .rampShape => ["BandShape"]
  | .persistDecay => ["BufferPersist"]
  | .colorize => []
  | .mirror => ["MirrorReverse", "MirrorCenter"]
  | .conditionalFallback => []
  | .pixelOutput => ["LedOutput"]

/-- What a node of the kind takes. -/
def reads : NodeKind → Signal
  | .audioInput => .audio
  | .rampShape => .nothing
  | .persistDecay => .float
  | .colorize => .float
  | .mirror => .rgb
  | .conditionalFallback => .passthrough
  | .pixelOutput => .rgb

/-- What a node of the kind leaves. -/
def writes : NodeKind → Signal
  | .audioInput => .float
  | .rampShape => .float
  | .persistDecay => .float
  | .colorize => .rgb
  | .mirror => .rgb
  | .conditionalFallback => .passthrough
  | .pixelOutput => .pixels

/-- Whether a node of the kind keeps a state from frame to frame. -/
def isStateful (k : NodeKind) : Bool := k = .persistDecay

/-- Whether a node of the kind reads the buffer that the node before it leaves. -/
def readsBuffer (k : NodeKind) : Bool :=
  match k.reads with
  | .float | .rgb | .passthrough => true
  | .nothing | .audio | .pixels => false

/-- What a node of the kind computes. -/
def transfer : NodeKind → String
  | .audioInput => "f[i] = audio ? clamp01(spectrum[i] * sensitivity) : 0"
  | .rampShape => "f[i] = (float)i / (float)(width - 1)"
  | .persistDecay => "s[i] = d * s[i] + (1 - d) * in[i]"
  | .colorize => "rgb[i] = clamp01(v[i]) * tint"
  | .mirror => "reverse: out[i] = in[N-1-i]; center: out[N/2-1-i] = out[N/2+i] = in[i]"
  | .conditionalFallback => "if (predicate) primary else fallback"
  | .pixelOutput => "byte = floor(clamp01(c) * clamp01(brightness) * 255 + 0.5)"

/-- The kind with a given name. -/
def ofName? (s : String) : Option NodeKind :=
  all.find? fun k => k.name = s || k.aliases.contains s

/-- One row of the table as a JSON object. -/
def rowText (k : NodeKind) : String :=
  let field (key value : String) : String := Json.stringText key ++ ":" ++ value
  let quoted (key value : String) : String := field key (Json.stringText value)
  "\x7b" ++ ",".intercalate
    [quoted "kind" k.name, quoted "name" k.name,
      field "aliases" ("[" ++ ",".intercalate (k.aliases.map Json.stringText) ++ "]"),
      quoted "reads" k.reads.name, quoted "writes" k.writes.name,
      field "stateful" (if k.isStateful then "true" else "false"),
      quoted "transfer" k.transfer] ++ "\x7d"

/-- The whole table as a JSON array. -/
def tableText : String := "[" ++ ",".intercalate (all.map rowText) ++ "]"

end NodeKind

end LedPattern
