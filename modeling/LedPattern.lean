import LedPattern.Artifact.Parser
import LedPattern.Artifact.Printer
import LedPattern.Artifact.Token
import LedPattern.CommandLine.Arguments
import LedPattern.CommandLine.Directory
import LedPattern.CommandLine.Response
import LedPattern.Compilation
import LedPattern.Diagnostic
import LedPattern.Failure
import LedPattern.Frame
import LedPattern.Graph.Basic
import LedPattern.Graph.Dot
import LedPattern.Graph.Kind
import LedPattern.Graph.Operation
import LedPattern.Graph.Schema
import LedPattern.Instance.Arena
import LedPattern.Instance.Basic
import LedPattern.Instance.Memory
import LedPattern.Instance.Scope
import LedPattern.Instance.Simulator
import LedPattern.Json.Reader
import LedPattern.Json.Value
import LedPattern.Kernel.Certificate
import LedPattern.Kernel.Listing
import LedPattern.Kernel.Program
import LedPattern.Lowering.Kernels
import LedPattern.Lowering.Lower
import LedPattern.Lowering.Plan
import LedPattern.Lowering.Storage
import LedPattern.Main
import LedPattern.Number.Binary
import LedPattern.Number.Decimal
import LedPattern.Number.Double
import LedPattern.Number.Single
import LedPattern.Number.Spelling
import LedPattern.Pass
import LedPattern.Proofs.Addressing
import LedPattern.Proofs.Agreement
import LedPattern.Proofs.Allocation
import LedPattern.Proofs.Binding
import LedPattern.Proofs.Checking
import LedPattern.Proofs.Confinement
import LedPattern.Proofs.Constants
import LedPattern.Proofs.Descriptions
import LedPattern.Proofs.Determinacy
import LedPattern.Proofs.Digits
import LedPattern.Proofs.DotReading
import LedPattern.Proofs.Drawing
import LedPattern.Proofs.Emission
import LedPattern.Proofs.Emitting
import LedPattern.Proofs.Erasure
import LedPattern.Proofs.Faults
import LedPattern.Proofs.FunctionNames
import LedPattern.Proofs.Grammar
import LedPattern.Proofs.Likeness
import LedPattern.Proofs.Literal
import LedPattern.Proofs.Loading
import LedPattern.Proofs.LocalScope
import LedPattern.Proofs.Meaning
import LedPattern.Proofs.Mirroring
import LedPattern.Proofs.NamedRun
import LedPattern.Proofs.Naming
import LedPattern.Proofs.Obligations
import LedPattern.Proofs.Ordered
import LedPattern.Proofs.Parentheses
import LedPattern.Proofs.Parsing
import LedPattern.Proofs.Passes
import LedPattern.Proofs.Planning
import LedPattern.Proofs.Preservation
import LedPattern.Proofs.Printing
import LedPattern.Proofs.Reading
import LedPattern.Proofs.Recognition
import LedPattern.Proofs.Renaming
import LedPattern.Proofs.Rendering
import LedPattern.Proofs.Reports
import LedPattern.Proofs.Reprinting
import LedPattern.Proofs.RoundTrip
import LedPattern.Proofs.Scanning
import LedPattern.Proofs.SignedZero
import LedPattern.Proofs.SlotLoops
import LedPattern.Proofs.Soundness
import LedPattern.Proofs.StateWriters
import LedPattern.Proofs.States
import LedPattern.Proofs.StaticBounds
import LedPattern.Proofs.Steps
import LedPattern.Proofs.Tallying
import LedPattern.Proofs.Temporaries
import LedPattern.Proofs.Typing
import LedPattern.Proofs.Unambiguous
import LedPattern.Proofs.Verifying
import LedPattern.Provenance
import LedPattern.Sha256
import LedPattern.Text.Bytes
import LedPattern.Text.Extending
import LedPattern.Text.Hidden
import LedPattern.Text.Identifier
import LedPattern.Text.Quoted
import LedPattern.Text.Range
import LedPattern.Text.Unprintable
import LedPattern.Verification
