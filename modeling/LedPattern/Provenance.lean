import LedPattern.Graph.Kind
import LedPattern.Sha256

/-!
# Provenance

Where an artifact comes from: the digest of the graph's description, the digest of the table of
node kinds, and the version of the compiler. The same description gives the same record.

Specification of `pgc`, section 14: build provenance.
-/

namespace LedPattern

/-- What an artifact is built for. It changes includes and attributes, never numbers. -/
inductive Profile where
  | firmware
  | host
deriving DecidableEq, Repr

/-- The profiles. -/
def Profile.all : List Profile := [.firmware, .host]

/-- The name of a profile. -/
def Profile.name : Profile → String
  | .firmware => "firmware"
  | .host => "host"

/-- The profile with a given name. -/
def Profile.ofName? (s : String) : Option Profile := Profile.all.find? fun p => p.name = s

/-- The record of a build. -/
structure Provenance where
  sourceDigest : List UInt8
  tableDigest : List UInt8
  version : String

namespace Provenance

/-- The version of the compiler. -/
def compilerVersion : String := "0.1.0"

/-- The digest of a text. -/
def digestOf (s : String) : List UInt8 := Sha256.digest s.toUTF8.toList

/-- A digest in hexadecimal notation. -/
def hex (digest : List UInt8) : String :=
  String.ofList (digest.flatMap fun b => Text.paddedHex 2 b.toNat)

/-- The record of a build from a graph's description. -/
def ofSource (source : String) : Provenance :=
  ⟨digestOf source, digestOf NodeKind.tableText, compilerVersion⟩

/-- The record as a JSON document. -/
def document (p : Provenance) (profile : Profile) : String :=
  "\x7b\n  \"graph_sha256\": \"" ++ hex p.sourceDigest
    ++ "\",\n  \"lowering_table_fingerprint\": \"" ++ hex p.tableDigest
    ++ "\",\n  \"profile\": \"" ++ profile.name
    ++ "\",\n  \"compiler_version\": \"" ++ p.version ++ "\"\n\x7d\n"

end Provenance

end LedPattern
