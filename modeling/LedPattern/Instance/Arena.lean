/-!
# Buffers with names

The storage of a running pattern. An arena holds the states of a pattern, one buffer for each
owner, and keeps them from frame to frame.

Specification of `pgc`, section 3, *PersistentState*.
-/

namespace LedPattern

/-- Samples under a name. -/
structure NamedBuffer where
  name : String
  data : Array Float32

/-- A buffer of `len` zeros. -/
def NamedBuffer.zeros (name : String) (len : Nat) : NamedBuffer := ⟨name, Array.replicate len 0⟩

/-- The buffer with all samples zero. -/
def NamedBuffer.cleared (b : NamedBuffer) : NamedBuffer := { b with data := b.data.map fun _ => 0 }

/-- The states of a pattern, named after their owners. -/
abbrev Arena := Array NamedBuffer

namespace Arena

/-- The number of an owner's buffer. -/
def position? (a : Arena) (owner : String) : Option Nat := a.findIdx? fun b => b.name = owner

/-- The samples of an owner. -/
def get? (a : Arena) (owner : String) : Option (Array Float32) :=
  (a.find? fun b => b.name = owner).map NamedBuffer.data

/-- The arena in which an owner has a buffer, and the number of that buffer. An owner that has
none gets one with `len` zeros. -/
def ensure (a : Arena) (owner : String) (len : Nat) : Arena × Nat :=
  match a.position? owner with
  | some i => (a, i)
  | none => (a.push (NamedBuffer.zeros owner len), a.size)

/-- The arena with all samples zero. -/
def reset (a : Arena) : Arena := a.map NamedBuffer.cleared

end Arena

end LedPattern
