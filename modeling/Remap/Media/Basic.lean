import Remap.Bytes.Hex

/-!
# Byte-addressable media

A media is a fixed number of bytes that can be read, written and flushed. Each
access is a step on the state of the media: it yields an outcome and the media
afterwards, also when it fails, since a failing access may still count against
a fault plan or leave a mark in a trace.
-/

namespace Remap.Media

inductive Fault
  | powerLoss
  | readError
  | writeError
  | scriptedRead
  | scriptedWrite
  | scriptedFlush
deriving DecidableEq, Repr

namespace Fault

def message : Fault → String
  | powerLoss => "simulated power loss"
  | readError => "simulated read error"
  | writeError => "simulated write error"
  | scriptedRead => "scripted read fault"
  | scriptedWrite => "scripted write fault"
  | scriptedFlush => "scripted flush fault"

end Fault

inductive StoreError
  | notFound
  | alreadyExists
  | invalidLength
deriving DecidableEq, Repr

namespace StoreError

def message : StoreError → String
  | notFound => "entity not found"
  | alreadyExists => "entity already exists"
  | invalidLength => "invalid input parameter"

end StoreError

inductive Error
  | store (cause : StoreError)
  | outOfBounds (offset length size : Nat)
  | injected (fault : Fault)
deriving DecidableEq, Repr

namespace Error

def message : Error → String
  | store cause => "I/O error: " ++ cause.message
  | outOfBounds offset length size =>
      s!"access of {length} bytes at offset {Hex.number offset} out of bounds " ++
        s!"(media size: {Hex.number size})"
  | injected fault => "injected fault: " ++ fault.message

end Error

/-- A step on a media of type `μ` that can fail; the media afterwards is kept
either way. -/
abbrev Access (μ : Type) := ExceptT Error (StateM μ)

end Remap.Media

namespace Remap

class Media (μ : Type) where
  size : μ → Nat
  read : (offset length : Nat) → Media.Access μ (List UInt8)
  write : (offset : Nat) → (bytes : List UInt8) → Media.Access μ Unit
  flush : Media.Access μ Unit

end Remap
