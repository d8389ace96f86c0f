import Remap.Block.Arena.Basic

/-!
# Laying out an arena

A fresh arena has an all-zero map, initial flog slots and two info blocks. The
info block at the start of the arena is written last, after all else is durable,
so where no info block was before, an arena whose layout was cut short is not
taken for a whole one.
-/

namespace Remap.Block

namespace Arena

def zeroChunk : Nat := 65536

def chunks (length : Nat) : List (Nat × Nat) :=
  (List.range ((length + zeroChunk - 1) / zeroChunk)).map fun index =>
    (index * zeroChunk, min zeroChunk (length - index * zeroChunk))

def initialFlog (info : InfoBlock) : List FlogSlot :=
  (List.range info.nfree.toNat).map fun slot => .initial (.ofNat slot) info.external

variable {μ : Type} [Media μ]

def zeroMap (span : Span) (info : InfoBlock) : Step μ Unit :=
  let start := span.base + info.mapOffset.toNat
  let zeros := List.replicate zeroChunk 0
  (chunks (info.dataOffset.toNat - info.mapOffset.toNat)).forM fun (offset, length) =>
    Step.writeAt (start + offset) (zeros.drop (zeroChunk - length))

def format (span : Span) (info : InfoBlock) : Step μ Arena := do
  let flog := initialFlog info
  zeroMap span info
  Step.writeAt (span.base + info.flogOffset.toNat) (flog.flatMap FlogSlot.toBytes)
  Step.flush
  Step.writeAt (span.base + info.infoOffset.toNat) info.toBytes
  Step.flush
  Step.writeAt span.base info.toBytes
  Step.flush
  return { span, info, flog, readOnly := false }

end Arena

end Remap.Block
