import Remap.Block.Step

/-!
# Arenas

An arena is mounted with its info block and its flog in memory. The map and the
data blocks stay on the media; a map entry is always reached through the cache
line that holds it.
-/

namespace Remap.Block

structure Arena where
  span : Span
  info : InfoBlock
  flog : List FlogSlot
  readOnly : Bool
deriving DecidableEq, Repr

namespace Arena

def mapStart (arena : Arena) : Nat := arena.span.base + arena.info.mapOffset.toNat

def entryOffset (arena : Arena) (lba : UInt32) : Nat :=
  arena.mapStart + lba.toNat * mapEntryBytes

def lineOffset (arena : Arena) (lba : UInt32) : Nat :=
  alignDown (arena.entryOffset lba) cacheLine

def dataOffset (arena : Arena) (block : UInt32) : Nat :=
  arena.span.base + arena.info.dataOffset.toNat +
    block.toNat * arena.info.internalSize.toNat

def recordOffset (arena : Arena) (slot : FlogSlot) : Nat :=
  arena.span.base + arena.info.flogOffset.toNat + slot.sparePosition * FlogRecord.width

variable {μ : Type} [Media μ]

def readMapEntry (arena : Arena) (lba : UInt32) : Step μ MapEntry := do
  let start := arena.lineOffset lba
  let line ← Step.readAt start cacheLine
  return ⟨.ofNat (Bytes.number (arena.entryOffset lba - start) mapEntryBytes line)⟩

def writeMapEntry (arena : Arena) (lba : UInt32) (entry : MapEntry) : Step μ Unit := do
  let start := arena.lineOffset lba
  let line ← Step.readAt start cacheLine
  let field := LittleEndian.encode mapEntryBytes entry.raw.toNat
  Step.writeAt start (Bytes.overwrite (arena.entryOffset lba - start) field line)

end Arena

end Remap.Block
