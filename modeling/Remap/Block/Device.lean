import Remap.Block.Arena.Format
import Remap.Block.Arena.Load
import Remap.Block.Arena.Transfer
import Remap.Block.Settings

/-!
# Block devices

A block device is a sequence of arenas on one media, seen by callers as blocks
numbered from zero on through all arenas. It is laid out once and mounted from
then on. Laying out computes everything before the first access, so a refusal
leaves the media alone.
-/

namespace Remap.Block

structure Device where
  parent : Uuid
  externalSize : UInt32
  internalSize : UInt32
  arenas : List Arena
deriving DecidableEq, Repr

structure Layout where
  parent : Uuid
  nfree : UInt32
  blockSize : UInt32
  totalSize : Nat
deriving DecidableEq, Repr

namespace Layout

def ofSettings (settings : Settings) (parent : Uuid) (totalSize : Nat) : Layout :=
  { parent, nfree := settings.nfree, blockSize := settings.blockSize, totalSize }

end Layout

namespace Device

def dataBlockSize (blockSize : UInt32) : Except Error UInt32 :=
  let internalSize := internalBlockSize blockSize
  if blockSize = 0 ∨ internalSize < blockSize then .error (.blockSize blockSize)
  else .ok internalSize

def checkRoom (totalSize mediaSize : Nat) : Except Error Unit :=
  if mediaSize < totalSize then .error (.beyondMedia totalSize mediaSize) else .ok ()

def infoBlocks (layout : Layout) (internalSize : UInt32) (entropy : Entropy) :
    (draw : Nat) → (spans : List Span) → Except Error (List InfoBlock)
  | _, [] => .ok []
  | draw, span :: rest => do
      let geometry ← (Geometry.compute span.size layout.nfree.toNat
        internalSize.toNat).mapError .layout
      let some uuid := entropy.uuid? draw | throw .noEntropy
      let nextOffset := if rest.isEmpty then 0 else span.size
      let info := InfoBlock.ofGeometry uuid layout.parent layout.blockSize internalSize
        geometry nextOffset
      return info :: (← infoBlocks layout internalSize entropy (draw + 1) rest)

def plan (layout : Layout) (entropy : Entropy) (mediaSize : Nat) :
    Except Error (List (Span × InfoBlock)) := do
  let internalSize ← dataBlockSize layout.blockSize
  checkRoom layout.totalSize mediaSize
  if layout.nfree = 0 then
    throw (.layout .noFreeBlocks)
  let spans ← (Span.plan layout.totalSize maxArena).mapError .layout
  return spans.zip (← infoBlocks layout internalSize entropy 0 spans)

def expectations (parent : Uuid) (externalSize internalSize : UInt32) :
    (spans : List Span) → List (Span × Expectation)
  | [] => []
  | span :: rest =>
      let hasNext := !rest.isEmpty
      (span, { parent, externalSize, internalSize, arenaSize := span.size, hasNext }) ::
        expectations parent externalSize internalSize rest

def survey (parent : Uuid) (totalSize : Nat) (blockSize : UInt32) (mediaSize : Nat) :
    Except Error (List (Span × Expectation)) := do
  let internalSize ← dataBlockSize blockSize
  checkRoom totalSize mediaSize
  let spans ← (Span.plan totalSize maxArena).mapError .layout
  return expectations parent blockSize internalSize spans

def countBlocks : (arenas : List Arena) → Nat
  | [] => 0
  | arena :: rest => arena.info.external.toNat + countBlocks rest

def blockCount (device : Device) : Nat := countBlocks device.arenas

def capacity (device : Device) : Nat :=
  device.blockCount * device.externalSize.toNat

def place? : (arenas : List Arena) → (lba : Nat) → Option (Nat × UInt32)
  | [], _ => none
  | arena :: rest, lba =>
      let count := arena.info.external.toNat
      if lba < count then some (0, .ofNat lba)
      else (place? rest (lba - count)).map fun (index, block) => (index + 1, block)

def locate (device : Device) (lba length : Nat) : Except Error (Nat × UInt32) :=
  if length ≠ device.externalSize.toNat then
    .error (.bufferLength length device.externalSize)
  else
    match place? device.arenas lba with
    | some place => .ok place
    | none => .error (.beyondEnd lba device.blockCount)

variable {μ : Type} [Media μ]

def create (layout : Layout) (entropy : Entropy) : Step μ Device := do
  let arenas ← Step.ofExcept (plan layout entropy (Media.size (← get)))
  let arenas ← arenas.mapM fun (span, info) => Arena.format span info
  return {
    parent := layout.parent
    externalSize := layout.blockSize
    internalSize := internalBlockSize layout.blockSize
    arenas }

def load (parent : Uuid) (totalSize : Nat) (blockSize : UInt32) : Step μ Device := do
  let arenas ← Step.ofExcept (survey parent totalSize blockSize (Media.size (← get)))
  let arenas ← arenas.mapM fun (span, expected) => Arena.load span expected
  return {
    parent
    externalSize := blockSize
    internalSize := internalBlockSize blockSize
    arenas }

def read (device : Device) (lba length : Nat) : Step μ (List UInt8) := do
  let (index, block) ← Step.ofExcept (device.locate lba length)
  match device.arenas[index]? with
  | some arena => arena.read block length
  | none => throw (.beyondEnd lba device.blockCount)

/-- Replace block `lba`. After a loss of power at any point, the next mount finds
either the old or the new block. -/
def write (device : Device) (lba : Nat) (bytes : List UInt8) :
    StateM μ (Except Error Unit × Device) := do
  match device.locate lba bytes.length with
  | .error cause => return (.error cause, device)
  | .ok (index, block) =>
      match device.arenas[index]? with
      | none => return (.error (.beyondEnd lba device.blockCount), device)
      | some arena =>
          let (outcome, arena) ← arena.write block bytes
          return (outcome, { device with arenas := device.arenas.set index arena })

end Device

end Remap.Block
