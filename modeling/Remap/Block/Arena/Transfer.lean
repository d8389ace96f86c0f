import Remap.Block.Arena.Basic

/-!
# Reading and writing blocks of an arena

A block is never overwritten in place. The data goes to the free block of the
first flog slot, the change of the map is staged in the slot, the sequence number
makes it the active record, and only then the map changes. Each of these is
durable before the next begins: a loss of power before the sequence number leaves
the old block, and one after it is completed when the arena is next mounted.
-/

namespace Remap.Block

namespace Arena

variable {μ : Type} [Media μ]

def read (arena : Arena) (lba : UInt32) (length : Nat) : Step μ (List UInt8) := do
  let entry ← arena.readMapEntry lba
  match entry.mapping lba with
  | .bad => throw (.badBlock lba arena.span.base)
  | .zeros => return List.replicate length 0
  | .data block =>
      if arena.info.internal ≤ block then
        throw (.danglingEntry lba block arena.info.internal)
      Step.readAt (arena.dataOffset block) length

def stage (arena : Arena) (slot : FlogSlot) (lba : UInt32) (bytes : List UInt8) :
    Step μ FlogRecord := do
  let free := slot.freeBlock
  Step.writeAt (arena.dataOffset free) bytes
  Step.flush
  let entry ← arena.readMapEntry lba
  let record := slot.nextRecord lba (entry.explicit lba) (.normal free)
  Step.writeAt (arena.recordOffset slot) record.body
  Step.flush
  return record

def activate (arena : Arena) (slot : FlogSlot) (record : FlogRecord) : Step μ Unit := do
  Step.writeAt (arena.recordOffset slot + FlogRecord.bodyWidth) record.tail
  Step.flush

def publish (arena : Arena) (record : FlogRecord) : Step μ Unit := do
  arena.writeMapEntry record.lba record.newMap
  Step.flush

/-- Replace block `lba`. A failure from the sequence number on leaves open what
reached the media, so the arena becomes read-only. -/
def write (arena : Arena) (lba : UInt32) (bytes : List UInt8) :
    StateM μ (Except Error Unit × Arena) := do
  match arena.readOnly, arena.flog with
  | true, _ | _, [] => return (.error (.readOnly arena.span.base), arena)
  | false, slot :: others =>
      match ← (arena.stage slot lba bytes).run with
      | .error cause => return (.error cause, arena)
      | .ok record =>
          match ← (arena.activate slot record).run with
          | .error cause => return (.error cause, { arena with readOnly := true })
          | .ok () =>
              let arena := { arena with flog := slot.commit record :: others }
              match ← (arena.publish record).run with
              | .error cause => return (.error cause, { arena with readOnly := true })
              | .ok () => return (.ok (), arena)

end Arena

end Remap.Block
