import Remap.Block.Arena.Basic

/-!
# Mounting an arena

The info block at the start of the arena is used if it is sound, else the copy at
the end, which then replaces the first. An arena that is marked as failed, or
whose flog cannot be read, is mounted read-only. Otherwise the map changes that
the flog describes are completed, so that a write cut short after its sequence
number was stored becomes visible.
-/

namespace Remap.Block

namespace Arena

def decodeFlog (info : InfoBlock) (bytes : List UInt8) :
    Except FlogError (List FlogSlot) :=
  (Bytes.chunks flogSlotBytes info.nfree.toNat bytes).mapM fun slot =>
    FlogSlot.ofBytes slot info.external info.internal

variable {μ : Type} [Media μ]

def readInfo (offset : Nat) (expected : Expectation) :
    Step μ (Except InfoBlockError InfoBlock) := do
  let bytes ← Step.readAt offset infoBlockBytes
  return do
    let info ← InfoBlock.ofBytes bytes
    info.validate expected
    return info

/-- Replace the info block at the start of the arena. Failing to do so is no
failure: the copy stays in use. -/
def restoreInfo (span : Span) (info : InfoBlock) : Step μ Unit := do
  let _ ← Step.outcome do
    Step.writeAt span.base info.toBytes
    Step.flush

def loadInfo (span : Span) (expected : Expectation) : Step μ InfoBlock := do
  match ← readInfo span.base expected with
  | .ok info => return info
  | .error primary =>
      match ← readInfo (span.stop - infoBlockBytes) expected with
      | .error backup => throw (.infoBlocks span.base primary backup)
      | .ok info =>
          restoreInfo span info
          return info

def readFlog (span : Span) (info : InfoBlock) : Step μ (Option (List FlogSlot)) := do
  let offset := span.base + info.flogOffset.toNat
  match ← Step.outcome (Step.readAt offset (info.nfree.toNat * flogSlotBytes)) with
  | .error _ => return none
  | .ok bytes => return (decodeFlog info bytes).toOption

/-- Complete the map change of a slot, unless the map has moved on. -/
def replay (arena : Arena) (slot : FlogSlot) : Step μ Unit := do
  let record := slot.active
  let current ← arena.readMapEntry record.lba
  if current.explicit record.lba = record.oldMap then
    arena.writeMapEntry record.lba record.newMap
    Step.flush

def recover (arena : Arena) : Step μ Unit :=
  (arena.flog.filter (·.needsRecovery)).forM arena.replay

def load (span : Span) (expected : Expectation) : Step μ Arena := do
  let info ← loadInfo span expected
  if info.hasErrorFlag then
    return { span, info, flog := [], readOnly := true }
  match ← readFlog span info with
  | none => return { span, info := info.withErrorFlag, flog := [], readOnly := true }
  | some flog =>
      let arena : Arena := { span, info, flog, readOnly := false }
      arena.recover
      return arena

end Arena

end Remap.Block
