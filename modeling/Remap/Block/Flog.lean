import Remap.Block.MapEntry
import Remap.Block.Layout.Alignment
import Remap.Bytes.LittleEndian

/-!
# The free-block log

An arena keeps `nfree` slots of 64 bytes. A slot holds two 16-byte records, each
naming an external block, its map entry before and after a write, and a sequence
number; the rest is padding. One of the two records is active: the one whose
sequence number follows that of the other in the cycle 1, 2, 3, 1, where 0 marks
a record never written. A write stages its record over the inactive one, and
only the store of the sequence number makes it active. The block that backed the
active record's old entry is the free block of the slot.
-/

namespace Remap.Block

def nextSeq (seq : UInt32) : UInt32 :=
  if seq = 1 then 2 else if seq = 2 then 3 else 1

structure FlogRecord where
  lba : UInt32
  oldMap : MapEntry
  newMap : MapEntry
  seq : UInt32
deriving DecidableEq, Repr

namespace FlogRecord

def width : Nat := 16

def bodyWidth : Nat := 12

def blank : FlogRecord := ⟨0, .zero, .zero, 0⟩

def body (record : FlogRecord) : List UInt8 :=
  LittleEndian.encode 4 record.lba.toNat ++
    LittleEndian.encode 4 record.oldMap.raw.toNat ++
    LittleEndian.encode 4 record.newMap.raw.toNat

def tail (record : FlogRecord) : List UInt8 :=
  LittleEndian.encode 4 record.seq.toNat

def toBytes (record : FlogRecord) : List UInt8 := record.body ++ record.tail

@[simp] theorem length_body (record : FlogRecord) : record.body.length = bodyWidth := by
  simp [body, bodyWidth]

@[simp] theorem length_toBytes (record : FlogRecord) : record.toBytes.length = width := by
  simp [toBytes, tail, bodyWidth, width]

def ofBytes (offset : Nat) (bytes : List UInt8) : FlogRecord :=
  let word (position : Nat) := UInt32.ofNat (Bytes.number (offset + position) 4 bytes)
  { lba := word 0, oldMap := ⟨word 4⟩, newMap := ⟨word 8⟩, seq := word 12 }

end FlogRecord

inductive FlogError
  | sequences (first second : UInt32)
  | lba (lba external : UInt32)
  | postMap (block internal : UInt32)
deriving DecidableEq, Repr

namespace FlogError

def message : FlogError → String
  | sequences first second =>
      s!"invalid flog sequence pair ({first.toNat}, {second.toNat})"
  | lba block external =>
      s!"flog lba {block.toNat} beyond {external.toNat} external blocks"
  | postMap block internal =>
      s!"flog post-map lba {block.toNat} beyond {internal.toNat} internal blocks"

end FlogError

structure FlogSlot where
  active : FlogRecord
  spare : FlogRecord
  position : Fin 2
deriving DecidableEq, Repr

namespace FlogSlot

/-- Slot number `slot` of a fresh arena with `external` external blocks: it owns
the data block `external + slot`, and no write is under way. -/
def initial (slot external : UInt32) : FlogSlot :=
  let free := MapEntry.normal (external + slot)
  { active := ⟨slot, free, free, 1⟩, spare := .blank, position := 0 }

def sparePosition (slot : FlogSlot) : Nat := 1 - slot.position.val

def records (slot : FlogSlot) : List FlogRecord :=
  if slot.position = 0 then [slot.active, slot.spare] else [slot.spare, slot.active]

def toBytes (slot : FlogSlot) : List UInt8 :=
  slot.records.flatMap FlogRecord.toBytes ++
    List.replicate (flogSlotBytes - 2 * FlogRecord.width) 0

@[simp] theorem length_toBytes (slot : FlogSlot) :
    slot.toBytes.length = flogSlotBytes := by
  unfold toBytes records
  split <;> simp [FlogRecord.width, flogSlotBytes]

def activePosition (first second : UInt32) : Fin 2 :=
  if second = 0 ∨ (first ≠ 0 ∧ nextSeq second = first) then 0 else 1

/-- The slot with these stored records. Each record must name an external block,
and both entries of the active one must be backed by data blocks. -/
def ofRecords (first second : FlogRecord) (external internal : UInt32) :
    Except FlogError FlogSlot :=
  if 3 < first.seq ∨ 3 < second.seq ∨ first.seq = second.seq then
    .error (.sequences first.seq second.seq)
  else
    let position := activePosition first.seq second.seq
    let (active, spare) := if position = 0 then (first, second) else (second, first)
    match [first, second].find? (external ≤ ·.lba) with
    | some record => .error (.lba record.lba external)
    | none =>
        let blocks := [active.oldMap, active.newMap].map (·.backingBlock active.lba)
        match blocks.find? (internal ≤ ·) with
        | some block => .error (.postMap block internal)
        | none => .ok { active, spare, position }

def ofBytes (bytes : List UInt8) (external internal : UInt32) :
    Except FlogError FlogSlot :=
  ofRecords (.ofBytes 0 bytes) (.ofBytes FlogRecord.width bytes) external internal

def freeBlock (slot : FlogSlot) : UInt32 :=
  slot.active.oldMap.backingBlock slot.active.lba

/-- Whether the active record describes a change of the map that may not have
reached it. -/
def needsRecovery (slot : FlogSlot) : Bool :=
  slot.active.oldMap != slot.active.newMap

def nextRecord (slot : FlogSlot) (lba : UInt32) (oldMap newMap : MapEntry) :
    FlogRecord :=
  { lba, oldMap, newMap, seq := nextSeq slot.active.seq }

def commit (slot : FlogSlot) (record : FlogRecord) : FlogSlot :=
  { active := record
    spare := slot.active
    position := if slot.position = 0 then 1 else 0 }

end FlogSlot

end Remap.Block
