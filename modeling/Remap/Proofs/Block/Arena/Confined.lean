import Remap.Proofs.Block.Arena.Mount
import Remap.Proofs.Block.Confined

/-!
# The bytes that an arena accesses

Whatever the media holds, mounting an arena accesses bytes of its span alone, and yields an
arena whose regions lie in the span and whose flog, while it takes writes, is sound. A read of
such an arena accesses only the cache line of the map entry of its block and a data block. A
write accesses that line, the records of the first flog slot, and the block that this slot
names as free; a sound flog names a data block of the arena. The block that a write leaves free
for the next one is the one that the map entry of its block named; a read checks that entry, a
write does not. So the flog stays sound as long as the entries that writes replace name data
blocks of the arena.
-/

namespace Remap.Block

open Remap.Media

namespace Arena

def dataStop (arena : Arena) : Nat :=
  arena.dataStart + arena.info.internal.toNat * arena.info.internalSize.toNat

/-- What a read or a write of block `lba` may access when a block takes `length` bytes. A data
block is one of the arena, and it is accessed inside the data area. -/
inductive Uses (arena : Arena) (lba : UInt32) (length : Nat) : Event → Prop
  | flush : Uses arena lba length .flush
  | readLine : Uses arena lba length (.read (arena.lineOffset lba) cacheLine)
  | writeLine : Uses arena lba length (.write (arena.lineOffset lba) cacheLine)
  | writeBody (slot : FlogSlot) :
      Uses arena lba length (.write (arena.recordOffset slot) FlogRecord.bodyWidth)
  | writeTail (slot : FlogSlot) :
      Uses arena lba length (.write (arena.tailOffset slot)
        (FlogRecord.width - FlogRecord.bodyWidth))
  | readData {block : UInt32} (named : block < arena.info.internal)
      (inside : (Event.read (arena.dataOffset block) length).Inside
        arena.dataStart arena.dataStop) :
      Uses arena lba length (.read (arena.dataOffset block) length)
  | writeData {block : UInt32} (named : block < arena.info.internal)
      (inside : (Event.write (arena.dataOffset block) length).Inside
        arena.dataStart arena.dataStop) :
      Uses arena lba length (.write (arena.dataOffset block) length)

def Serves (arena : Arena) (lba : UInt32) (length : Nat) (event : Event) : Prop :=
  event.Inside arena.span.base arena.span.stop ∧ arena.Uses lba length event

/-- What a write of block `lba` may access: what serves it, and the block that the first slot
names as free, wherever that is. -/
def Reaches (arena : Arena) (lba : UInt32) (length : Nat) (event : Event) : Prop :=
  arena.Serves lba length event ∨
    arena.readOnly = false ∧ ∃ slot, arena.flog.head? = some slot ∧
      event = .write (arena.dataOffset slot.freeBlock) length

structure Placed (arena : Arena) (blockSize : UInt32) : Prop where
  divided : arena.info.Divides arena.span
  size_eq : arena.info.externalSize = blockSize

def FlogSound (arena : Arena) : Prop :=
  arena.readOnly = false →
    ∀ slot ∈ arena.flog, slot.Sound arena.info.external arena.info.internal

variable {arena : Arena} {lba block blockSize : UInt32} {length : Nat}

theorem data_inside (named : block < arena.info.internal)
    (fits : length ≤ arena.info.internalSize.toNat) :
    arena.dataStart ≤ arena.dataOffset block ∧
      arena.dataOffset block + length ≤ arena.dataStop := by
  have small : block.toNat + 1 ≤ arena.info.internal.toNat := UInt32.lt_iff_toNat_lt.mp named
  have scaled := Nat.mul_le_mul_right arena.info.internalSize.toNat small
  rw [Nat.add_mul, Nat.one_mul] at scaled
  rw [dataOffset, dataStop, dataStart]
  omega

section Offsets

variable (divided : arena.info.Divides arena.span)
include divided

theorem dataStop_le : arena.dataStop + infoBlockBytes ≤ arena.span.stop := by
  have stop := divided.data_end
  have last := divided.info_end
  rw [dataStop, dataStart, Span.stop]
  omega

theorem serves_of_uses (inside : lba < arena.info.external) {event : Event}
    (uses : arena.Uses lba length event) : arena.Serves lba length event := by
  refine ⟨?_, uses⟩
  obtain ⟨lower, -, -, upper⟩ := line_range divided inside
  have order := region_order divided
  have stop := dataStop_le divided
  cases uses with
  | flush => trivial
  | readLine => exact ⟨by omega, by omega⟩
  | writeLine => exact ⟨by omega, by omega⟩
  | writeBody slot =>
      have range := record_range divided slot
      simp only [FlogRecord.width] at range
      simp only [Event.Inside, FlogRecord.bodyWidth]
      omega
  | writeTail slot =>
      have range := record_range divided slot
      simp only [FlogRecord.width] at range
      simp only [Event.Inside, tailOffset, FlogRecord.bodyWidth, FlogRecord.width]
      omega
  | readData named within => exact within.mono (by omega) (by omega)
  | writeData named within => exact within.mono (by omega) (by omega)

theorem serves_of_reaches (sound : arena.FlogSound) (inside : lba < arena.info.external)
    (fits : length ≤ arena.info.internalSize.toNat) {event : Event}
    (reaches : arena.Reaches lba length event) : arena.Serves lba length event := by
  obtain serves | ⟨writable, slot, first, rfl⟩ := reaches
  · exact serves
  · have named := (sound writable slot (List.mem_of_head? first)).old_lt
    exact serves_of_uses divided inside (.writeData named (data_inside named fits))

theorem entryAt_store_data {contents : Contents} {bytes : List UInt8}
    (inside : lba < arena.info.external) :
    arena.entryAt (contents.store (arena.dataOffset block) bytes) lba =
      arena.entryAt contents lba := by
  obtain ⟨-, upper⟩ := entry_range divided inside
  have start : arena.dataStart ≤ arena.dataOffset block := Nat.le_add_right _ _
  simp only [mapEntryBytes] at upper
  rw [entryAt, Contents.word_store_apart (by omega), entryAt]

end Offsets

variable {μ : Type} [Media μ] [Atomic μ] {before : Contents} {allowed : Event → Prop}

section Entries

variable (lined : arena.info.Lined arena.span) (inside : lba < arena.info.external)
include lined inside

theorem confined_readMapEntry {done : MapEntry → Contents → Prop}
    (accepted : allowed (.read (arena.lineOffset lba) cacheLine))
    (ok : done (arena.entryAt before lba) before) :
    (arena.readMapEntry lba : Step (Probe μ) _).Confined before allowed done := by
  rw [readMapEntry]
  apply Step.confined_bind
  apply Step.confined_readAt accepted
  apply Step.confined_pure
  rw [entry_of_line lined inside]
  exact ok

theorem confined_writeMapEntry {entry : MapEntry}
    (read : allowed (.read (arena.lineOffset lba) cacheLine))
    (write : allowed (.write (arena.lineOffset lba) cacheLine)) :
    (arena.writeMapEntry lba entry : Step (Probe μ) _).Confined before allowed
      fun _ _ => True := by
  obtain ⟨-, below, within, -⟩ := line_inMap lined inside
  rw [writeMapEntry]
  apply Step.confined_bind
  apply Step.confined_readAt read
  apply Step.confined_writeAt _ trivial
  rw [Bytes.length_overwrite, Contents.length_load]
  · exact write
  · rw [LittleEndian.length_encode, Contents.length_load]
    omega

end Entries

section Mounting

variable {span : Span} {expected : Expectation} {info : InfoBlock} {offset : Nat}

theorem confined_infoAt (accepted : allowed (.read offset infoBlockBytes)) :
    (readInfo offset expected : Step (Probe μ) _).Confined before allowed fun outcome after =>
      outcome = infoAt before offset expected ∧ after = before := by
  rw [readInfo]
  apply Step.confined_bind
  apply Step.confined_readAt accepted
  exact Step.confined_pure ⟨rfl, rfl⟩

theorem confined_readInfo (accepted : allowed (.read offset infoBlockBytes)) :
    (readInfo offset expected : Step (Probe μ) _).Confined before allowed fun outcome _ =>
      ∀ info, outcome = .ok info → info.mismatch? expected = none := by
  apply (confined_infoAt accepted).mono fun _ => id
  rintro _ _ ⟨rfl, -⟩ info decoded
  exact (infoAt_ok_iff.mp decoded).2

theorem confined_restoreInfo (write : allowed (.write span.base infoBlockBytes))
    (flush : allowed .flush) :
    (restoreInfo span info : Step (Probe μ) _).Confined before allowed fun _ _ => True := by
  rw [restoreInfo]
  apply Step.confined_bind
  apply Step.confined_outcome
  · apply Step.confined_bind
    apply Step.confined_writeAt
    · rw [InfoBlock.length_toBytes]
      exact write
    · exact Step.confined_flush flush (Step.confined_pure trivial)
  · exact fun _ _ => Step.confined_pure trivial

/-- The info block in use is one that the survey accepts, whichever copy it is. -/
theorem confined_loadInfo (large : infoBlockBytes ≤ span.size) :
    (loadInfo span expected : Step (Probe μ) _).Confined before
      (fun event => event.Inside span.base span.stop)
      (fun info _ => info.mismatch? expected = none) := by
  have primary : (Event.read span.base infoBlockBytes).Inside span.base span.stop :=
    ⟨Nat.le_refl _, Nat.add_le_add_left large _⟩
  have backup : (Event.read (span.stop - infoBlockBytes) infoBlockBytes).Inside
      span.base span.stop := by
    simp only [Event.Inside, Span.stop]
    omega
  rw [loadInfo]
  apply Step.confined_bind
  apply (confined_readInfo primary).mono fun _ => id
  intro outcome contents found
  cases outcome with
  | ok info => exact Step.confined_pure (found info rfl)
  | error cause =>
      apply Step.confined_bind
      apply (confined_readInfo backup).mono fun _ => id
      intro outcome contents found
      cases outcome with
      | error other => exact Step.confined_throw
      | ok info =>
          apply Step.confined_bind
          apply (confined_restoreInfo primary trivial).mono fun _ => id
          exact fun _ _ _ => Step.confined_pure (found info rfl)

theorem confined_readFlog (divided : info.Divides span) :
    (readFlog span info : Step (Probe μ) _).Confined before
      (fun event => event.Inside span.base span.stop)
      (fun flog _ => ∀ slots, flog = some slots →
        ∀ slot ∈ slots, slot.Sound info.external info.internal) := by
  have inside : (Event.read (span.base + info.flogOffset.toNat)
      (info.nfree.toNat * flogSlotBytes)).Inside span.base span.stop := by
    have order := @region_order ⟨span, info, [], false⟩ divided
    simp only [flogStart, flogLength] at order
    simp only [Event.Inside]
    omega
  rw [readFlog]
  apply Step.confined_bind
  apply Step.confined_outcome
  · apply Step.confined_readAt inside
    apply Step.confined_pure
    intro slots found
    cases decoded : decodeFlog info (before.load (span.base + info.flogOffset.toNat)
        (info.nfree.toNat * flogSlotBytes)) with
    | error cause =>
        rw [decoded] at found
        cases found
    | ok flog =>
        rw [decoded] at found
        cases found
        exact decodeFlog_sound decoded
  · intro cause contents
    apply Step.confined_pure
    rintro _ ⟨⟩

theorem confined_recover (divided : arena.info.Divides arena.span)
    (sound : ∀ slot ∈ arena.flog, slot.Sound arena.info.external arena.info.internal) :
    (arena.recover : Step (Probe μ) _).Confined before
      (fun event => event.Inside arena.span.base arena.span.stop) fun _ _ => True := by
  rw [recover]
  apply Step.confined_forM
  intro slot member contents
  have inside : slot.active.lba < arena.info.external :=
    (sound slot (List.mem_of_mem_filter member)).active_lba
  obtain ⟨read, -⟩ : arena.Serves slot.active.lba 0 (.read (arena.lineOffset slot.active.lba) _) :=
    serves_of_uses divided inside .readLine
  obtain ⟨write, -⟩ : arena.Serves slot.active.lba 0 (.write (arena.lineOffset slot.active.lba) _) :=
    serves_of_uses divided inside .writeLine
  rw [replay]
  apply Step.confined_bind
  apply confined_readMapEntry divided.lined inside read
  split
  next =>
    apply Step.confined_bind
    apply (confined_writeMapEntry divided.lined inside read write).mono fun _ => id
    exact fun _ _ _ => Step.confined_flush trivial trivial
  next => exact Step.confined_pure trivial

theorem confined_load (size_eq : expected.arenaSize = span.size) (large : minArena ≤ span.size)
    (aligned : span.base % regionAlignment = 0)
    (fits : expected.externalSize.toNat ≤ expected.internalSize.toNat) :
    (load span expected : Step (Probe μ) _).Confined before
      (fun event => event.Inside span.base span.stop)
      (fun arena _ => arena.span = span ∧ arena.Placed expected.externalSize ∧
        arena.FlogSound) := by
  have room : infoBlockBytes ≤ minArena := by decide
  rw [load]
  apply Step.confined_bind
  apply (confined_loadInfo (Nat.le_trans room large)).mono fun _ => id
  intro info contents accepted
  obtain ⟨divided, externalSize⟩ := info.divides_of_accepted accepted size_eq large aligned fits
  split
  next => exact Step.confined_pure ⟨rfl, ⟨divided, externalSize⟩, by rintro ⟨⟩⟩
  next =>
    apply Step.confined_bind
    apply (confined_readFlog divided).mono fun _ => id
    intro flog contents sound
    cases flog with
    | none =>
        have marked : info.withErrorFlag.Divides span := { divided with }
        exact Step.confined_pure ⟨rfl, ⟨marked, externalSize⟩, by rintro ⟨⟩⟩
    | some slots =>
        apply Step.confined_bind
        apply (@confined_recover ⟨span, info, slots, false⟩ _ _ _ _ divided
          (sound slots rfl)).mono fun _ => id
        exact fun _ _ _ =>
          Step.confined_pure ⟨rfl, ⟨divided, externalSize⟩, fun _ => sound slots rfl⟩

end Mounting

section Transfers

variable {slot : FlogSlot} {bytes : List UInt8}

theorem commit_next {entry : MapEntry} (inside : lba < arena.info.external)
    (sound : slot.Sound arena.info.external arena.info.internal)
    (named : entry.backingBlock lba < arena.info.internal) :
    (slot.commit (slot.nextRecord lba (entry.explicit lba) (.normal slot.freeBlock))).Sound
      arena.info.external arena.info.internal := by
  apply sound.commit inside _ _ rfl
  · change (entry.explicit lba).backingBlock lba < _
    rw [MapEntry.backingBlock_explicit]
    exact named
  · change (MapEntry.normal slot.freeBlock).backingBlock lba < _
    rw [MapEntry.backingBlock, MapEntry.explicit_normal]
    exact Std.lt_of_le_of_lt (MapEntry.block_normal_le _) sound.old_lt

section Made

variable (placed : arena.Placed blockSize) (inside : lba < arena.info.external)
include placed inside

theorem confined_read :
    (arena.read lba blockSize.toNat : Step (Probe μ) _).Confined before
      (arena.Serves lba blockSize.toNat) fun _ _ => True := by
  have serves {event : Event} (uses : arena.Uses lba blockSize.toNat event) :
      arena.Serves lba blockSize.toNat event := serves_of_uses placed.divided inside uses
  rw [read]
  apply Step.confined_bind
  apply confined_readMapEntry placed.divided.lined inside (serves .readLine)
  split
  next => exact Step.confined_throw
  next => exact Step.confined_pure trivial
  next block _ =>
    split
    next => exact Step.confined_throw
    next inArena =>
      have named : block < arena.info.internal := UInt32.not_le.mp inArena
      have fits := placed.divided.size_le
      rw [placed.size_eq] at fits
      exact Step.confined_readAt (serves (.readData named (data_inside named fits))) trivial

theorem reaches_of_uses {event : Event} (uses : arena.Uses lba blockSize.toNat event) :
    arena.Reaches lba blockSize.toNat event :=
  .inl (serves_of_uses placed.divided inside uses)

theorem confined_stage (writable : arena.readOnly = false)
    (first : arena.flog.head? = some slot) (width : bytes.length = blockSize.toNat) :
    (arena.stage slot lba bytes : Step (Probe μ) _).Confined before
      (arena.Reaches lba blockSize.toNat)
      (fun record _ => record = slot.nextRecord lba ((arena.entryAt before lba).explicit lba)
        (.normal slot.freeBlock)) := by
  rw [stage]
  apply Step.confined_bind
  apply Step.confined_writeAt
  · rw [width]
    exact .inr ⟨writable, slot, first, rfl⟩
  · apply Step.confined_bind
    apply Step.confined_flush (reaches_of_uses placed inside .flush)
    apply Step.confined_bind
    apply confined_readMapEntry placed.divided.lined inside (reaches_of_uses placed inside .readLine)
    rw [entryAt_store_data placed.divided inside]
    apply Step.confined_bind
    apply Step.confined_writeAt
    · rw [FlogRecord.length_body]
      exact reaches_of_uses placed inside (.writeBody slot)
    · apply Step.confined_bind
      apply Step.confined_flush (reaches_of_uses placed inside .flush)
      exact Step.confined_pure rfl

theorem confined_tail {record : FlogRecord} :
    (Step.writeAt (arena.tailOffset slot) record.tail : Step (Probe μ) _).Confined before
      (arena.Reaches lba blockSize.toNat) fun _ _ => True := by
  apply Step.confined_writeAt _ trivial
  have width : record.tail.length = FlogRecord.width - FlogRecord.bodyWidth := by
    rw [FlogRecord.tail, LittleEndian.length_encode]
    rfl
  rw [width]
  exact reaches_of_uses placed inside (.writeTail slot)

theorem confined_publish {record : FlogRecord} (lba_eq : record.lba = lba) :
    (arena.publish record : Step (Probe μ) _).Confined before
      (arena.Reaches lba blockSize.toNat) fun _ _ => True := by
  subst lba_eq
  rw [publish]
  apply Step.confined_bind
  apply (confined_writeMapEntry placed.divided.lined inside
    (reaches_of_uses placed inside .readLine)
    (reaches_of_uses placed inside .writeLine)).mono fun _ => id
  exact fun _ _ _ => Step.confined_flush (reaches_of_uses placed inside .flush) trivial

section Run

variable {others : List FlogSlot} {probe : Probe μ} (recording : probe.recording = true)
  (width : bytes.length = blockSize.toNat) (writable : arena.readOnly = false)
  (flog_eq : arena.flog = slot :: others)
include recording width writable flog_eq

theorem staged_record {record : FlogRecord} {staged : Probe μ}
    (stage : (arena.stage slot lba bytes).on probe = (.ok record, staged)) :
    record = slot.nextRecord lba ((arena.entryAt (Atomic.contents probe) lba).explicit lba)
      (.normal slot.freeBlock) := by
  have first : arena.flog.head? = some slot := flog_eq ▸ rfl
  exact (confined_stage placed inside writable first width).of_ok recording stage

/-- At whichever access a write stops, each one before was one that it may make. -/
theorem run_continues {landed : Bool} {outcome : Except Error Unit} {written : Arena}
    {last : Probe μ} (run : WriteRun arena slot others lba bytes probe landed outcome written last) :
    probe.Continues (arena.Reaches lba blockSize.toNat) last := by
  have first : arena.flog.head? = some slot := flog_eq ▸ rfl
  have staging : (arena.stage slot lba bytes : Step (Probe μ) _).Confined
      (Atomic.contents probe) (arena.Reaches lba blockSize.toNat) _ :=
    confined_stage placed inside writable first width
  have storing {contents : Contents} {record : FlogRecord} :
      (Step.writeAt (arena.tailOffset slot) record.tail : Step (Probe μ) _).Confined
        contents (arena.Reaches lba blockSize.toNat) _ := confined_tail placed inside
  have flushing {contents : Contents} : (Step.flush : Step (Probe μ) Unit).Confined
      contents (arena.Reaches lba blockSize.toNat) fun _ _ => True :=
    Step.confined_flush (reaches_of_uses placed inside .flush) trivial
  have publishing {contents : Contents} {record : FlogRecord} (lba_eq : record.lba = lba) :
      (arena.publish record : Step (Probe μ) _).Confined contents
        (arena.Reaches lba blockSize.toNat) _ := confined_publish placed inside lba_eq
  cases run with
  | notStaged stage => exact staging.continues recording stage
  | notLanded stage tail =>
      have staged := staging.continues recording stage
      exact staged.trans (storing.continues staged.recording tail)
  | notFlushed stage tail flush =>
      have staged := staging.continues recording stage
      have stored := staged.trans (storing.continues staged.recording tail)
      exact stored.trans (flushing.continues stored.recording flush)
  | notPublished stage tail flush publish | written stage tail flush publish =>
      have staged := staging.continues recording stage
      have stored := staged.trans (storing.continues staged.recording tail)
      have flushed := stored.trans (flushing.continues stored.recording flush)
      obtain rfl := staged_record placed inside recording width writable flog_eq stage
      exact flushed.trans ((publishing rfl).continues flushed.recording publish)

end Run

/-- A write reaches nothing else, and leaves the flog sound if it was and if the map entry that
it finds names a data block of the arena. -/
theorem write_reaches {probe : Probe μ} (recording : probe.recording = true)
    (width : bytes.length = blockSize.toNat) :
    probe.Continues (arena.Reaches lba blockSize.toNat) (arena.write lba bytes probe).2 ∧
      (arena.write lba bytes probe).1.2.Placed blockSize ∧
      (arena.FlogSound → (arena.readOnly = false →
          (arena.entryAt (Atomic.contents probe) lba).backingBlock lba < arena.info.internal) →
        (arena.write lba bytes probe).1.2.FlogSound) := by
  by_cases refuses : arena.readOnly = true ∨ arena.flog = []
  · rw [write_refused refuses]
    exact ⟨.refl recording, placed, fun sound _ => sound⟩
  obtain ⟨live, filled⟩ := not_or.mp refuses
  have writable := Bool.eq_false_iff.mpr live
  obtain ⟨slot, others, flog_eq⟩ := List.exists_cons_of_ne_nil filled
  obtain ⟨landed, outcome, written, last, -, ran, run⟩ := write_runs writable flog_eq probe
  rw [ran]
  refine ⟨run_continues placed inside recording width writable flog_eq run, ?_⟩
  cases run with
  | notStaged => exact ⟨placed, fun sound _ => sound⟩
  | notLanded | notFlushed | notPublished =>
      exact ⟨⟨placed.divided, placed.size_eq⟩, fun _ _ => nofun⟩
  | written stage =>
      refine ⟨⟨placed.divided, placed.size_eq⟩, fun sound named _ other member => ?_⟩
      obtain rfl := staged_record placed inside recording width writable flog_eq stage
      have sound := sound writable
      rw [flog_eq] at sound
      rcases List.mem_cons.mp member with rfl | later
      · exact commit_next inside (sound slot List.mem_cons_self) (named writable)
      · exact sound other (List.mem_cons_of_mem slot later)

/-- While the flog is sound, a write keeps to the bytes of the arena. -/
theorem write_inside (sound : arena.FlogSound) {probe : Probe μ}
    (recording : probe.recording = true) (width : bytes.length = blockSize.toNat) :
    probe.Continues (arena.Serves lba blockSize.toNat) (arena.write lba bytes probe).2 := by
  have fits := placed.divided.size_le
  rw [placed.size_eq] at fits
  exact (write_reaches placed inside recording width).1.mono fun _ =>
    serves_of_reaches placed.divided sound inside fits

/-- A write that completes frees the data block that the replaced entry named, whether the
arena has it or not; so it leaves a sound flog sound only if the arena has it. -/
theorem flogSound_iff_named (sound : arena.FlogSound) {probe : Probe μ}
    (recording : probe.recording = true) (width : bytes.length = blockSize.toNat)
    (writable : arena.readOnly = false) (completed : (arena.write lba bytes probe).1.1 = .ok ()) :
    (arena.write lba bytes probe).1.2.FlogSound ↔
      (arena.entryAt (Atomic.contents probe) lba).backingBlock lba < arena.info.internal := by
  refine ⟨fun kept => ?_, fun named =>
    (write_reaches placed inside recording width).2.2 sound fun _ => named⟩
  cases flog_eq : arena.flog with
  | nil =>
      rw [write_refused (.inr flog_eq)] at completed
      cases completed
  | cons slot others =>
      obtain ⟨landed, outcome, written, last, -, ran, run⟩ := write_runs writable flog_eq probe
      rw [ran] at completed kept
      obtain rfl : outcome = .ok () := completed
      cases run with
      | written stage =>
          obtain rfl := staged_record placed inside recording width writable flog_eq stage
          have freed := (kept writable _ List.mem_cons_self).old_lt
          change ((arena.entryAt _ lba).explicit lba).backingBlock lba < _ at freed
          rw [MapEntry.backingBlock_explicit] at freed
          exact freed

end Made

end Transfers

end Arena

end Remap.Block
