import Remap.Proofs.Block.Layout
import Remap.Proofs.Block.MapEntry
import Remap.Proofs.Block.Meets
import Remap.Proofs.Media.Words

/-!
# Regions of an arena

An info block that divides its span keeps the regions apart, and so does one that describes
its arena. A map entry is then a word of the contents of its own, read and stored through its
cache line, and data blocks do not overlap.
-/

namespace Remap.Block

open Remap.Media

structure InfoBlock.Describes (info : InfoBlock) (span : Span) : Prop where
  major_eq : info.major = majorVersion
  minor_eq : info.minor = minorVersion
  infoSize_eq : info.infoSize.toNat = infoBlockBytes
  flags_eq : info.flags = 0
  nfree_pos : 0 < info.nfree.toNat
  nfree_le : info.nfree.toNat ≤ info.external.toNat
  internal_eq : info.internal.toNat = info.external.toNat + info.nfree.toNat
  internal_le : info.internal.toNat ≤ maxInternalBlocks
  size_le : info.externalSize.toNat ≤ info.internalSize.toNat
  base_aligned : span.base % regionAlignment = 0
  map_aligned : info.mapOffset.toNat % regionAlignment = 0
  data_aligned : info.dataOffset.toNat % regionAlignment = 0
  flog_start : infoBlockBytes ≤ info.flogOffset.toNat
  flog_end : info.flogOffset.toNat + info.nfree.toNat * flogSlotBytes ≤ info.mapOffset.toNat
  map_end : info.mapOffset.toNat + info.external.toNat * mapEntryBytes ≤ info.dataOffset.toNat
  data_end : info.dataOffset.toNat + info.internal.toNat * info.internalSize.toNat ≤
    info.infoOffset.toNat
  info_end : info.infoOffset.toNat + infoBlockBytes = span.size

/-- The info block cuts its span into regions that follow one another, whatever it says
about the state of the arena. -/
structure InfoBlock.Divides (info : InfoBlock) (span : Span) : Prop where
  nfree_pos : 0 < info.nfree.toNat
  internal_eq : info.internal.toNat = info.external.toNat + info.nfree.toNat
  size_le : info.externalSize.toNat ≤ info.internalSize.toNat
  base_aligned : span.base % regionAlignment = 0
  map_aligned : info.mapOffset.toNat % regionAlignment = 0
  data_aligned : info.dataOffset.toNat % regionAlignment = 0
  flog_start : infoBlockBytes ≤ info.flogOffset.toNat
  flog_end : info.flogOffset.toNat + info.nfree.toNat * flogSlotBytes ≤ info.mapOffset.toNat
  map_end : info.mapOffset.toNat + info.external.toNat * mapEntryBytes ≤ info.dataOffset.toNat
  data_end : info.dataOffset.toNat + info.internal.toNat * info.internalSize.toNat ≤
    info.infoOffset.toNat
  info_end : info.infoOffset.toNat + infoBlockBytes = span.size

theorem InfoBlock.Describes.divides {info : InfoBlock} {span : Span}
    (described : info.Describes span) : info.Divides span :=
  { described with }

structure InfoBlock.Lined (info : InfoBlock) (span : Span) : Prop where
  base_aligned : span.base % cacheLine = 0
  map_aligned : info.mapOffset.toNat % cacheLine = 0
  data_aligned : info.dataOffset.toNat % cacheLine = 0
  map_end : info.mapOffset.toNat + info.external.toNat * mapEntryBytes ≤ info.dataOffset.toNat

theorem cacheLine_of_region {offset : Nat} (aligned : offset % regionAlignment = 0) :
    offset % cacheLine = 0 := by
  simp only [regionAlignment, cacheLine] at *
  omega

theorem InfoBlock.Divides.lined {info : InfoBlock} {span : Span} (divided : info.Divides span) :
    info.Lined span where
  base_aligned := cacheLine_of_region divided.base_aligned
  map_aligned := cacheLine_of_region divided.map_aligned
  data_aligned := cacheLine_of_region divided.data_aligned
  map_end := divided.map_end

structure InfoBlock.Checked (info : InfoBlock) (expected : Expectation) : Prop where
  externalSize_eq : info.externalSize = expected.externalSize
  internalSize_eq : info.internalSize = expected.internalSize
  nfree_ne : info.nfree ≠ 0
  internal_eq : info.internal.toNat = info.external.toNat + info.nfree.toNat
  info_eq : info.infoOffset.toNat = expected.arenaSize - infoBlockBytes
  map_aligned : info.mapOffset.toNat % regionAlignment = 0
  data_aligned : info.dataOffset.toNat % regionAlignment = 0
  flog_start : infoBlockBytes ≤ info.flogOffset.toNat
  flog_end : info.flogEnd ≤ info.mapOffset.toNat
  map_end : info.mapEnd ≤ info.dataOffset.toNat
  data_end : info.dataEnd ≤ info.infoOffset.toNat

theorem InfoBlock.checked_of_accepted {info : InfoBlock} {expected : Expectation}
    (accepted : info.mismatch? expected = none) : info.Checked expected := by
  have pass {disagrees : Prop} [Decidable disagrees] {cause : Mismatch} {rest : Option Mismatch} :
      (if disagrees then some cause else rest) = none ↔ ¬ disagrees ∧ rest = none := by
    by_cases holds : disagrees <;> simp [holds]
  simp only [mismatch?, pass, ne_eq, Decidable.not_not, Nat.not_lt, Bool.not_eq_true,
    Bool.not_eq_false'] at accepted
  obtain ⟨-, external, internal, free, total, info_eq, -, ordered, flog, map, data, -⟩ := accepted
  simp only [regionsOrdered, List.all_cons, List.all_nil, Bool.and_eq_true, decide_eq_true_eq,
    beq_iff_eq] at ordered
  obtain ⟨⟨⟨⟨start, -⟩, -⟩, -⟩, -, map_aligned, data_aligned, -⟩ := ordered
  exact ⟨external, internal, free, total, info_eq, map_aligned, data_aligned, start, flog, map, data⟩

theorem InfoBlock.accepted_of_validated {info : InfoBlock} {expected : Expectation}
    (validated : info.validate expected = .ok ()) : info.mismatch? expected = none := by
  rw [validate] at validated
  split at validated
  next => cases validated
  next accepted => exact accepted

theorem InfoBlock.divides_of_accepted {info : InfoBlock} {span : Span} {expected : Expectation}
    (accepted : info.mismatch? expected = none) (size_eq : expected.arenaSize = span.size)
    (large : minArena ≤ span.size) (base_aligned : span.base % regionAlignment = 0)
    (fits : expected.externalSize.toNat ≤ expected.internalSize.toNat) :
    info.Divides span ∧ info.externalSize = expected.externalSize := by
  have checked := checked_of_accepted accepted
  refine ⟨⟨?_, checked.internal_eq, ?_, base_aligned, checked.map_aligned, checked.data_aligned,
    checked.flog_start, checked.flog_end, checked.map_end, checked.data_end, ?_⟩,
    checked.externalSize_eq⟩
  · exact Nat.pos_of_ne_zero fun zero => checked.nfree_ne (UInt32.toNat_inj.mp zero)
  · rw [checked.externalSize_eq, checked.internalSize_eq]
    exact fits
  · have whole : infoBlockBytes ≤ minArena := by decide
    rw [checked.info_eq, size_eq]
    omega

theorem InfoBlock.lined_of_accepted {info : InfoBlock} {span : Span} {expected : Expectation}
    (accepted : info.mismatch? expected = none) (aligned : span.base % cacheLine = 0) :
    info.Lined span :=
  have checked := checked_of_accepted accepted
  { base_aligned := aligned
    map_aligned := cacheLine_of_region checked.map_aligned
    data_aligned := cacheLine_of_region checked.data_aligned
    map_end := checked.map_end }

namespace Arena

variable {arena : Arena}

def flogStart (arena : Arena) : Nat := arena.span.base + arena.info.flogOffset.toNat

def dataStart (arena : Arena) : Nat := arena.span.base + arena.info.dataOffset.toNat

def flogLength (arena : Arena) : Nat := arena.info.nfree.toNat * flogSlotBytes

def entryAt (arena : Arena) (contents : Contents) (lba : UInt32) : MapEntry :=
  ⟨contents.word (arena.entryOffset lba)⟩

section Lines

variable (lined : arena.info.Lined arena.span) {lba : UInt32}
  (inside : lba < arena.info.external)
include lined inside

theorem entry_inMap :
    arena.mapStart ≤ arena.entryOffset lba ∧
      arena.entryOffset lba + mapEntryBytes ≤ arena.dataStart := by
  have small : lba.toNat + 1 ≤ arena.info.external.toNat := UInt32.lt_iff_toNat_lt.mp inside
  have scaled := Nat.mul_le_mul_right mapEntryBytes small
  rw [Nat.add_mul, Nat.one_mul] at scaled
  have stop := lined.map_end
  rw [entryOffset, dataStart, mapStart]
  omega

/-- The cache line of a map entry holds all of it, and no byte outside the map and what fills
it up. -/
theorem line_inMap :
    arena.mapStart ≤ arena.lineOffset lba ∧ arena.lineOffset lba ≤ arena.entryOffset lba ∧
      arena.entryOffset lba + mapEntryBytes ≤ arena.lineOffset lba + cacheLine ∧
      arena.lineOffset lba + cacheLine ≤ arena.dataStart := by
  obtain ⟨lower, upper⟩ := entry_inMap lined inside
  have line_eq : arena.lineOffset lba = arena.entryOffset lba / 1 <<< 6 * 1 <<< 6 :=
    alignDown_shift _ 6
  have base := lined.base_aligned
  have map := lined.map_aligned
  have data := lined.data_aligned
  have entry_eq : arena.entryOffset lba = arena.mapStart + lba.toNat * 4 := rfl
  have mapStart_eq : arena.mapStart = arena.span.base + arena.info.mapOffset.toNat := rfl
  have dataStart_eq : arena.dataStart = arena.span.base + arena.info.dataOffset.toNat := rfl
  simp only [mapEntryBytes, cacheLine, Nat.reduceShiftLeft] at *
  omega

end Lines

section Offsets

variable (divided : arena.info.Divides arena.span)
include divided

theorem flog_range :
    arena.span.base + infoBlockBytes ≤ arena.flogStart ∧
      arena.flogStart + arena.flogLength ≤ arena.mapStart := by
  have start := divided.flog_start
  have stop := divided.flog_end
  rw [flogStart, flogLength, mapStart]
  omega

theorem entry_range {lba : UInt32} (inside : lba < arena.info.external) :
    arena.mapStart ≤ arena.entryOffset lba ∧
      arena.entryOffset lba + mapEntryBytes ≤ arena.dataStart :=
  entry_inMap divided.lined inside

theorem line_range {lba : UInt32} (inside : lba < arena.info.external) :
    arena.mapStart ≤ arena.lineOffset lba ∧ arena.lineOffset lba ≤ arena.entryOffset lba ∧
      arena.entryOffset lba + mapEntryBytes ≤ arena.lineOffset lba + cacheLine ∧
      arena.lineOffset lba + cacheLine ≤ arena.dataStart :=
  line_inMap divided.lined inside

theorem data_range {block : UInt32} (inside : block < arena.info.internal) :
    arena.dataStart ≤ arena.dataOffset block ∧
      arena.dataOffset block + arena.info.internalSize.toNat + infoBlockBytes ≤
        arena.span.stop := by
  have small : block.toNat + 1 ≤ arena.info.internal.toNat := UInt32.lt_iff_toNat_lt.mp inside
  have scaled := Nat.mul_le_mul_right arena.info.internalSize.toNat small
  rw [Nat.add_mul, Nat.one_mul] at scaled
  have stop := divided.data_end
  have last := divided.info_end
  rw [dataOffset, dataStart, Span.stop]
  omega

theorem region_order :
    arena.span.base + infoBlockBytes ≤ arena.flogStart ∧
      arena.flogStart + arena.flogLength ≤ arena.mapStart ∧
      arena.mapStart ≤ arena.dataStart ∧ arena.dataStart ≤ arena.span.stop := by
  obtain ⟨first, second⟩ := flog_range divided
  have map := divided.map_end
  have data := divided.data_end
  have last := divided.info_end
  unfold mapStart dataStart Span.stop at *
  omega

theorem copy_range :
    arena.dataStart ≤ arena.span.stop - infoBlockBytes ∧
      arena.span.stop - infoBlockBytes + infoBlockBytes = arena.span.stop := by
  have data := divided.data_end
  have last := divided.info_end
  unfold dataStart Span.stop
  omega

theorem record_range (slot : FlogSlot) :
    arena.flogStart ≤ arena.recordOffset slot ∧
      arena.recordOffset slot + FlogRecord.width ≤ arena.flogStart + flogSlotBytes ∧
      arena.flogStart + flogSlotBytes ≤ arena.mapStart := by
  obtain ⟨-, stop⟩ := flog_range divided
  have slots := Nat.mul_le_mul_right flogSlotBytes divided.nfree_pos
  have position : slot.sparePosition ≤ 1 := Nat.sub_le 1 _
  have record_eq : arena.recordOffset slot =
      arena.flogStart + slot.sparePosition * FlogRecord.width := rfl
  rw [flogLength] at stop
  simp only [FlogRecord.width, flogSlotBytes] at *
  omega

end Offsets

theorem data_apart (arena : Arena) {block other : UInt32} (different : block ≠ other) :
    arena.dataOffset block + arena.info.internalSize.toNat ≤ arena.dataOffset other ∨
      arena.dataOffset other + arena.info.internalSize.toNat ≤ arena.dataOffset block := by
  have numbers : block.toNat ≠ other.toNat := fun equal => different (UInt32.toNat_inj.mp equal)
  rcases Nat.lt_or_gt_of_ne numbers with before | after
  · have scaled := Nat.mul_le_mul_right arena.info.internalSize.toNat
      (show block.toNat + 1 ≤ other.toNat from before)
    rw [Nat.add_mul, Nat.one_mul] at scaled
    unfold dataOffset
    omega
  · have scaled := Nat.mul_le_mul_right arena.info.internalSize.toNat
      (show other.toNat + 1 ≤ block.toNat from after)
    rw [Nat.add_mul, Nat.one_mul] at scaled
    unfold dataOffset
    omega

theorem entry_apart (arena : Arena) {lba other : UInt32} (different : lba ≠ other) :
    arena.entryOffset lba + mapEntryBytes ≤ arena.entryOffset other ∨
      arena.entryOffset other + mapEntryBytes ≤ arena.entryOffset lba := by
  have numbers : lba.toNat ≠ other.toNat := fun equal => different (UInt32.toNat_inj.mp equal)
  unfold entryOffset mapEntryBytes
  omega

variable {contents left right : Contents} {lba other : UInt32} {entry : MapEntry}

theorem entryAt_storeWord_same :
    arena.entryAt (contents.storeWord (arena.entryOffset lba) entry.raw) lba = entry := by
  rw [entryAt, Contents.word_storeWord_same]

theorem entryAt_storeWord_other (different : other ≠ lba) :
    arena.entryAt (contents.storeWord (arena.entryOffset lba) entry.raw) other =
      arena.entryAt contents other := by
  rw [entryAt, Contents.word_storeWord_apart (arena.entry_apart different), entryAt]

theorem entryAt_congr (divided : arena.info.Divides arena.span)
    (agree : left.AgreeOn right arena.mapStart arena.dataStart)
    (inside : lba < arena.info.external) : arena.entryAt left lba = arena.entryAt right lba := by
  obtain ⟨lower, upper⟩ := entry_range divided inside
  rw [entryAt, Contents.word_congr agree lower upper, entryAt]

theorem entry_of_line (lined : arena.info.Lined arena.span)
    (inside : lba < arena.info.external) :
    MapEntry.mk (.ofNat (Bytes.number (arena.entryOffset lba - arena.lineOffset lba) mapEntryBytes
      (contents.load (arena.lineOffset lba) cacheLine))) = arena.entryAt contents lba := by
  obtain ⟨-, below, within, -⟩ := line_inMap lined inside
  have skip : arena.entryOffset lba - arena.lineOffset lba + 4 ≤ cacheLine := by
    simp only [mapEntryBytes] at within
    omega
  have place : arena.lineOffset lba + (arena.entryOffset lba - arena.lineOffset lba) =
      arena.entryOffset lba := by omega
  rw [mapEntryBytes, Contents.number_load skip, place]
  rfl

variable {μ : Type} [Media μ] [Atomic μ] {size : Nat} {sound : Prop} {before : Contents}
  {failed : Error → Contents → Prop}

section Map

variable (lined : arena.info.Lined arena.span) (room : sound → arena.dataStart ≤ size)
  (inside : lba < arena.info.external)
include lined room inside

theorem meets_readEntry {done : MapEntry → Contents → Prop}
    (ok : done (arena.entryAt before lba) before)
    (error : ∀ cause, ¬ sound → failed cause before) :
    (arena.readMapEntry lba : Step μ _).Meets size sound before done failed := by
  obtain ⟨-, -, -, upper⟩ := line_inMap lined inside
  rw [readMapEntry]
  apply Step.meets_bind
  apply Step.meets_readAt_sound (fun holds => Nat.le_trans upper (room holds)) _ error
  apply Step.meets_pure
  rw [entry_of_line lined inside]
  exact ok

/-- A map entry is stored at its own place, although its whole line is written. -/
theorem meets_writeEntry {done : Unit → Contents → Prop}
    (ok : done () (before.storeWord (arena.entryOffset lba) entry.raw))
    (error : ∀ cause, ¬ sound → failed cause before) :
    (arena.writeMapEntry lba entry : Step μ _).Meets size sound before done failed := by
  obtain ⟨-, below, within, upper⟩ := line_inMap lined inside
  have fieldInside : arena.entryOffset lba - arena.lineOffset lba +
      (LittleEndian.encode mapEntryBytes entry.raw.toNat).length ≤ cacheLine := by
    rw [LittleEndian.length_encode]
    omega
  have place : arena.lineOffset lba + (arena.entryOffset lba - arena.lineOffset lba) =
      arena.entryOffset lba := by omega
  rw [writeMapEntry]
  apply Step.meets_bind
  apply Step.meets_readAt_sound (fun holds => Nat.le_trans upper (room holds)) _ error
  apply Step.meets_writeAt_sound _ _ error
  · rw [Bytes.length_overwrite (by rw [Contents.length_load]; exact fieldInside),
      Contents.length_load]
    exact fun holds => Nat.le_trans upper (room holds)
  · rw [Contents.store_overwrite_load fieldInside, place]
    exact ok

end Map

theorem meets_readMapEntry (divided : arena.info.Divides arena.span)
    (room : arena.span.stop ≤ size) (inside : lba < arena.info.external)
    {done : MapEntry → Contents → Prop} (ok : done (arena.entryAt before lba) before)
    (error : ∀ cause, ¬ sound → failed cause before) :
    (arena.readMapEntry lba : Step μ _).Meets size sound before done failed := by
  obtain ⟨-, -, -, stop⟩ := region_order divided
  exact meets_readEntry divided.lined (fun _ => Nat.le_trans stop room) inside ok error

theorem meets_writeMapEntry (divided : arena.info.Divides arena.span)
    (room : arena.span.stop ≤ size) (inside : lba < arena.info.external)
    {done : Unit → Contents → Prop}
    (ok : done () (before.storeWord (arena.entryOffset lba) entry.raw))
    (error : ∀ cause, ¬ sound → failed cause before) :
    (arena.writeMapEntry lba entry : Step μ _).Meets size sound before done failed := by
  obtain ⟨-, -, -, stop⟩ := region_order divided
  exact meets_writeEntry divided.lined (fun _ => Nat.le_trans stop room) inside ok error

end Arena

end Remap.Block
