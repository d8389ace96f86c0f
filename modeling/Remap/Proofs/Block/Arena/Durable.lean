import Remap.Proofs.Block.Arena.Ownership
import Remap.Proofs.Block.Arena.Regions
import Remap.Proofs.Block.Flog

/-!
# What an arena holds durably

The contents of a media hold an arena when its info block and its flog can be read back,
every data block has one owner, and each external block finds its bytes in the data block
it owns. The change of the map that the first flog slot describes may still be pending, and
then counts as made. Each store of a write leads from such contents to such contents.
-/

namespace Remap.Block

open Remap.Media

namespace Arena

/-! A map entry is settled once it names the data block that the flog leaves to its block. Between
the store of a sequence number and the change of the map it is pending: it is still the entry that
the active record replaces. -/

def Settled (arena : Arena) (contents : Contents) (target : UInt32 → UInt32)
    (lba : UInt32) : Prop :=
  (arena.entryAt contents lba).explicit lba = .normal (target lba)

def AllSettled (arena : Arena) (contents : Contents) (target : UInt32 → UInt32) : Prop :=
  ∀ lba, lba < arena.info.external → arena.Settled contents target lba

def Pending (arena : Arena) (contents : Contents) (target : UInt32 → UInt32)
    (record : FlogRecord) (lba : UInt32) : Prop :=
  lba = record.lba ∧ (arena.entryAt contents lba).explicit lba = record.oldMap ∧
    record.newMap = .normal (target lba)

def nextRecord (target : UInt32 → UInt32) (head : FlogSlot) (lba : UInt32) : FlogRecord :=
  head.nextRecord lba (.normal (target lba)) (.normal head.freeBlock)

theorem AllSettled.transfer {arena other : Arena} {contents : Contents}
    {target : UInt32 → UInt32} (settled : arena.AllSettled contents target)
    (span_eq : other.span = arena.span) (info_eq : other.info = arena.info) :
    other.AllSettled contents target := by
  rcases arena with ⟨span, info, flog, readOnly⟩
  rcases other with ⟨otherSpan, otherInfo, otherFlog, otherReadOnly⟩
  cases span_eq
  cases info_eq
  exact settled

/-- The contents hold the arena with the bytes `value lba` in block `lba`. Only the first
flog slot is in use. -/
structure Durable (arena : Arena) (value : UInt32 → List UInt8) (target : UInt32 → UInt32)
    (head : FlogSlot) (others : List FlogSlot) (contents : Contents) : Prop where
  described : arena.info.Describes arena.span
  info_eq : contents.load arena.span.base infoBlockBytes = arena.info.toBytes
  copy_eq : contents.load (arena.span.stop - infoBlockBytes) infoBlockBytes = arena.info.toBytes
  flog_stored : FlogSlot.AllStoredAt contents arena.info.external arena.info.internal
    arena.flogStart (head :: others)
  owned : Ownership arena.info target ((head :: others).map FlogSlot.freeBlock)
  spelled : ∀ slot ∈ head :: others, slot.active.oldMap = .normal slot.freeBlock
  idle : ∀ slot ∈ others, slot.needsRecovery = false
  named : ∀ lba, lba < arena.info.external →
    arena.Settled contents target lba ∨ arena.Pending contents target head.active lba
  value_eq : ∀ lba, lba < arena.info.external →
    contents.load (arena.dataOffset (target lba)) arena.info.externalSize.toNat = value lba

namespace Durable

variable {arena : Arena} {value : UInt32 → List UInt8} {target : UInt32 → UInt32}
  {head : FlogSlot} {others : List FlogSlot} {contents after : Contents} {lba : UInt32}

section Facts

variable (durable : arena.Durable value target head others contents)
include durable

theorem small_of_lt {block : UInt32} (inside : block < arena.info.internal) :
    block.toNat < maxInternalBlocks :=
  Nat.lt_of_lt_of_le (UInt32.lt_iff_toNat_lt.mp inside) durable.described.internal_le

theorem target_lt (inside : lba < arena.info.external) : target lba < arena.info.internal :=
  durable.owned.target_lt lba inside

theorem free_lt : head.freeBlock < arena.info.internal :=
  durable.owned.free_lt _ (List.mem_map_of_mem List.mem_cons_self)

theorem lba_small (inside : lba < arena.info.external) : lba.toNat < maxInternalBlocks := by
  have total := durable.described.internal_eq
  have limit := durable.described.internal_le
  have below := UInt32.lt_iff_toNat_lt.mp inside
  omega

theorem target_ne_free (inside : lba < arena.info.external) : target lba ≠ head.freeBlock := by
  intro equal
  exact durable.owned.apart lba inside (equal ▸ List.mem_map_of_mem List.mem_cons_self)

theorem slots_length : (head :: others).length = arena.info.nfree.toNat := by
  rw [← durable.owned.count, List.length_map]

theorem flog_length : arena.flogLength = flogSlotBytes + others.length * flogSlotBytes := by
  rw [flogLength, ← durable.slots_length, List.length_cons, Nat.add_mul, Nat.one_mul, Nat.add_comm]

theorem explicit_ne_old (inside : lba < arena.info.external)
    (settled : arena.Settled contents target lba) :
    (arena.entryAt contents lba).explicit lba ≠ head.active.oldMap := by
  intro equal
  rw [durable.spelled head List.mem_cons_self, settled] at equal
  exact durable.target_ne_free inside
    ((MapEntry.normal_inj (durable.small_of_lt (durable.target_lt inside))
      (durable.small_of_lt durable.free_lt)).mp equal)

theorem settled_of_idle (idle : head.needsRecovery = false) (inside : lba < arena.info.external) :
    arena.Settled contents target lba := by
  rcases durable.named lba inside with settled | ⟨_, explicit_eq, new_eq⟩
  · exact settled
  · have same : head.active.oldMap = head.active.newMap := by
      simpa [FlogSlot.needsRecovery] using idle
    rw [Settled, explicit_eq, same, new_eq]

theorem of_agree (agree : contents.AgreeOn after arena.span.base arena.dataStart)
    (copy : contents.AgreeOn after (arena.span.stop - infoBlockBytes) arena.span.stop)
    (values : ∀ lba, lba < arena.info.external →
      after.load (arena.dataOffset (target lba)) arena.info.externalSize.toNat = value lba) :
    arena.Durable value target head others after where
  described := durable.described
  info_eq := by
    have order := region_order durable.described.divides
    rw [← Contents.load_congr agree (Nat.le_refl _) (by omega)]
    exact durable.info_eq
  copy_eq := by
    obtain ⟨-, last⟩ := copy_range durable.described.divides
    rw [← Contents.load_congr copy (Nat.le_refl _) (Nat.le_of_eq last)]
    exact durable.copy_eq
  flog_stored := by
    have order := region_order durable.described.divides
    have length := durable.flog_length
    apply durable.flog_stored.congr agree (by omega)
    rw [List.length_cons, Nat.add_mul, Nat.one_mul]
    omega
  owned := durable.owned
  spelled := durable.spelled
  idle := durable.idle
  named lba inside := by
    have order := region_order durable.described.divides
    have map : contents.AgreeOn after arena.mapStart arena.dataStart :=
      agree.mono (by omega) (Nat.le_refl _)
    rw [Settled, Pending, ← entryAt_congr durable.described.divides map inside]
    exact durable.named lba inside
  value_eq := values

theorem congr (agree : contents.AgreeOn after arena.span.base arena.span.stop) :
    arena.Durable value target head others after := by
  have order := region_order durable.described.divides
  obtain ⟨behind, -⟩ := copy_range durable.described.divides
  apply durable.of_agree
  · exact fun position lower upper => agree position lower (by omega)
  · exact fun position lower upper => agree position (by omega) upper
  · intro lba inside
    obtain ⟨lower, upper⟩ := data_range durable.described.divides (durable.target_lt inside)
    have fits := durable.described.size_le
    rw [← Contents.load_congr agree (by omega) (by omega)]
    exact durable.value_eq lba inside

theorem settled_congr (agree : contents.AgreeOn after arena.mapStart arena.dataStart)
    (settled : arena.AllSettled contents target) : arena.AllSettled after target := by
  intro lba inside
  rw [Settled, ← entryAt_congr durable.described.divides agree inside]
  exact settled lba inside

/-- Changes within the first flog slot leave the other slots and all other regions alone. -/
theorem elsewhere (agree : after.AgreeOutside contents arena.flogStart
      (arena.flogStart + flogSlotBytes)) :
    after.load arena.span.base infoBlockBytes = arena.info.toBytes ∧
      after.load (arena.span.stop - infoBlockBytes) infoBlockBytes = arena.info.toBytes ∧
      FlogSlot.AllStoredAt after arena.info.external arena.info.internal
        (arena.flogStart + flogSlotBytes) others ∧
      (∀ lba, lba < arena.info.external →
        arena.entryAt after lba = arena.entryAt contents lba) ∧
      ∀ block, block < arena.info.internal →
        after.load (arena.dataOffset block) arena.info.externalSize.toNat =
          contents.load (arena.dataOffset block) arena.info.externalSize.toNat := by
  have order := region_order durable.described.divides
  have range := record_range durable.described.divides head
  have behind : contents.AgreeOn after (arena.flogStart + flogSlotBytes) arena.span.stop :=
    (agree.agreeOn (.inr (Nat.le_refl _))).symm
  obtain ⟨data, last⟩ := copy_range durable.described.divides
  refine ⟨?_, ?_, ?_, ?_, ?_⟩
  · rw [← durable.info_eq]
    exact Contents.load_congr (agree.agreeOn (.inl (Nat.le_refl _))) (Nat.le_refl _) (by omega)
  · rw [← durable.copy_eq]
    exact (Contents.load_congr behind (by omega) (Nat.le_of_eq last)).symm
  · have length := durable.flog_length
    exact durable.flog_stored.2.congr behind (Nat.le_refl _) (by omega)
  · intro lba inside
    have map : contents.AgreeOn after arena.mapStart arena.dataStart :=
      behind.mono (by omega) order.2.2.2
    exact (entryAt_congr durable.described.divides map inside).symm
  · intro block inside
    obtain ⟨lower, upper⟩ := data_range durable.described.divides inside
    have smaller := durable.described.size_le
    exact (Contents.load_congr behind (by omega) (by omega)).symm

end Facts

theorem store_free {bytes : List UInt8} (durable : arena.Durable value target head others contents)
    (fits : bytes.length ≤ arena.info.internalSize.toNat) :
    arena.Durable value target head others
      (contents.store (arena.dataOffset head.freeBlock) bytes) := by
  obtain ⟨lower, upper⟩ := data_range durable.described.divides durable.free_lt
  apply durable.of_agree
  · intro position _ below
    exact (Contents.store_outside (.inl (by omega))).symm
  · intro position above _
    exact (Contents.store_outside (.inr (by omega))).symm
  · intro lba inside
    have apart := arena.data_apart (durable.target_ne_free inside)
    have smaller := durable.described.size_le
    rw [Contents.load_store_apart (by omega)]
    exact durable.value_eq lba inside

theorem store_record_agree (durable : arena.Durable value target head others contents)
    (skip : Nat) {bytes : List UInt8} (inside : skip + bytes.length ≤ FlogRecord.width) :
    (contents.store (arena.recordOffset head + skip) bytes).AgreeOutside contents arena.flogStart
      (arena.flogStart + flogSlotBytes) := by
  have range := record_range durable.described.divides head
  exact Contents.store_agreeOutside (by omega) (by omega)

theorem store_body {record : FlogRecord} (durable : arena.Durable value target head others contents)
    (inside : record.lba < arena.info.external) :
    arena.Durable value target (head.staged record) others
      (contents.store (arena.recordOffset head) record.body) := by
  have agree : (contents.store (arena.recordOffset head) record.body).AgreeOutside contents
      arena.flogStart (arena.flogStart + flogSlotBytes) :=
    durable.store_record_agree 0 (by simp [FlogRecord.bodyWidth, FlogRecord.width])
  obtain ⟨info_eq, copy_eq, flog_stored, entries, blocks⟩ := durable.elsewhere agree
  exact {
    described := durable.described
    info_eq
    copy_eq
    flog_stored := ⟨durable.flog_stored.1.store_body inside, flog_stored⟩
    owned := durable.owned
    spelled := by
      intro slot member
      rcases List.mem_cons.mp member with rfl | member
      · exact durable.spelled head List.mem_cons_self
      · exact durable.spelled slot (List.mem_cons_of_mem head member)
    idle := durable.idle
    named := by
      intro lba lbaInside
      rw [Settled, Pending, entries lba lbaInside]
      exact durable.named lba lbaInside
    value_eq := by
      intro lba lbaInside
      rw [← durable.value_eq lba lbaInside]
      exact blocks _ (durable.target_lt lbaInside) }

/-- The sequence number makes the block that was filled the one of `lba`, whatever the map
still says. -/
theorem store_tail {bytes : List UInt8}
    (durable : arena.Durable value target (head.staged (nextRecord target head lba)) others
      contents)
    (settled : arena.AllSettled contents target) (inside : lba < arena.info.external)
    (filled : contents.load (arena.dataOffset head.freeBlock) arena.info.externalSize.toNat =
      bytes) :
    arena.Durable (Function.update value lba bytes) (Function.update target lba head.freeBlock)
      (head.commit (nextRecord target head lba)) others
      (contents.store (arena.recordOffset head + FlogRecord.bodyWidth)
        (nextRecord target head lba).tail) := by
  have agree : (contents.store (arena.recordOffset head + FlogRecord.bodyWidth)
      (nextRecord target head lba).tail).AgreeOutside contents arena.flogStart
        (arena.flogStart + flogSlotBytes) :=
    durable.store_record_agree FlogRecord.bodyWidth
      (by simp [FlogRecord.tail, FlogRecord.bodyWidth, FlogRecord.width])
  obtain ⟨info_eq, copy_eq, flog_stored, entries, blocks⟩ := durable.elsewhere agree
  have free_lt : head.freeBlock < arena.info.internal := durable.free_lt
  have freeSmall := durable.small_of_lt free_lt
  have targetSmall := durable.small_of_lt (durable.target_lt inside)
  have oldBlock : (MapEntry.normal (target lba)).backingBlock lba = target lba :=
    MapEntry.backingBlock_eq (MapEntry.explicit_normal _ _) targetSmall
  have newBlock : (MapEntry.normal head.freeBlock).backingBlock lba = head.freeBlock :=
    MapEntry.backingBlock_eq (MapEntry.explicit_normal _ _) freeSmall
  have free_eq : (head.commit (nextRecord target head lba)).freeBlock = target lba := oldBlock
  exact {
    described := durable.described
    info_eq
    copy_eq
    flog_stored := by
      refine ⟨durable.flog_stored.1.store_tail ?_ ?_ rfl, flog_stored⟩
      · exact oldBlock.symm ▸ durable.target_lt inside
      · exact newBlock.symm ▸ free_lt
    owned := by
      rw [List.map_cons, free_eq]
      exact durable.owned.rotate inside
    spelled := by
      intro slot member
      rcases List.mem_cons.mp member with rfl | member
      · rw [free_eq]
        rfl
      · exact durable.spelled slot (List.mem_cons_of_mem _ member)
    idle := durable.idle
    named := by
      -- the map is as it was, so the entry of `lba` is now the one that the record replaces
      intro other otherInside
      have same := entries other otherInside
      have was := settled other otherInside
      by_cases equal : other = lba
      · subst equal
        refine .inr ⟨rfl, ?_, ?_⟩
        · rw [same]
          exact was
        · rw [Function.update_self]
          rfl
      · refine .inl ?_
        rw [Settled, same, Function.update_of_ne equal]
        exact was
    value_eq := by
      intro other otherInside
      by_cases equal : other = lba
      · rw [equal, Function.update_self, Function.update_self, blocks _ free_lt]
        exact filled
      · rw [Function.update_of_ne equal, Function.update_of_ne equal,
          blocks _ (durable.target_lt otherInside)]
        exact durable.value_eq other otherInside }

theorem store_entry (durable : arena.Durable value target head others contents)
    (inside : head.active.lba < arena.info.external)
    (pending : head.active.newMap = .normal (target head.active.lba)) :
    arena.Durable value target head others
        (contents.storeWord (arena.entryOffset head.active.lba) head.active.newMap.raw) ∧
      arena.AllSettled
        (contents.storeWord (arena.entryOffset head.active.lba) head.active.newMap.raw) target := by
  have order := region_order durable.described.divides
  obtain ⟨lower, upper⟩ := entry_range durable.described.divides inside
  have settled : arena.AllSettled
      (contents.storeWord (arena.entryOffset head.active.lba) head.active.newMap.raw) target := by
    intro lba lbaInside
    by_cases same : lba = head.active.lba
    · rw [same, Settled, entryAt_storeWord_same, pending, MapEntry.explicit_normal]
    · rw [Settled, entryAt_storeWord_other same]
      rcases durable.named lba lbaInside with names | ⟨equal, _⟩
      · exact names
      · exact absurd equal same
  have agree : (contents.storeWord (arena.entryOffset head.active.lba)
      head.active.newMap.raw).AgreeOutside contents arena.mapStart arena.dataStart :=
    Contents.store_agreeOutside lower (by simpa [mapEntryBytes] using upper)
  refine ⟨?_, settled⟩
  exact {
    described := durable.described
    info_eq := by
      rw [← durable.info_eq]
      exact Contents.load_congr (agree.agreeOn (.inl (Nat.le_refl _))) (Nat.le_refl _) (by omega)
    copy_eq := by
      obtain ⟨behind, last⟩ := copy_range durable.described.divides
      rw [← durable.copy_eq]
      exact Contents.load_congr (agree.agreeOn (.inr (Nat.le_refl _))) behind (Nat.le_refl _)
    flog_stored := by
      have length := durable.flog_length
      apply durable.flog_stored.congr (agree.agreeOn (.inl (Nat.le_refl _))).symm (Nat.le_refl _)
      rw [List.length_cons, Nat.add_mul, Nat.one_mul]
      omega
    owned := durable.owned
    spelled := durable.spelled
    idle := durable.idle
    named := fun lba lbaInside => .inl (settled lba lbaInside)
    value_eq := by
      intro lba lbaInside
      obtain ⟨dataLower, dataUpper⟩ :=
        data_range durable.described.divides (durable.target_lt lbaInside)
      rw [← durable.value_eq lba lbaInside]
      exact Contents.load_congr (agree.agreeOn (.inr (Nat.le_refl _))) dataLower (Nat.le_refl _) }

theorem transfer {other : Arena} (durable : arena.Durable value target head others contents)
    (span_eq : other.span = arena.span) (info_eq : other.info = arena.info) :
    other.Durable value target head others contents := by
  rcases arena with ⟨span, info, flog, readOnly⟩
  rcases other with ⟨otherSpan, otherInfo, otherFlog, otherReadOnly⟩
  cases span_eq
  cases info_eq
  exact { durable with }

end Durable

structure Live (home arena : Arena) (target : UInt32 → UInt32) (head : FlogSlot)
    (others : List FlogSlot) (contents : Contents) : Prop where
  span_eq : arena.span = home.span
  info_eq : arena.info = home.info
  writable : arena.readOnly = false
  flog_eq : ∃ spare, arena.flog = { head with spare } :: others
  settled : home.AllSettled contents target

/-- The contents hold the arena `home` with the bytes `value lba` in block `lba`, and `arena`
is how it is mounted. -/
def Holds (home arena : Arena) (value : UInt32 → List UInt8) (contents : Contents) : Prop :=
  ∃ target head others, home.Durable value target head others contents ∧
    arena.info.external = home.info.external ∧
    (arena.readOnly = true ∨ home.Live arena target head others contents)

theorem Holds.transfer {home other arena : Arena} {value : UInt32 → List UInt8}
    {contents : Contents} (holds : home.Holds arena value contents)
    (span_eq : other.span = home.span) (info_eq : other.info = home.info) :
    other.Holds arena value contents := by
  obtain ⟨target, head, others, durable, external_eq, mounted⟩ := holds
  refine ⟨target, head, others, durable.transfer span_eq info_eq, info_eq ▸ external_eq, ?_⟩
  rcases mounted with readOnly | live
  · exact .inl readOnly
  · right
    rcases home with ⟨span, info, flog, readOnly⟩
    rcases other with ⟨otherSpan, otherInfo, otherFlog, otherReadOnly⟩
    cases span_eq
    cases info_eq
    exact { live with }

theorem Durable.value_congr {arena : Arena} {value other : UInt32 → List UInt8}
    {target : UInt32 → UInt32} {head : FlogSlot} {others : List FlogSlot} {contents : Contents}
    (durable : arena.Durable value target head others contents)
    (equal : ∀ lba, lba < arena.info.external → value lba = other lba) :
    arena.Durable other target head others contents :=
  { durable with
    value_eq := fun lba inside => (durable.value_eq lba inside).trans (equal lba inside) }

def Kept (home : Arena) (value : UInt32 → List UInt8) (contents : Contents) : Prop :=
  ∃ target head others, home.Durable value target head others contents

section Holds

variable {home arena : Arena} {value other : UInt32 → List UInt8} {contents after : Contents}

theorem Holds.kept (holds : home.Holds arena value contents) : home.Kept value contents := by
  obtain ⟨target, head, others, durable, -⟩ := holds
  exact ⟨target, head, others, durable⟩

theorem Kept.congr (kept : home.Kept value contents)
    (agree : contents.AgreeOn after home.span.base home.span.stop) : home.Kept value after := by
  obtain ⟨target, head, others, durable⟩ := kept
  exact ⟨target, head, others, durable.congr agree⟩

theorem Holds.congr (holds : home.Holds arena value contents)
    (agree : contents.AgreeOn after home.span.base home.span.stop) :
    home.Holds arena value after := by
  obtain ⟨target, head, others, durable, external_eq, mounted⟩ := holds
  refine ⟨target, head, others, durable.congr agree, external_eq, ?_⟩
  rcases mounted with readOnly | live
  · exact .inl readOnly
  · have order := region_order durable.described.divides
    refine .inr { live with settled := durable.settled_congr ?_ live.settled }
    exact fun position lower upper => agree position (by omega) (by omega)

theorem Kept.value_congr (kept : home.Kept value contents)
    (equal : ∀ lba, lba < home.info.external → value lba = other lba) :
    home.Kept other contents := by
  obtain ⟨target, head, others, durable⟩ := kept
  exact ⟨target, head, others, durable.value_congr equal⟩

theorem Holds.value_congr (holds : home.Holds arena value contents)
    (equal : ∀ lba, lba < home.info.external → value lba = other lba) :
    home.Holds arena other contents := by
  obtain ⟨target, head, others, durable, rest⟩ := holds
  exact ⟨target, head, others, durable.value_congr equal, rest⟩

end Holds

end Arena

end Remap.Block
