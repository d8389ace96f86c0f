import Remap.Proofs.Block.Flog

/-!
# Slots that are accepted

Two stored records make a slot if their sequence numbers tell which of them is active, if both
name external blocks, and if the entries of the active one are backed by data blocks. Neither
their order nor the bytes behind them matter.
-/

namespace Remap.Block

namespace FlogRecord

/-- The record is the active one beside `other`: it was written, and `other` never was or has the
sequence number before it in the cycle 1, 2, 3. -/
def ActiveBeside (record other : FlogRecord) : Prop :=
  record.seq ≠ 0 ∧ (other.seq = 0 ∨ record.seq.toNat = other.seq.toNat % 3 + 1)

structure Backed (record : FlogRecord) (internal : UInt32) : Prop where
  old_lt : record.oldMap.backingBlock record.lba < internal
  new_lt : record.newMap.backingBlock record.lba < internal

variable {record other : FlogRecord} {left right : List UInt8} {offset place : Nat}

theorem activeBeside_iff (small : record.seq ≤ 3) (otherSmall : other.seq ≤ 3) :
    record.ActiveBeside other ↔
      record.seq ≠ 0 ∧ (other.seq = 0 ∨ nextSeq other.seq = record.seq) := by
  refine and_congr_right fun written => ?_
  by_cases never : other.seq = 0
  · simp [never]
  · simp only [never, false_or]
    rcases seq_cases written small with seq | seq | seq <;>
      rcases seq_cases never otherSmall with otherSeq | otherSeq | otherSeq <;>
        rw [seq, otherSeq] <;> decide

/-- Of two records with different sequence numbers one is active, and only one. -/
theorem activeBeside_unique (small : record.seq ≤ 3) (otherSmall : other.seq ≤ 3)
    (different : record.seq ≠ other.seq) :
    record.ActiveBeside other ↔ ¬other.ActiveBeside record := by
  rw [activeBeside_iff small otherSmall, activeBeside_iff otherSmall small]
  by_cases noRecord : record.seq = 0
  · have written : other.seq ≠ 0 := fun none => different (noRecord.trans none.symm)
    simp [noRecord, written]
  · by_cases noOther : other.seq = 0
    · simp [noOther, noRecord]
    · simp only [ne_eq, noRecord, not_false_eq_true, noOther, false_or, true_and]
      rcases seq_cases noRecord small with seq | seq | seq <;>
        rcases seq_cases noOther otherSmall with otherSeq | otherSeq | otherSeq <;>
          rw [seq, otherSeq] at different ⊢ <;> revert different <;> decide

end FlogRecord

namespace FlogSlot

structure Admits (first second : FlogRecord) (external internal : UInt32) : Prop where
  first_le : first.seq ≤ 3
  second_le : second.seq ≤ 3
  different : first.seq ≠ second.seq
  first_lba : first.lba < external
  second_lba : second.lba < external
  first_backed : first.ActiveBeside second → first.Backed internal
  second_backed : second.ActiveBeside first → second.Backed internal

variable {slot : FlogSlot} {first second : FlogRecord} {external internal : UInt32}
  {bytes : List UInt8}

theorem records_cases (stored : slot.records = [first, second]) :
    (slot.active = first ∧ slot.spare = second) ∨ (slot.active = second ∧ slot.spare = first) := by
  rw [records] at stored
  split at stored
  next =>
    cases stored
    exact .inl ⟨rfl, rfl⟩
  next =>
    cases stored
    exact .inr ⟨rfl, rfl⟩

theorem Sound.activeBeside (sound : slot.Sound external internal) :
    slot.active.ActiveBeside slot.spare :=
  (FlogRecord.activeBeside_iff sound.active_le sound.spare_le).mpr ⟨sound.written, sound.follows⟩

theorem Sound.not_activeBeside (sound : slot.Sound external internal) :
    ¬slot.spare.ActiveBeside slot.active :=
  (FlogRecord.activeBeside_unique sound.active_le sound.spare_le sound.seq_ne).mp
    sound.activeBeside

theorem Sound.admits (sound : slot.Sound external internal)
    (stored : slot.records = [first, second]) : Admits first second external internal := by
  have backed : slot.active.Backed internal := ⟨sound.old_lt, sound.new_lt⟩
  have unfit (active : slot.spare.ActiveBeside slot.active) : slot.spare.Backed internal :=
    absurd active sound.not_activeBeside
  rcases records_cases stored with ⟨rfl, rfl⟩ | ⟨rfl, rfl⟩
  · exact ⟨sound.active_le, sound.spare_le, sound.seq_ne, sound.active_lba, sound.spare_lba,
      fun _ => backed, unfit⟩
  · exact ⟨sound.spare_le, sound.active_le, sound.seq_ne.symm, sound.spare_lba, sound.active_lba,
      unfit, fun _ => backed⟩

theorem Admits.sound (admits : Admits first second external internal) :
    ∃ slot : FlogSlot, slot.records = [first, second] ∧ slot.Sound external internal := by
  by_cases active : first.ActiveBeside second
  · obtain ⟨written, follows⟩ :=
      (FlogRecord.activeBeside_iff admits.first_le admits.second_le).mp active
    obtain ⟨old_lt, new_lt⟩ := admits.first_backed active
    exact ⟨⟨first, second, 0⟩, rfl, written, admits.first_le, admits.second_le, follows,
      admits.first_lba, admits.second_lba, old_lt, new_lt⟩
  · have other : second.ActiveBeside first :=
      (FlogRecord.activeBeside_unique admits.second_le admits.first_le admits.different.symm).mpr
        active
    obtain ⟨written, follows⟩ :=
      (FlogRecord.activeBeside_iff admits.second_le admits.first_le).mp other
    obtain ⟨old_lt, new_lt⟩ := admits.second_backed other
    exact ⟨⟨second, first, 1⟩, rfl, written, admits.second_le, admits.first_le, follows,
      admits.second_lba, admits.first_lba, old_lt, new_lt⟩

section Layout

variable (whole : bytes.length = flogSlotBytes)

include whole

end Layout

end FlogSlot

end Remap.Block
