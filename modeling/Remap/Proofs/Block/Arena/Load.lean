import Remap.Proofs.Block.Arena.Transfer
import Remap.Proofs.Block.InfoBlock

/-!
# Mounting a held arena

Mounting reads back the info block and the flog and completes the change of the map that
may be pending. It leaves every block as it was; only a fault of the media keeps it from
yielding an arena that takes writes.
-/

namespace Remap.Block

open Remap.Media

namespace Arena

variable {μ : Type} [Media μ] [Atomic μ] {size : Nat} {sound : Prop} {before : Contents}
  {arena : Arena} {value : UInt32 → List UInt8} {target : UInt32 → UInt32} {head : FlogSlot}
  {others : List FlogSlot} {expected : Expectation}

theorem meets_loadInfo (durable : arena.Durable value target head others before)
    (accepted : arena.info.mismatch? expected = none) (room : arena.span.stop ≤ size) :
    (loadInfo arena.span expected : Step μ _).Meets size sound before
      (fun info after => info = arena.info ∧ after = before)
      (fun _ after => ¬ sound ∧ after = before) := by
  have described := durable.described
  have order := region_order described.divides
  have decoded := arena.info.ofBytes_toBytes described.major_eq described.minor_eq
    described.infoSize_eq
  have validated : arena.info.validate expected = .ok () := by
    rw [InfoBlock.validate, accepted]
  have read : (readInfo arena.span.base expected : Step μ _).Meets size sound before
      (fun outcome after => outcome = .ok arena.info ∧ after = before)
      (fun _ after => ¬ sound ∧ after = before) := by
    rw [readInfo]
    apply Step.meets_bind
    apply Step.meets_readAt (by omega)
    · apply Step.meets_pure
      refine ⟨?_, rfl⟩
      rw [durable.info_eq, decoded]
      change (arena.info.validate expected >>= fun _ => .ok arena.info) = _
      rw [validated]
      rfl
    · exact fun _ unsound => ⟨unsound, rfl⟩
  rw [loadInfo]
  apply Step.meets_bind
  apply read.mono
  · rintro _ _ ⟨rfl, rfl⟩
    exact Step.meets_pure ⟨rfl, rfl⟩
  · exact fun _ _ => id

theorem meets_readFlog (durable : arena.Durable value target head others before)
    (room : arena.span.stop ≤ size) {failed : Error → Contents → Prop} :
    (readFlog arena.span arena.info : Step μ _).Meets size sound before
      (fun flog after => after = before ∧
        (flog = some (head :: others) ∨ flog = none ∧ ¬ sound)) failed := by
  have order := region_order durable.described.divides
  have decoded := durable.flog_stored.decode_eq
  rw [durable.slots_length] at decoded
  rw [readFlog]
  apply Step.meets_bind
  apply Step.meets_outcome
  apply Step.meets_readAt (by change arena.flogStart + arena.flogLength ≤ size; omega)
  · apply Step.meets_pure
    refine ⟨rfl, .inl ?_⟩
    change (decodeFlog arena.info (before.load arena.flogStart
      (arena.info.nfree.toNat * flogSlotBytes))).toOption = _
    rw [decodeFlog, decoded]
    rfl
  · exact fun _ unsound => Step.meets_pure ⟨rfl, .inr ⟨rfl, unsound⟩⟩

theorem meets_replay (durable : arena.Durable value target head others before)
    (room : arena.span.stop ≤ size) :
    (arena.replay head : Step μ _).Meets size sound before
      (fun _ after => arena.Durable value target head others after ∧
        arena.AllSettled after target ∧
        after.AgreeOutside before arena.span.base arena.span.stop)
      (fun _ after => ¬ sound ∧ arena.Durable value target head others after ∧
        after.AgreeOutside before arena.span.base arena.span.stop) := by
  have inside : head.active.lba < arena.info.external := durable.flog_stored.1.sound.active_lba
  rw [replay]
  apply Step.meets_bind
  apply meets_readMapEntry durable.described.divides room inside
  · rcases durable.named head.active.lba inside with settled | ⟨_, old, new⟩
    · rw [if_neg (durable.explicit_ne_old inside settled)]
      refine Step.meets_pure ⟨durable, ?_, fun _ _ => rfl⟩
      intro lba lbaInside
      rcases durable.named lba lbaInside with names | ⟨same, _⟩
      · exact names
      · exact same ▸ settled
    · rw [if_pos old]
      exact meets_publish durable inside new room
  · exact fun _ unsound => ⟨unsound, durable, fun _ _ => rfl⟩

/-- Only the first slot can need to be replayed. -/
theorem meets_recover (durable : arena.Durable value target head others before)
    (flog_eq : arena.flog = head :: others) (room : arena.span.stop ≤ size) :
    (arena.recover : Step μ _).Meets size sound before
      (fun _ after => arena.Durable value target head others after ∧
        arena.AllSettled after target ∧
        after.AgreeOutside before arena.span.base arena.span.stop)
      (fun _ after => ¬ sound ∧ arena.Durable value target head others after ∧
        after.AgreeOutside before arena.span.base arena.span.stop) := by
  have rest : others.filter (·.needsRecovery) = [] := by
    rw [List.filter_eq_nil_iff]
    intro slot member
    rw [durable.idle slot member]
    exact Bool.false_ne_true
  rw [recover]
  rw [flog_eq]
  cases needed : head.needsRecovery with
  | false =>
      rw [List.filter_cons_of_neg (by simp [needed]), rest]
      exact Step.meets_pure ⟨durable, fun _ inside => durable.settled_of_idle needed inside,
        fun _ _ => rfl⟩
  | true =>
      rw [List.filter_cons_of_pos (by simp [needed]), rest]
      apply Step.meets_bind
      apply (meets_replay durable room).mono
      · exact fun _ _ settled => Step.meets_pure settled
      · exact fun _ _ => id

/-- Mounting a held arena leaves its blocks alone, and without faults it takes writes. -/
theorem load_holds (durable : arena.Durable value target head others before)
    (accepted : arena.info.mismatch? expected = none) (room : arena.span.stop ≤ size) :
    (load arena.span expected : Step μ _).Meets size sound before
      (fun mounted after => after.AgreeOutside before arena.span.base arena.span.stop ∧
        arena.Holds mounted value after ∧ (sound → mounted.readOnly = false))
      (fun _ after => ¬ sound ∧ after.AgreeOutside before arena.span.base arena.span.stop ∧
        arena.Durable value target head others after) := by
  have unmarked : arena.info.hasErrorFlag = false := by
    rw [InfoBlock.hasErrorFlag, durable.described.flags_eq]
    rfl
  rw [load]
  apply Step.meets_bind
  apply (meets_loadInfo durable accepted room).mono
  · rintro info _ ⟨rfl, rfl⟩
    rw [unmarked]
    apply Step.meets_bind
    have readFlog : (readFlog arena.span arena.info : Step μ _).Meets size sound _ _
        (fun _ _ => False) := meets_readFlog durable room
    apply readFlog.mono
    · rintro flog _ ⟨rfl, rfl | ⟨rfl, unsound⟩⟩
      · have here : Durable ⟨arena.span, arena.info, head :: others, false⟩ value target head
            others _ := durable.transfer rfl rfl
        apply Step.meets_bind
        apply (meets_recover here rfl room).mono
        · rintro _ after ⟨kept, settled, outside⟩
          refine Step.meets_pure
            ⟨outside, ⟨target, head, others, kept.transfer rfl rfl, rfl, ?_⟩, ?_⟩
          · exact .inr ⟨rfl, rfl, rfl, ⟨head.spare, rfl⟩, settled⟩
          · exact fun _ => rfl
        · rintro _ after ⟨unsound, kept, outside⟩
          exact ⟨unsound, outside, kept.transfer rfl rfl⟩
      · refine Step.meets_pure ⟨fun _ _ => rfl, ⟨target, head, others, durable, rfl, .inl rfl⟩, ?_⟩
        exact fun sound => absurd sound unsound
    · exact fun _ _ impossible => impossible.elim
  · rintro _ _ ⟨unsound, rfl⟩
    exact ⟨unsound, fun _ _ => rfl, durable⟩

end Arena

end Remap.Block
