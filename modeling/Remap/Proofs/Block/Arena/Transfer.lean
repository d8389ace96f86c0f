import Remap.Proofs.Block.Arena.Answer

/-!
# Reads and writes of a held arena

A read finds the bytes of the block. A write replaces them from the moment on in which its
sequence number is stored, whatever happens to it before or after; any failure is one of the
media, and leaves the arena held.
-/

namespace Remap.Block

open Remap.Media

namespace Arena

variable {μ : Type} [Media μ]

/-! `engage` is a write up to the store of its sequence number, and `lands` tells whether that
store succeeds. It is what decides between the old and the new bytes. -/

def engage (arena : Arena) (slot : FlogSlot) (lba : UInt32) (bytes : List UInt8) :
    Step μ FlogRecord := do
  let record ← arena.stage slot lba bytes
  Step.writeAt (arena.recordOffset slot + FlogRecord.bodyWidth) record.tail
  return record

def lands (arena : Arena) (lba : UInt32) (bytes : List UInt8) (media : μ) : Bool :=
  match arena.readOnly, arena.flog with
  | true, _ | _, [] => false
  | false, slot :: _ => ((arena.engage slot lba bytes).on media).1.isOk

variable {arena : Arena} {slot : FlogSlot} {others : List FlogSlot} {lba : UInt32}
  {bytes : List UInt8}

def committed (arena : Arena) (slot : FlogSlot) (others : List FlogSlot) (record : FlogRecord) :
    Arena :=
  { arena with flog := slot.commit record :: others }

def tailOffset (arena : Arena) (slot : FlogSlot) : Nat :=
  arena.recordOffset slot + FlogRecord.bodyWidth

/-- The ways in which a write of an arena that takes writes can run: whether its sequence
number is stored, what it yields, and the media afterwards. -/
inductive WriteRun (arena : Arena) (slot : FlogSlot) (others : List FlogSlot) (lba : UInt32)
    (bytes : List UInt8) (media : μ) : Bool → Except Error Unit → Arena → μ → Prop
  | notStaged {cause : Error} {after : μ}
      (stage : (arena.stage slot lba bytes).on media = (.error cause, after)) :
      WriteRun arena slot others lba bytes media false (.error cause) arena after
  | notLanded {record : FlogRecord} {cause : Error} {staged after : μ}
      (stage : (arena.stage slot lba bytes).on media = (.ok record, staged))
      (tail : (Step.writeAt (arena.tailOffset slot) record.tail).on staged =
        (.error cause, after)) :
      WriteRun arena slot others lba bytes media false (.error cause)
        { arena with readOnly := true } after
  | notFlushed {record : FlogRecord} {cause : Error} {staged landed after : μ}
      (stage : (arena.stage slot lba bytes).on media = (.ok record, staged))
      (tail : (Step.writeAt (arena.tailOffset slot) record.tail).on staged = (.ok (), landed))
      (flush : (Step.flush : Step μ Unit).on landed = (.error cause, after)) :
      WriteRun arena slot others lba bytes media true (.error cause)
        { arena with readOnly := true } after
  | notPublished {record : FlogRecord} {cause : Error} {staged landed flushed after : μ}
      (stage : (arena.stage slot lba bytes).on media = (.ok record, staged))
      (tail : (Step.writeAt (arena.tailOffset slot) record.tail).on staged = (.ok (), landed))
      (flush : (Step.flush : Step μ Unit).on landed = (.ok (), flushed))
      (publish : ((arena.committed slot others record).publish record).on flushed =
        (.error cause, after)) :
      WriteRun arena slot others lba bytes media true (.error cause)
        { arena.committed slot others record with readOnly := true } after
  | written {record : FlogRecord} {staged landed flushed after : μ}
      (stage : (arena.stage slot lba bytes).on media = (.ok record, staged))
      (tail : (Step.writeAt (arena.tailOffset slot) record.tail).on staged = (.ok (), landed))
      (flush : (Step.flush : Step μ Unit).on landed = (.ok (), flushed))
      (publish : ((arena.committed slot others record).publish record).on flushed =
        (.ok (), after)) :
      WriteRun arena slot others lba bytes media true (.ok ())
        (arena.committed slot others record) after

theorem write_run (writable : arena.readOnly = false) (flog_eq : arena.flog = slot :: others)
    (media : μ) :
    WriteRun arena slot others lba bytes media (arena.lands lba bytes media)
      (arena.write lba bytes media).1.1 (arena.write lba bytes media).1.2
      (arena.write lba bytes media).2 := by
  rcases arena with ⟨span, info, flog, readOnly⟩
  dsimp only at writable flog_eq
  subst writable flog_eq
  rw [write, lands]
  dsimp only
  rw [Step.run_bind, engage, Step.on_bind]
  rcases stage : (Arena.stage ⟨span, info, slot :: others, false⟩ slot lba bytes).on media with
    ⟨outcome, staged⟩
  cases outcome with
  | error cause => exact .notStaged stage
  | ok record =>
      dsimp only
      rw [Step.run_bind, activate, Step.on_bind, Step.on_bind]
      rcases tail : (Step.writeAt (recordOffset ⟨span, info, slot :: others, false⟩ slot +
        FlogRecord.bodyWidth) record.tail).on staged with ⟨outcome, landed⟩
      cases outcome with
      | error cause => exact .notLanded stage tail
      | ok value =>
          dsimp only
          rcases flush : (Step.flush : Step μ Unit).on landed with ⟨outcome, flushed⟩
          cases outcome with
          | error cause => exact .notFlushed stage tail flush
          | ok value =>
              dsimp only
              rw [Step.run_bind]
              rcases publish : (Arena.publish ⟨span, info, slot.commit record :: others, false⟩
                record).on flushed with ⟨outcome, after⟩
              cases outcome with
              | error cause => exact .notPublished stage tail flush publish
              | ok value => exact .written stage tail flush publish

theorem write_runs (writable : arena.readOnly = false) (flog_eq : arena.flog = slot :: others)
    (media : μ) :
    ∃ landed outcome later after, arena.lands lba bytes media = landed ∧
      arena.write lba bytes media = ((outcome, later), after) ∧
      WriteRun arena slot others lba bytes media landed outcome later after :=
  ⟨_, _, _, _, rfl, rfl, write_run writable flog_eq media⟩

theorem write_unstaged {media after : μ} {cause : Error} (writable : arena.readOnly = false)
    (flog_eq : arena.flog = slot :: others)
    (failed : (arena.stage slot lba bytes).on media = (.error cause, after)) :
    arena.write lba bytes media = ((.error cause, arena), after) ∧
      arena.lands lba bytes media = false := by
  obtain ⟨landed, outcome, left, last, lands_eq, ran, run⟩ := write_runs writable flog_eq media
  rw [ran, lands_eq]
  cases run with
  | notStaged stage =>
      rw [failed] at stage
      cases stage
      exact ⟨rfl, rfl⟩
  | notLanded stage | notFlushed stage | notPublished stage | written stage =>
      rw [failed] at stage
      cases stage

theorem write_refused {media : μ} (refuses : arena.readOnly = true ∨ arena.flog = []) :
    arena.write lba bytes media = ((.error (.readOnly arena.span.base), arena), media) := by
  rw [write]
  rcases refuses with readOnly | empty
  · rw [readOnly]
    rfl
  · rw [empty]
    cases arena.readOnly <;> rfl

variable [Atomic μ] {size : Nat} {sound : Prop} {start before : Contents}
  {value : UInt32 → List UInt8} {target : UInt32 → UInt32} {head : FlogSlot}

theorem meets_read (durable : arena.Durable value target head others before)
    (settled : arena.Settled before target lba) (room : arena.span.stop ≤ size)
    (inside : lba < arena.info.external) :
    (arena.read lba arena.info.externalSize.toNat : Step μ _).Meets size sound before
      (fun bytes after => bytes = value lba ∧ after = before)
      (fun _ after => ¬ sound ∧ after = before) := by
  have found := durable.answer_eq settled inside
  apply (meets_answer durable.described.divides room inside).mono
  · rintro bytes _ ⟨rfl, read⟩
    rw [found] at read
    cases read
    exact ⟨rfl, rfl⟩
  · rintro cause _ ⟨rfl, refused⟩
    refine ⟨fun sound => ?_, rfl⟩
    have read := refused sound
    rw [found] at read
    cases read

theorem meets_read_kept {length : Nat} :
    (arena.read lba length : Step μ _).Meets size sound before
      (fun _ after => after = before) (fun _ after => after = before) := by
  rw [read, readMapEntry]
  apply Step.meets_bind
  apply Step.meets_bind
  apply Step.meets_readAt_kept
  · intro line
    apply Step.meets_pure
    split
    next => exact Step.meets_throw rfl
    next => exact Step.meets_pure rfl
    next block =>
      split
      next => exact Step.meets_throw rfl
      next => exact Step.meets_readAt_kept (fun _ => rfl) fun _ => rfl
  · exact fun _ => rfl

theorem read_holds {home : Arena} (holds : home.Holds arena value before)
    (room : home.span.stop ≤ size) (inside : lba < home.info.external) :
    (arena.read lba home.info.externalSize.toNat : Step μ _).Meets size sound before
      (fun bytes after => after = before ∧ (arena.readOnly = false → bytes = value lba))
      (fun _ after => after = before ∧ (arena.readOnly = false → ¬ sound)) := by
  obtain ⟨target, head, others, durable, external_eq, readOnly | live⟩ := holds
  · have refuted {P : Prop} : arena.readOnly = false → P := fun writable =>
      absurd writable (by simp [readOnly])
    exact meets_read_kept.mono (fun _ _ same => ⟨same, refuted⟩) fun _ _ same => ⟨same, refuted⟩
  · have here := durable.transfer live.span_eq live.info_eq
    have settled := live.settled.transfer live.span_eq live.info_eq
    have inside' : lba < arena.info.external := live.info_eq ▸ inside
    rw [← live.info_eq]
    apply (meets_read here (settled lba inside') (live.span_eq ▸ room) inside').mono
    · exact fun _ _ holds => ⟨holds.2, fun _ => holds.1⟩
    · exact fun _ _ holds => ⟨holds.2, fun _ => holds.1⟩

def Unchanged (arena : Arena) (value : UInt32 → List UInt8) (target : UInt32 → UInt32)
    (head : FlogSlot) (others : List FlogSlot) (before after : Contents) : Prop :=
  (∃ spare, arena.Durable value target { head with spare } others after) ∧
    arena.AllSettled after target ∧
    after.AgreeOutside before arena.span.base arena.span.stop

structure Staged (arena : Arena) (value : UInt32 → List UInt8) (target : UInt32 → UInt32)
    (head : FlogSlot) (others : List FlogSlot) (lba : UInt32) (bytes : List UInt8)
    (before after : Contents) : Prop where
  durable : arena.Durable value target (head.staged (nextRecord target head lba)) others after
  settled : arena.AllSettled after target
  filled : after.load (arena.dataOffset head.freeBlock) arena.info.externalSize.toNat = bytes
  outside : after.AgreeOutside before arena.span.base arena.span.stop

theorem Staged.unchanged {after : Contents}
    (staged : arena.Staged value target head others lba bytes before after) :
    arena.Unchanged value target head others before after :=
  ⟨⟨_, staged.durable⟩, staged.settled, staged.outside⟩

theorem meets_stage (durable : arena.Durable value target head others before)
    (settled : arena.AllSettled before target) (slot_eq : ∃ spare, slot = { head with spare })
    (room : arena.span.stop ≤ size) (inside : lba < arena.info.external)
    (width : bytes.length = arena.info.externalSize.toNat) :
    (arena.stage slot lba bytes : Step μ _).Meets size sound before
      (fun record after => record = nextRecord target head lba ∧
        arena.Staged value target head others lba bytes before after)
      (fun _ after => ¬ sound ∧ arena.Unchanged value target head others before after) := by
  obtain ⟨spare, rfl⟩ := slot_eq
  have described := durable.described
  have order := region_order described.divides
  have fits := described.size_le
  obtain ⟨dataLower, dataUpper⟩ := data_range described.divides durable.free_lt
  have record_range := record_range described.divides head
  -- the data in the free block
  have filled : arena.Durable value target head others
      (before.store (arena.dataOffset head.freeBlock) bytes) := durable.store_free (by omega)
  have filledOutside : (before.store (arena.dataOffset head.freeBlock) bytes).AgreeOutside before
      arena.dataStart arena.span.stop := Contents.store_agreeOutside dataLower (by omega)
  have filledSettled := durable.settled_congr
    (filledOutside.agreeOn (.inl (Nat.le_refl _))).symm settled
  have filledUnchanged : arena.Unchanged value target head others before
      (before.store (arena.dataOffset head.freeBlock) bytes) :=
    ⟨⟨head.spare, filled⟩, filledSettled, filledOutside.mono (by omega) (Nat.le_refl _)⟩
  have loaded : (before.store (arena.dataOffset head.freeBlock) bytes).load
      (arena.dataOffset head.freeBlock) arena.info.externalSize.toNat = bytes := by
    rw [← width]
    exact Contents.load_store_same
  -- the record over the spare one
  have bodyInside : arena.recordOffset head + (nextRecord target head lba).body.length ≤ size := by
    simp only [FlogRecord.length_body, FlogRecord.bodyWidth, FlogRecord.width] at *
    omega
  have staged : arena.Staged value target head others lba bytes before
      ((before.store (arena.dataOffset head.freeBlock) bytes).store (arena.recordOffset head)
        (nextRecord target head lba).body) := by
    have agree : ((before.store (arena.dataOffset head.freeBlock) bytes).store
        (arena.recordOffset head) (nextRecord target head lba).body).AgreeOutside
        (before.store (arena.dataOffset head.freeBlock) bytes) arena.flogStart
        (arena.flogStart + flogSlotBytes) :=
      filled.store_record_agree 0 (by simp [FlogRecord.bodyWidth, FlogRecord.width])
    refine ⟨filled.store_body inside, ?_, ?_, ?_⟩
    · exact filled.settled_congr (agree.agreeOn (.inr (by omega))).symm filledSettled
    · exact ((filled.elsewhere agree).2.2.2.2 _ durable.free_lt).trans loaded
    · exact (agree.mono (by omega) (by omega)).trans filledUnchanged.2.2
  -- the spare record in memory has no part in staging
  change (arena.stage head lba bytes : Step μ _).Meets size sound before _ _
  rw [stage]
  apply Step.meets_bind
  apply Step.meets_writeAt (by omega)
  · apply Step.meets_bind
    apply Step.meets_flush
    · apply Step.meets_bind
      apply meets_readMapEntry described.divides room inside
      · rw [filledSettled lba inside]
        apply Step.meets_bind
        apply Step.meets_writeAt bodyInside
        · apply Step.meets_bind
          apply Step.meets_flush
          · exact Step.meets_pure ⟨rfl, staged⟩
          · exact fun _ unsound => ⟨unsound, staged.unchanged⟩
        · exact fun _ unsound => ⟨unsound, filledUnchanged⟩
      · exact fun _ unsound => ⟨unsound, filledUnchanged⟩
    · exact fun _ unsound => ⟨unsound, filledUnchanged⟩
  · intro _ unsound
    exact ⟨unsound, ⟨head.spare, durable⟩, settled, fun _ _ => rfl⟩

theorem tail_inside (durable : arena.Durable value target head others before)
    (record : FlogRecord) :
    arena.flogStart ≤ arena.tailOffset head ∧
      arena.tailOffset head + record.tail.length ≤ arena.flogStart + flogSlotBytes ∧
      arena.flogStart + flogSlotBytes ≤ arena.mapStart := by
  have range := record_range durable.described.divides head
  have tail_length : record.tail.length = 4 := by simp [FlogRecord.tail]
  rw [tail_length]
  simp only [tailOffset, FlogRecord.bodyWidth, FlogRecord.width] at *
  omega

theorem meets_tail (held : arena.Staged value target head others lba bytes start before)
    (room : arena.span.stop ≤ size) (inside : lba < arena.info.external) :
    (Step.writeAt (arena.tailOffset head) (nextRecord target head lba).tail : Step μ _).Meets
      size sound before
      (fun _ after => after.AgreeOutside start arena.span.base arena.span.stop ∧
        arena.Durable (Function.update value lba bytes) (Function.update target lba head.freeBlock)
          (head.commit (nextRecord target head lba)) others after)
      (fun _ after => ¬ sound ∧ after.AgreeOutside start arena.span.base arena.span.stop ∧
        arena.Durable value target (head.staged (nextRecord target head lba)) others after) := by
  have durable := held.durable
  have order := region_order durable.described.divides
  obtain ⟨lower, upper, map⟩ := tail_inside durable (nextRecord target head lba)
  change arena.flogStart ≤ arena.tailOffset head at lower
  change arena.tailOffset head + _ ≤ _ at upper
  have agree : (before.store (arena.tailOffset head) (nextRecord target head lba).tail).AgreeOutside
      before arena.flogStart (arena.flogStart + flogSlotBytes) :=
    Contents.store_agreeOutside lower upper
  apply Step.meets_writeAt (by omega)
  · exact ⟨(agree.mono (by omega) (by omega)).trans held.outside,
      durable.store_tail held.settled inside held.filled⟩
  · exact fun _ unsound => ⟨unsound, held.outside, durable⟩

theorem meets_publish (durable : arena.Durable value target head others before)
    (inside : head.active.lba < arena.info.external)
    (pending : head.active.newMap = .normal (target head.active.lba))
    (room : arena.span.stop ≤ size) :
    (arena.publish head.active : Step μ _).Meets size sound before
      (fun _ after => arena.Durable value target head others after ∧
        arena.AllSettled after target ∧
        after.AgreeOutside before arena.span.base arena.span.stop)
      (fun _ after => ¬ sound ∧ arena.Durable value target head others after ∧
        after.AgreeOutside before arena.span.base arena.span.stop) := by
  have order := region_order durable.described.divides
  obtain ⟨lower, upper⟩ := entry_range durable.described.divides inside
  obtain ⟨stored, settled⟩ := durable.store_entry inside pending
  have outside : (before.storeWord (arena.entryOffset head.active.lba)
      head.active.newMap.raw).AgreeOutside before arena.span.base arena.span.stop := by
    apply Contents.store_agreeOutside (by omega)
    rw [LittleEndian.length_encode]
    exact Nat.le_trans upper order.2.2.2
  rw [publish]
  apply Step.meets_bind
  apply meets_writeMapEntry durable.described.divides room inside
  · apply Step.meets_flush
    · exact ⟨stored, settled, outside⟩
    · exact fun _ unsound => ⟨unsound, stored, outside⟩
  · exact fun _ unsound => ⟨unsound, durable, fun _ _ => rfl⟩

theorem meets_publish_next
    (durable : arena.Durable (Function.update value lba bytes)
      (Function.update target lba head.freeBlock) (head.commit (nextRecord target head lba))
      others before)
    (room : arena.span.stop ≤ size) (inside : lba < arena.info.external) :
    (arena.publish (nextRecord target head lba) : Step μ _).Meets size sound before
      (fun _ after => arena.Durable (Function.update value lba bytes)
          (Function.update target lba head.freeBlock) (head.commit (nextRecord target head lba))
          others after ∧
        arena.AllSettled after (Function.update target lba head.freeBlock) ∧
        after.AgreeOutside before arena.span.base arena.span.stop)
      (fun _ after => ¬ sound ∧ arena.Durable (Function.update value lba bytes)
          (Function.update target lba head.freeBlock) (head.commit (nextRecord target head lba))
          others after ∧
        after.AgreeOutside before arena.span.base arena.span.stop) := by
  have pending : (nextRecord target head lba).newMap =
      .normal (Function.update target lba head.freeBlock lba) := by
    rw [Function.update_self]
    rfl
  apply meets_publish durable inside pending room

/-- A write of an arena that takes writes, at whichever access it stops. -/
theorem write_live {media : μ} (durable : arena.Durable value target head others before)
    (settled : arena.AllSettled before target) (writable : arena.readOnly = false)
    (flog_eq : ∃ spare, arena.flog = { head with spare } :: others)
    (shown : Shows media size sound before) (room : arena.span.stop ≤ size)
    (inside : lba < arena.info.external) (width : bytes.length = arena.info.externalSize.toNat) :
    ∃ after, Shows (arena.write lba bytes media).2 size sound after ∧
      after.AgreeOutside before arena.span.base arena.span.stop ∧
      arena.Holds (arena.write lba bytes media).1.2
        (if arena.lands lba bytes media then Function.update value lba bytes else value) after ∧
      (sound → (arena.write lba bytes media).1.1 = .ok () ∧ arena.lands lba bytes media = true ∧
        (arena.write lba bytes media).1.2.readOnly = false) := by
  obtain ⟨spare, flog_eq⟩ := flog_eq
  have stageMeets : (arena.stage { head with spare } lba bytes : Step μ _).Meets size sound before
      (fun record after => record = nextRecord target head lba ∧
        arena.Staged value target head others lba bytes before after)
      (fun _ after => ¬ sound ∧ arena.Unchanged value target head others before after) :=
    meets_stage durable settled ⟨spare, rfl⟩ room inside width
  have flushMeets {contents : Contents} : (Step.flush : Step μ Unit).Meets size sound contents
      (fun _ after => after = contents) (fun _ after => ¬ sound ∧ after = contents) :=
    Step.meets_flush rfl fun _ unsound => ⟨unsound, rfl⟩
  obtain ⟨landed, outcome, written, last, lands_eq, ran, run⟩ := write_runs writable flog_eq media
  rw [lands_eq, ran]
  -- from the sequence number on the arena is held with the new bytes, wherever the write stops
  cases run with
  | notStaged stage =>
      obtain ⟨after, shown, unsound, ⟨other, kept⟩, settled, outside⟩ :=
        stageMeets.of_error shown stage
      refine ⟨after, shown, outside, ⟨target, _, others, kept, rfl, .inr ?_⟩, fun sound => ?_⟩
      · exact ⟨rfl, rfl, writable, ⟨spare, flog_eq⟩, settled⟩
      · exact absurd sound unsound
  | notLanded stage tail =>
      obtain ⟨staged, withStage, rfl, held⟩ := stageMeets.of_ok shown stage
      obtain ⟨after, shown, unsound, outside, same⟩ :=
        (meets_tail held room inside).of_error withStage tail
      refine ⟨after, shown, outside, ⟨target, _, others, same, rfl, .inl rfl⟩, ?_⟩
      exact fun sound => absurd sound unsound
  | notFlushed stage tail flush =>
      obtain ⟨staged, withStage, rfl, held⟩ := stageMeets.of_ok shown stage
      obtain ⟨landed, withTail, outside, durable⟩ :=
        (meets_tail held room inside).of_ok withStage tail
      obtain ⟨after, shown, unsound, same⟩ := flushMeets.of_error withTail flush
      subst same
      refine ⟨after, shown, outside, ⟨_, _, others, durable, rfl, .inl rfl⟩, ?_⟩
      exact fun sound => absurd sound unsound
  | notPublished stage tail flush publish =>
      obtain ⟨staged, withStage, rfl, held⟩ := stageMeets.of_ok shown stage
      obtain ⟨landed, withTail, outside, durable⟩ :=
        (meets_tail held room inside).of_ok withStage tail
      obtain ⟨flushed, withFlush, same⟩ := flushMeets.of_ok withTail flush
      subst same
      obtain ⟨after, shown, unsound, durable, changed⟩ :=
        (meets_publish_next durable room inside).of_error withFlush publish
      refine ⟨after, shown, changed.trans outside, ⟨_, _, others, durable, rfl, .inl rfl⟩, ?_⟩
      exact fun sound => absurd sound unsound
  | written stage tail flush publish =>
      obtain ⟨staged, withStage, rfl, held⟩ := stageMeets.of_ok shown stage
      obtain ⟨landed, withTail, outside, durable⟩ :=
        (meets_tail held room inside).of_ok withStage tail
      obtain ⟨flushed, withFlush, same⟩ := flushMeets.of_ok withTail flush
      subst same
      obtain ⟨after, shown, durable, settled, changed⟩ :=
        (meets_publish_next durable room inside).of_ok withFlush publish
      refine ⟨after, shown, changed.trans outside, ⟨_, _, others, durable, rfl, .inr ?_⟩, ?_⟩
      · exact ⟨rfl, rfl, writable, ⟨head.active, rfl⟩, settled⟩
      · exact fun _ => ⟨rfl, rfl, writable⟩

/-- A write of a held arena puts the bytes in place exactly if its sequence number is stored,
and fails only if the media does. -/
theorem write_holds {home : Arena} {media : μ} (holds : home.Holds arena value before)
    (shown : Shows media size sound before) (room : home.span.stop ≤ size)
    (inside : lba < home.info.external) (width : bytes.length = home.info.externalSize.toNat) :
    ∃ after, Shows (arena.write lba bytes media).2 size sound after ∧
      after.AgreeOutside before home.span.base home.span.stop ∧
      home.Holds (arena.write lba bytes media).1.2
        (if arena.lands lba bytes media then Function.update value lba bytes else value) after ∧
      (sound → arena.readOnly = false →
        (arena.write lba bytes media).1.1 = .ok () ∧ arena.lands lba bytes media = true ∧
          (arena.write lba bytes media).1.2.readOnly = false) := by
  obtain ⟨target, head, others, durable, external_eq, readOnly | live⟩ := holds
  · have none : arena.lands lba bytes media = false := by
      rw [lands]
      rw [readOnly]
    rw [write_refused (.inl readOnly), none]
    refine ⟨before, shown, fun _ _ => rfl,
      ⟨target, head, others, durable, external_eq, .inl readOnly⟩, ?_⟩
    intro _ writable
    exact absurd writable (by simp [readOnly])
  · have here := durable.transfer live.span_eq live.info_eq
    have settled := live.settled.transfer live.span_eq live.info_eq
    obtain ⟨after, result⟩ := write_live here settled live.writable live.flog_eq shown
      (live.span_eq ▸ room) (live.info_eq ▸ inside) (live.info_eq ▸ width)
    rw [live.span_eq] at result
    obtain ⟨shownAfter, outside, held, fine⟩ := result
    exact ⟨after, shownAfter, outside, held.transfer live.span_eq.symm live.info_eq.symm,
      fun sound _ => fine sound⟩

end Arena

end Remap.Block
