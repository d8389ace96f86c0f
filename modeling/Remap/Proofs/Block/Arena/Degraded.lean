import Remap.Proofs.Block.Arena.Ordered

/-!
# Writes that fail

A write that fails while it is staged leaves behind nothing but bytes in the free block and in
the spare record, and no block reads them. One that fails later makes the arena read-only: then
the block of the write has its old or its new bytes, and every other block has kept its own.
-/

namespace Remap.Block

open Remap.Media

namespace Arena

/-- Every block reads as `value` has it, and the bytes of a write wait in the free block. -/
structure Served (arena : Arena) (value : UInt32 → List UInt8) (head : FlogSlot)
    (bytes : List UInt8) (contents : Contents) : Prop where
  answers : ∀ lba, lba < arena.info.external → arena.answer contents lba = .ok (value lba)
  filled : contents.load (arena.dataOffset head.freeBlock) arena.info.externalSize.toNat = bytes

/-- Every block reads as `value` has it, but for `lba`, which may have the new bytes. -/
structure Between (arena : Arena) (value : UInt32 → List UInt8) (lba : UInt32)
    (bytes : List UInt8) (contents : Contents) : Prop where
  others : ∀ other, other < arena.info.external → other ≠ lba →
    arena.answer contents other = .ok (value other)
  own : arena.answer contents lba = .ok (value lba) ∨ arena.answer contents lba = .ok bytes

variable {μ : Type} [Media μ] [Atomic μ] {arena : Arena} {size : Nat} {sound : Prop}
  {start before after : Contents} {value : UInt32 → List UInt8} {target : UInt32 → UInt32}
  {head : FlogSlot} {others : List FlogSlot} {lba : UInt32} {bytes : List UInt8}

theorem Durable.answers (durable : arena.Durable value target head others before)
    (settled : arena.AllSettled before target) :
    ∀ lba, lba < arena.info.external → arena.answer before lba = .ok (value lba) :=
  fun lba inside => durable.answer_eq (settled lba inside) inside

theorem Staged.served (staged : arena.Staged value target head others lba bytes start before) :
    arena.Served value head bytes before :=
  ⟨staged.durable.answers staged.settled, staged.filled⟩

theorem Served.between (served : arena.Served value head bytes before)
    (inside : lba < arena.info.external) : arena.Between value lba bytes before :=
  ⟨fun other otherInside _ => served.answers other otherInside, .inl (served.answers lba inside)⟩

theorem Served.store_tail (served : arena.Served value head bytes before)
    (durable : arena.Durable value target head others start) (record : FlogRecord) :
    arena.Served value head bytes (before.store (arena.tailOffset head) record.tail) := by
  have divided := durable.described.divides
  obtain ⟨-, upper, map⟩ := tail_inside durable record
  have agree : (before.store (arena.tailOffset head) record.tail).AgreeOn before arena.mapStart
      arena.span.stop := fun position lower _ => Contents.store_outside (.inr (by omega))
  constructor
  · intro lba inside
    rw [answer_congr divided agree inside]
    exact served.answers lba inside
  · obtain ⟨lower, stop⟩ := data_range divided durable.free_lt
    have order := region_order divided
    have smaller := divided.size_le
    rw [Contents.load_congr agree (by omega) (by omega)]
    exact served.filled

/-- Until the change of the map is made, the old bytes are read, and from then on the new. -/
theorem meets_publish_between (served : arena.Served value head bytes before)
    (durable : arena.Durable value target head others start) (room : arena.span.stop ≤ size)
    (inside : lba < arena.info.external) :
    (arena.publish (nextRecord target head lba) : Step μ _).Meets size sound before
      (fun _ _ => True) (fun _ after => arena.Between value lba bytes after) := by
  have divided := durable.described.divides
  have published : arena.Between value lba bytes
      (before.storeWord (arena.entryOffset lba) (nextRecord target head lba).newMap.raw) := by
    constructor
    · intro other otherInside different
      rw [answer_storeWord_other divided inside different]
      exact served.answers other otherInside
    · right
      refine (answer_storeWord_same divided inside durable.described.internal_le
        durable.free_lt).trans ?_
      rw [served.filled]
  rw [publish]
  apply Step.meets_bind
  apply meets_writeMapEntry divided room inside
  · exact Step.meets_flush trivial fun _ _ => published
  · exact fun _ _ => served.between inside

/-- A write that makes the arena read-only leaves every block as it was, but for its own. -/
theorem write_between {media : μ} (durable : arena.Durable value target head others before)
    (settled : arena.AllSettled before target) (writable : arena.readOnly = false)
    (flog_eq : ∃ spare, arena.flog = { head with spare } :: others)
    (shown : Shows media size sound before) (room : arena.span.stop ≤ size)
    (inside : lba < arena.info.external) (width : bytes.length = arena.info.externalSize.toNat)
    (degraded : (arena.write lba bytes media).1.2.readOnly = true) :
    arena.Between value lba bytes (Atomic.contents (arena.write lba bytes media).2) := by
  obtain ⟨spare, flog_eq⟩ := flog_eq
  have stageMeets : (arena.stage { head with spare } lba bytes : Step μ _).Meets size sound before
      (fun record after => record = nextRecord target head lba ∧
        arena.Staged value target head others lba bytes before after)
      (fun _ after => ¬ sound ∧ arena.Unchanged value target head others before after) :=
    meets_stage durable settled ⟨spare, rfl⟩ room inside width
  have tailMeets {contents : Contents} (served : arena.Served value head bytes contents) :
      (Step.writeAt (arena.tailOffset head) (nextRecord target head lba).tail : Step μ _).Meets
        size sound contents (fun _ after => arena.Served value head bytes after)
        (fun _ after => arena.Served value head bytes after) := by
    have order := region_order durable.described.divides
    obtain ⟨-, upper, map⟩ := tail_inside durable (nextRecord target head lba)
    exact Step.meets_writeAt (by omega) (served.store_tail durable _) fun _ _ => served
  have flushMeets {contents : Contents} (served : arena.Served value head bytes contents) :
      (Step.flush : Step μ Unit).Meets size sound contents
        (fun _ after => arena.Served value head bytes after)
        (fun _ after => arena.Served value head bytes after) :=
    Step.meets_flush served fun _ _ => served
  obtain ⟨landed, outcome, written, last, -, ran, run⟩ := write_runs writable flog_eq media
  rw [ran] at degraded ⊢
  cases run with
  | notStaged stage => simp [writable] at degraded
  | notLanded stage tail =>
      obtain ⟨staged, withStage, rfl, held⟩ := stageMeets.of_ok shown stage
      obtain ⟨after, shown, served⟩ := (tailMeets held.served).of_error withStage tail
      exact shown.contents_eq ▸ served.between inside
  | notFlushed stage tail flush =>
      obtain ⟨staged, withStage, rfl, held⟩ := stageMeets.of_ok shown stage
      obtain ⟨landed, withTail, served⟩ := (tailMeets held.served).of_ok withStage tail
      obtain ⟨after, shown, served⟩ := (flushMeets served).of_error withTail flush
      exact shown.contents_eq ▸ served.between inside
  | notPublished stage tail flush publish =>
      obtain ⟨staged, withStage, rfl, held⟩ := stageMeets.of_ok shown stage
      obtain ⟨landed, withTail, served⟩ := (tailMeets held.served).of_ok withStage tail
      obtain ⟨flushed, withFlush, served⟩ := (flushMeets served).of_ok withTail flush
      obtain ⟨after, shown, between⟩ :=
        (meets_publish_between served durable room inside).of_error withFlush publish
      exact shown.contents_eq ▸ between
  | written stage tail flush publish => simp [committed, writable] at degraded

end Arena

end Remap.Block
