import Remap.Proofs.Block.Arena.Ordered
import Remap.Proofs.Block.Device.Created
import Remap.Proofs.Block.Device.Session

/-!
# Steps up to a loss of power

A simulated media that is to lose its power serves everything inside its bounds until then. A
step is served as a whole if it makes no more writes than are left, and the first write too many
is the first access to fail. So a device can be laid out as if nothing was to happen. The write
that follows is lost as a whole if no power is left for its data, and leaves its arena read-only
if none is left for its sequence number.
-/

namespace Remap.Block

open Remap.Media

namespace Step

structure Lasts (journal : Journal Simulated) (size left : Nat) : Prop where
  powered : Powered journal.media left
  size_eq : Media.size journal = size

def Spends {α : Type} (step : Step (Journal Simulated) α) (size cost : Nat) (done : α → Prop) :
    Prop :=
  ∀ journal left, Lasts journal size (cost + left) →
    ∃ value after, step.on journal = (.ok value, after) ∧ Lasts after size left ∧ done value

variable {α β : Type} {journal : Journal Simulated} {size left early late offset length : Nat}
  {bytes : List UInt8} {step : Step (Journal Simulated) α}
  {next : α → Step (Journal Simulated) β} {done : α → Prop} {final : β → Prop}

theorem spends_pure {value : α} (accepted : done value) :
    (pure value : Step (Journal Simulated) α).Spends size 0 done := by
  intro journal left lasts
  rw [Nat.zero_add] at lasts
  exact ⟨value, journal, rfl, lasts, accepted⟩

theorem spends_bind (first : step.Spends size early done)
    (second : ∀ value, done value → (next value).Spends size late final) :
    (step >>= next).Spends size (early + late) final := by
  intro journal left lasts
  rw [Nat.add_assoc] at lasts
  obtain ⟨value, middle, ran, lastsMiddle, accepted⟩ := first journal _ lasts
  rw [on_bind, ran]
  exact second value accepted middle left lastsMiddle

theorem writeAt_journal (journal : Journal Simulated) (offset : Nat) (bytes : List UInt8) :
    ∃ attempts, (writeAt offset bytes).on journal =
      (((writeAt offset bytes).on journal.media).1,
        ⟨((writeAt offset bytes).on journal.media).2, attempts⟩) :=
  ⟨_, rfl⟩

theorem spends_writeAt (inside : offset + bytes.length ≤ size) :
    (writeAt offset bytes).Spends size 1 fun _ => True := by
  intro journal left lasts
  rw [Nat.add_comm] at lasts
  obtain ⟨powered, rfl⟩ := lasts
  obtain ⟨after, made, powered, size_eq, -⟩ := powered.write_lands inside
  obtain ⟨attempts, handed⟩ := writeAt_journal journal offset bytes
  rw [made] at handed
  exact ⟨(), _, handed, ⟨powered, size_eq⟩, trivial⟩

theorem Lasts.lost (lasts : Lasts journal size 0) (offset : Nat) (bytes : List UInt8) :
    ∃ cause after, (writeAt offset bytes).on journal = (.error cause, after) := by
  obtain ⟨cause, after, lost, -⟩ := lasts.powered.write_lost offset bytes
  obtain ⟨attempts, handed⟩ := writeAt_journal journal offset bytes
  rw [lost] at handed
  exact ⟨cause, _, handed⟩

theorem spends_flush : (flush : Step (Journal Simulated) Unit).Spends size 0 fun _ => True := by
  intro journal left lasts
  rw [Nat.zero_add] at lasts
  obtain ⟨⟨power, plan⟩, size_eq⟩ := lasts
  exact ⟨(), _, rfl, ⟨⟨power, plan⟩, size_eq⟩, trivial⟩

theorem spends_readAt (inside : offset + length ≤ size) :
    (readAt offset length : Step (Journal Simulated) _).Spends size 0 fun _ => True := by
  intro journal left lasts
  rw [Nat.zero_add] at lasts
  obtain ⟨powered, rfl⟩ := lasts
  obtain ⟨found, after, made, powered, size_eq⟩ := powered.read_served inside
  have handed : ∃ attempts, (readAt offset length).on journal =
      (((readAt offset length).on journal.media).1,
        ⟨((readAt offset length).on journal.media).2, attempts⟩) := ⟨_, rfl⟩
  obtain ⟨attempts, handed⟩ := handed
  rw [made] at handed
  exact ⟨found, _, handed, ⟨powered, size_eq⟩, trivial⟩

theorem spends_issue {acts : List Act}
    (inside : ∀ write ∈ Act.writes acts, write.1 + write.2.length ≤ size) :
    (issue acts).Spends size (Act.writes acts).length fun _ => True := by
  induction acts with
  | nil => exact spends_pure trivial
  | cons act rest induction =>
      cases act with
      | write offset bytes =>
          rw [issue_cons, Act.writes, List.length_cons, Nat.add_comm]
          refine spends_bind (spends_writeAt (inside (offset, bytes) List.mem_cons_self)) ?_
          exact fun _ _ => induction fun later member =>
            inside later (List.mem_cons_of_mem _ member)
      | flush =>
          rw [issue_cons, ← Nat.zero_add (Act.writes _).length]
          exact spends_bind spends_flush fun _ _ => induction inside

end Step

namespace Arena

variable {arena : Arena} {slot : FlogSlot} {others : List FlogSlot} {lba : UInt32}
  {bytes : List UInt8} {size : Nat} {journal : Journal Simulated}

theorem spends_stage (divided : arena.info.Divides arena.span) (room : arena.span.stop ≤ size)
    (inside : lba < arena.info.external) (free : slot.freeBlock < arena.info.internal)
    (width : bytes.length = arena.info.externalSize.toNat) :
    (arena.stage slot lba bytes).Spends size 2 fun _ => True := by
  have order := region_order divided
  have smaller := divided.size_le
  obtain ⟨-, dataUpper⟩ := data_range divided free
  obtain ⟨-, -, -, lineUpper⟩ := line_range divided inside
  obtain ⟨-, recordUpper, recordMap⟩ := record_range divided slot
  have reading : (arena.readMapEntry lba).Spends size (0 + 0) fun _ => True := by
    rw [readMapEntry]
    exact Step.spends_bind (Step.spends_readAt (by omega)) fun _ _ => Step.spends_pure trivial
  have bodyInside (record : FlogRecord) :
      arena.recordOffset slot + record.body.length ≤ size := by
    simp only [FlogRecord.length_body, FlogRecord.bodyWidth, FlogRecord.width] at *
    omega
  rw [stage]
  change Step.Spends _ size (1 + (0 + ((0 + 0) + (1 + (0 + 0))))) _
  refine Step.spends_bind (Step.spends_writeAt (by omega)) fun _ _ => ?_
  refine Step.spends_bind Step.spends_flush fun _ _ => ?_
  refine Step.spends_bind reading fun _ _ => ?_
  refine Step.spends_bind (Step.spends_writeAt (bodyInside _)) fun _ _ => ?_
  exact Step.spends_bind Step.spends_flush fun _ _ => Step.spends_pure trivial

section Cut

variable (writable : arena.readOnly = false) (flog_eq : arena.flog = slot :: others)

include writable flog_eq

theorem write_unpowered (lba : UInt32) (bytes : List UInt8) (lasts : Step.Lasts journal size 0) :
    ∃ cause, (arena.write lba bytes journal).1.1 = .error cause ∧
      (arena.write lba bytes journal).1.2.readOnly = false := by
  have stage_lost : ∃ cause after,
      (arena.stage slot lba bytes).on journal = (.error cause, after) := by
    obtain ⟨cause, after, lost⟩ := lasts.lost (arena.dataOffset slot.freeBlock) bytes
    refine ⟨cause, after, ?_⟩
    rw [stage, Step.on_bind, lost]
  obtain ⟨cause, after, lost⟩ := stage_lost
  rw [(write_unstaged writable flog_eq lost).1]
  exact ⟨cause, rfl, writable⟩

/-- With power for the data and the record alone the sequence number is lost, and the arena
becomes read-only. -/
theorem write_cut (divided : arena.info.Divides arena.span) (room : arena.span.stop ≤ size)
    (inside : lba < arena.info.external) (free : slot.freeBlock < arena.info.internal)
    (width : bytes.length = arena.info.externalSize.toNat) (lasts : Step.Lasts journal size 2) :
    ∃ cause, (arena.write lba bytes journal).1.1 = .error cause ∧
      (arena.write lba bytes journal).1.2.readOnly = true ∧
      arena.lands lba bytes journal = false := by
  obtain ⟨record, staged, made, lastsStaged, -⟩ :=
    spends_stage divided room inside free width journal 0 lasts
  obtain ⟨reason, stopped, lost⟩ := lastsStaged.lost (arena.tailOffset slot) record.tail
  obtain ⟨landed, outcome, left, last, lands, ran, run⟩ := write_runs writable flog_eq journal
  rw [ran, lands]
  cases run with
  | notStaged stage =>
      rw [made] at stage
      cases stage
  | notLanded stage tail => exact ⟨_, rfl, rfl, rfl⟩
  | notFlushed stage tail | notPublished stage tail | written stage tail =>
      rw [made] at stage
      cases stage
      rw [lost] at tail
      cases tail

end Cut

end Arena

namespace Device

/-- Laying out a device takes power for its writes and no more. -/
theorem spends_create {layout : Layout} {entropy : Entropy} {size : Nat}
    {pairs : List (Span × InfoBlock)} (planned : plan layout entropy size = .ok pairs) :
    (create layout entropy : Step (Journal Simulated) _).Spends size (createWrites pairs).length
      fun device => device.arenas = freshArenas pairs := by
  have laidOut := plan_laidOut planned
  have issue : (Step.issue (createActs pairs)).Spends size (createWrites pairs).length
      fun _ => True := by
    rw [← writes_createActs]
    refine Step.spends_issue fun write member => ?_
    rw [writes_createActs] at member
    obtain ⟨pair, pairMember, -, upper⟩ := createWrites_inside laidOut write member
    exact Nat.le_trans upper (laidOut.room pair pairMember)
  have made : (Step.issue (createActs pairs) >>= fun _ => pure (Device.mk layout.parent
      layout.blockSize (internalBlockSize layout.blockSize) (freshArenas pairs))).Spends size
      ((createWrites pairs).length + 0) fun device => device.arenas = freshArenas pairs :=
    Step.spends_bind issue fun _ _ => Step.spends_pure rfl
  intro journal left lasts
  rw [create_planned (lasts.size_eq.symm ▸ planned)]
  exact made journal left lasts

theorem create_powered {layout : Layout} {entropy : Entropy} {size : Nat}
    {pairs : List (Span × InfoBlock)} (planned : plan layout entropy size = .ok pairs)
    (left : Nat) : ∃ (start created : Journal Simulated) (device : Device),
      (create layout entropy).on start = (.ok device, created) ∧ Media.size start = size ∧
        Step.Lasts created size left := by
  have lasts : Step.Lasts ⟨(Simulated.blank size).setPlan
      { writeBudget := some ((createWrites pairs).length + left) }, []⟩
      size ((createWrites pairs).length + left) := ⟨.setPlan _ _, rfl⟩
  obtain ⟨device, created, laid, lasts, -⟩ := spends_create planned _ left lasts
  exact ⟨_, created, device, laid, rfl, lasts⟩

section FirstWrite

variable {device : Device} {size : Nat} {arena : Arena} {slot : FlogSlot}
  {others : List FlogSlot} {bytes : List UInt8} {journal : Journal Simulated}
  (first : device.FirstBlock size arena slot others)
  (width : bytes.length = device.externalSize.toNat)

include first width

theorem write_unpowered (lasts : Step.Lasts journal size 0) :
    ∃ cause left after, device.write 0 bytes journal =
      ((.error cause, { device with arenas := device.arenas.set 0 left }), after) ∧
      left.readOnly = false := by
  obtain ⟨cause, failed, writable⟩ :=
    Arena.write_unpowered first.writable first.flog_eq 0 bytes lasts
  have made := write_of_locate (locate_of_place first.placed width) first.found journal
  rw [failed] at made
  exact ⟨cause, _, _, made, writable⟩

theorem write_cut (lasts : Step.Lasts journal size 2) :
    ∃ cause left after, device.write 0 bytes journal =
      ((.error cause, { device with arenas := device.arenas.set 0 left }), after) ∧
      left.readOnly = true ∧ device.lands 0 bytes journal = false := by
  obtain ⟨cause, failed, degraded, lost⟩ := Arena.write_cut first.writable first.flog_eq
    first.divided first.room first.inside first.free (first.width ▸ width) lasts
  have located := locate_of_place first.placed width
  have made := write_of_locate located first.found journal
  rw [failed] at made
  exact ⟨cause, _, _, made, degraded, (lands_of_locate located first.found journal).trans lost⟩

end FirstWrite

end Device

end Remap.Block
