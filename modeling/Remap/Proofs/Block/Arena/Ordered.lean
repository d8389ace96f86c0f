import Remap.Proofs.Block.Arena.Format
import Remap.Proofs.Block.Attempts

/-!
# The order of accesses

Writing a block and laying out an arena follow a plan in which each store that others build on
is flushed before them, and stop at the first access that fails. Mounting flushes each change of
the map before it makes the next. All of this holds on any media, whatever it returns and
whichever accesses it fails.
-/

namespace Remap.Block

open Remap.Media

namespace Arena

/-- What a write does up to the point from which on it can not be taken back: the data goes to
the free block and the record to the spare place, each durable before what follows. -/
def stagePlan (arena : Arena) (slot : FlogSlot) (lba : UInt32) : List Request :=
  [.write (arena.dataOffset slot.freeBlock), .flush, .read (arena.lineOffset lba),
    .write (arena.recordOffset slot), .flush]

def commitPlan (arena : Arena) (slot : FlogSlot) (lba : UInt32) : List Request :=
  [.write (arena.tailOffset slot), .flush, .read (arena.lineOffset lba),
    .write (arena.lineOffset lba), .flush]

def writePlan (arena : Arena) (lba : UInt32) : List Request :=
  match arena.readOnly, arena.flog with
  | true, _ | _, [] => []
  | false, slot :: _ => arena.stagePlan slot lba ++ arena.commitPlan slot lba

def formatPlan (span : Span) (info : InfoBlock) : List Request :=
  (formatActs span info).map Act.request

def changesMap (span : Span) : Request → Bool
  | .write offset => offset != span.base
  | .read _ | .flush => false

theorem changesMap_lineOffset {arena : Arena} {expected : Expectation}
    (accepted : arena.info.mismatch? expected = none) (lba : UInt32) :
    changesMap arena.span (.write (arena.lineOffset lba)) = true := by
  have checked := InfoBlock.checked_of_accepted accepted
  have start := checked.flog_start
  have behind : arena.info.flogOffset.toNat ≤ arena.info.mapOffset.toNat :=
    Nat.le_trans (Nat.le_add_right _ _) checked.flog_end
  have cleared : arena.entryOffset lba &&& (cacheLine - 1) ≤ cacheLine - 1 := Nat.and_le_right
  have beyond : arena.span.base < arena.lineOffset lba := by
    rw [lineOffset, alignDown]
    simp only [entryOffset, mapStart, infoBlockBytes, cacheLine] at *
    omega
  exact bne_iff_ne.mpr (Nat.ne_of_gt beyond)

theorem fences_reading {μ α : Type} {span : Span} {step : Step (Journal μ) α} {offset : Nat}
    {done : α → Prop}
    (takes : step.Takes [.read offset] done) : step.Fences (changesMap span) done := by
  apply takes.fences
  intro request member
  rw [List.mem_singleton.mp member]
  rfl

variable {μ : Type} [Media μ] {arena : Arena} {slot : FlogSlot} {lba : UInt32}
  {bytes : List UInt8} {record : FlogRecord}

theorem takes_readMapEntry (arena : Arena) (lba : UInt32) :
    (arena.readMapEntry lba : Step (Journal μ) _).Takes [.read (arena.lineOffset lba)]
      fun _ => True := by
  rw [readMapEntry]
  exact Step.takes_bind (Step.takes_readAt _ _) fun _ _ => Step.takes_pure trivial

theorem takes_stage :
    (arena.stage slot lba bytes : Step (Journal μ) _).Takes (arena.stagePlan slot lba)
      fun record => record.lba = lba := by
  rw [stage]
  refine Step.takes_bind (Step.takes_writeAt _ _) fun _ _ => ?_
  refine Step.takes_bind Step.takes_flush fun _ _ => ?_
  refine Step.takes_bind (takes_readMapEntry arena lba) fun _ _ => ?_
  refine Step.takes_bind (Step.takes_writeAt _ _) fun _ _ => ?_
  exact Step.takes_bind Step.takes_flush fun _ _ => Step.takes_pure rfl

theorem takes_publish :
    (arena.publish record : Step (Journal μ) _).Takes [.read (arena.lineOffset record.lba),
      .write (arena.lineOffset record.lba), .flush] fun _ => True := by
  rw [publish, writeMapEntry]
  simp only [bind_assoc]
  refine Step.takes_bind (Step.takes_readAt _ _) fun _ _ => ?_
  exact Step.takes_bind (Step.takes_writeAt _ _) fun _ _ => Step.takes_flush

def complete (arena : Arena) (slot : FlogSlot) (others : List FlogSlot) (record : FlogRecord) :
    Step μ Unit := do
  Step.writeAt (arena.tailOffset slot) record.tail
  Step.flush
  (arena.committed slot others record).publish record

theorem takes_complete {others : List FlogSlot} (named : record.lba = lba) :
    (arena.complete slot others record : Step (Journal μ) _).Takes (arena.commitPlan slot lba)
      fun _ => True := by
  subst named
  refine Step.takes_bind (Step.takes_writeAt _ _) fun _ _ => ?_
  exact Step.takes_bind Step.takes_flush fun _ _ => takes_publish

/-- A write either fails while it is staged, and then leaves the arena as it was, or it stages
all there is and goes on until it fails, which makes the arena read-only, or is done. -/
theorem WriteRun.attempts {others : List FlogSlot} {journal after : Journal μ} {landed : Bool}
    {outcome : Except Error Unit} {later : Arena}
    (run : WriteRun arena slot others lba bytes journal landed outcome later after) :
    ∃ made, after.attempts = journal.attempts ++ made ∧
      (later = arena ∧ landed = false ∧ outcome.isOk = false ∧
          Attempt.Course (arena.stagePlan slot lba) false made ∨
        (outcome.isOk = false → later.readOnly = true) ∧
          ∃ late, made = (arena.stagePlan slot lba).map Attempt.success ++ late ∧
            Attempt.Course (arena.commitPlan slot lba) outcome.isOk late) := by
  have completed {record : FlogRecord} {staged : Journal μ}
      (stage : (arena.stage slot lba bytes).on journal = (.ok record, staged))
      (rest : (arena.complete slot others record).on staged = (outcome, after)) :
      ∃ made, after.attempts = journal.attempts ++ made ∧
        ∃ late, made = (arena.stagePlan slot lba).map Attempt.success ++ late ∧
          Attempt.Course (arena.commitPlan slot lba) outcome.isOk late := by
    obtain ⟨early, entered, course, named⟩ := takes_stage.ran stage
    obtain ⟨late, enteredLate, courseLate, -⟩ := (takes_complete (named record rfl)).ran rest
    refine ⟨early ++ late, ?_, late, by rw [course.whole_eq], courseLate⟩
    rw [enteredLate, entered, List.append_assoc]
  cases run with
  | notStaged stage =>
      obtain ⟨made, entered, course, -⟩ := takes_stage.ran stage
      exact ⟨made, entered, .inl ⟨rfl, rfl, rfl, course⟩⟩
  | notLanded stage tail =>
      obtain ⟨made, entered, whole⟩ := completed stage (by rw [complete, Step.on_bind, tail])
      exact ⟨made, entered, .inr ⟨fun _ => rfl, whole⟩⟩
  | notFlushed stage tail flush =>
      obtain ⟨made, entered, whole⟩ := completed stage (by
        simp only [complete, Step.on_bind, tail, flush])
      exact ⟨made, entered, .inr ⟨fun _ => rfl, whole⟩⟩
  | notPublished stage tail flush publish =>
      obtain ⟨made, entered, whole⟩ := completed stage (by
        simp only [complete, Step.on_bind, tail, flush, publish])
      exact ⟨made, entered, .inr ⟨fun _ => rfl, whole⟩⟩
  | written stage tail flush publish =>
      obtain ⟨made, entered, whole⟩ := completed stage (by
        simp only [complete, Step.on_bind, tail, flush, publish])
      exact ⟨made, entered, .inr ⟨nofun, whole⟩⟩

theorem write_follows_plan (arena : Arena) (lba : UInt32) (bytes : List UInt8)
    (journal : Journal μ) :
    ∃ made, (arena.write lba bytes journal).2.attempts = journal.attempts ++ made ∧
      Attempt.Follows made (arena.writePlan lba) ∧
      ((arena.write lba bytes journal).1.1 = .ok () →
        made = (arena.writePlan lba).map Attempt.success) := by
  by_cases refuses : arena.readOnly = true ∨ arena.flog = []
  · rw [write_refused refuses]
    exact ⟨[], (List.append_nil _).symm, Attempt.follows_nil _, nofun⟩
  · obtain ⟨writable, slots⟩ := not_or.mp refuses
    obtain ⟨slot, others, flog_eq⟩ := List.exists_cons_of_ne_nil slots
    rw [Bool.not_eq_true] at writable
    have plan_eq : arena.writePlan lba = arena.stagePlan slot lba ++ arena.commitPlan slot lba := by
      rw [writePlan, writable, flog_eq]
    rw [plan_eq]
    have run : WriteRun arena slot others lba bytes journal _ _ _ _ :=
      write_run writable flog_eq journal
    obtain ⟨made, entered, ⟨-, -, failed, course⟩ | ⟨-, late, rfl, course⟩⟩ := run.attempts
    · refine ⟨made, entered, course.follows.extend _, fun ok => ?_⟩
      rw [ok] at failed
      cases failed
    · have staged : Attempt.Course (arena.stagePlan slot lba) true _ := .whole
      have course := staged.append course
      refine ⟨_, entered, course.follows, fun ok => ?_⟩
      rw [ok] at course
      exact course.whole_eq

theorem takes_format (span : Span) (info : InfoBlock) :
    (format span info : Step (Journal μ) _).Takes (formatPlan span info) fun _ => True := by
  rw [format_eq, formatPlan, ← List.append_nil ((formatActs span info).map _)]
  exact Step.takes_bind (Step.takes_issue _) fun _ _ => Step.takes_pure trivial

theorem takes_readInfo (offset : Nat) (expected : Expectation) :
    (readInfo offset expected : Step (Journal μ) _).Takes [.read offset] fun _ => True := by
  rw [readInfo]
  exact Step.takes_bind (Step.takes_readAt _ _) fun _ _ => Step.takes_pure trivial

section Mounting

variable {span : Span}

theorem fences_loadInfo (span : Span) (expected : Expectation) :
    (loadInfo span expected : Step (Journal μ) _).Fences (changesMap span) fun _ => True := by
  have restoring (info : InfoBlock) :
      (restoreInfo span info : Step (Journal μ) _).Fences (changesMap span) fun _ => True := by
    rw [restoreInfo]
    refine Step.fences_bind (Step.fences_outcome
      (Step.takes_bind (Step.takes_writeAt _ _) fun _ _ => Step.takes_flush) ?_)
      fun _ _ => Step.fences_pure trivial
    intro request member
    rcases List.mem_pair.mp member with rfl | rfl
    · exact bne_self_eq_false _
    · rfl
  rw [loadInfo]
  refine Step.fences_bind (fences_reading (takes_readInfo span.base expected)) fun primary _ => ?_
  cases primary with
  | ok info => exact Step.fences_pure trivial
  | error primary =>
      refine Step.fences_bind (fences_reading (takes_readInfo _ expected)) fun backup _ => ?_
      cases backup with
      | error backup => exact Step.fences_throw
      | ok info => exact Step.fences_bind (restoring info) fun _ _ => Step.fences_pure trivial

theorem fences_readFlog (span : Span) (info : InfoBlock) :
    (readFlog span info : Step (Journal μ) _).Fences (changesMap span) fun _ => True := by
  rw [readFlog]
  refine Step.fences_bind (Step.fences_outcome (Step.takes_readAt _ _) ?_) fun outcome _ => ?_
  · intro request member
    rw [List.mem_singleton.mp member]
    rfl
  · cases outcome <;> exact Step.fences_pure trivial

theorem fences_replay (arena : Arena) (slot : FlogSlot) :
    (arena.replay slot : Step (Journal μ) _).Fences (changesMap span) fun _ => True := by
  rw [replay]
  refine Step.fences_bind (fences_reading (takes_readMapEntry arena _)) fun current _ => ?_
  split
  next =>
    rw [writeMapEntry]
    simp only [bind_assoc]
    exact Step.fences_bind (fences_reading (Step.takes_readAt _ _)) fun _ _ =>
      Step.fences_write_flush _ _ rfl
  next => exact Step.fences_pure trivial

theorem fences_load (span : Span) (expected : Expectation) :
    (load span expected : Step (Journal μ) _).Fences (changesMap span) fun _ => True := by
  rw [load]
  refine Step.fences_bind (fences_loadInfo span expected) fun info _ => ?_
  cases info.hasErrorFlag with
  | true => exact Step.fences_pure trivial
  | false =>
      refine Step.fences_bind (fences_readFlog span info) fun flog _ => ?_
      cases flog with
      | none => exact Step.fences_pure trivial
      | some flog =>
          exact Step.fences_bind (Step.fences_forM fun slot _ => fences_replay _ slot)
            fun _ _ => Step.fences_pure trivial

end Mounting

/-- Whatever the media returns and whichever accesses it fails: a write and the layout of an
arena follow their plans, so each access comes after the success of all before it in the plan,
and a mount flushes between any two changes of the map. The layout is the script of its accesses,
and the writes in front of the flog zero the whole map. -/
theorem accesses_ordered (journal : Journal μ) :
    (∀ (arena : Arena) (lba : UInt32) (bytes : List UInt8), ∃ made,
      (arena.write lba bytes journal).2.attempts = journal.attempts ++ made ∧
        Attempt.Follows made (arena.writePlan lba) ∧
        ((arena.write lba bytes journal).1.1 = .ok () →
          made = (arena.writePlan lba).map Attempt.success)) ∧
    ∀ span : Span,
      (∀ info,
        (∃ made,
          ((format span info).on journal).2.attempts = journal.attempts ++ made ∧
            Attempt.Follows made (formatPlan span info) ∧
            ∀ arena, ((format span info).on journal).1 = .ok arena →
              made = (formatPlan span info).map Attempt.success) ∧
        (format span info : Step (Journal μ) Arena) =
          (Step.issue (formatActs span info) >>= fun _ => pure (fresh span info)) ∧
        ∀ (contents : Contents) (position : Nat),
          span.base + info.mapOffset.toNat ≤ position →
          position < span.base + info.dataOffset.toNat →
          contents.storeAll (zeroWrites span info) position = 0) ∧
      ∀ expected,
        (∃ made, ((load span expected).on journal).2.attempts = journal.attempts ++ made ∧
          Attempt.Fenced (changesMap span) made) ∧
        ∀ arena : Arena, arena.span = span → arena.info.mismatch? expected = none →
          ∀ lba, changesMap span (.write (arena.lineOffset lba)) = true := by
  refine ⟨fun arena lba bytes => write_follows_plan arena lba bytes journal, fun span => ⟨?_, ?_⟩⟩
  · intro info
    refine ⟨?_, format_eq span info, fun contents position lower upper => ?_⟩
    · obtain ⟨made, entered, course, -⟩ := takes_format span info journal
      refine ⟨made, entered, course.follows, fun arena ok => ?_⟩
      rw [ok] at course
      exact course.whole_eq
    · rw [storeAll_zeroWrites, if_pos (by omega)]
  · intro expected
    obtain ⟨made, entered, fenced, -⟩ := fences_load span expected journal
    refine ⟨⟨made, entered, fenced⟩, ?_⟩
    rintro arena rfl accepted lba
    exact changesMap_lineOffset accepted lba

end Arena

end Remap.Block
