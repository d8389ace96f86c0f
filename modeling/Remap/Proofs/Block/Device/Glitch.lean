import Remap.Proofs.Block.Device.Created
import Remap.Proofs.Block.Device.Reference

/-!
# Faults that pass

A media may fail a single read and serve everything from then on. Laying out a device reads
nothing and takes no notice. The next write of a block has stored its data when it meets the
fault, leaves the arena as it was, and finds the media without faults.
-/

namespace Remap.Media

/-- A media whose next read fails if that is `pending`; all other accesses go to the one behind. -/
structure Glitch (μ : Type) where
  media : μ
  pending : Bool

namespace Glitch

variable {μ : Type} [Media μ]

def pass {α : Type} (glitch : Glitch μ) (access : Access μ α) : Except Error α × Glitch μ :=
  ((access.run glitch.media).1, { glitch with media := (access.run glitch.media).2 })

instance : Media (Glitch μ) where
  size glitch := Media.size glitch.media
  read offset length := fun glitch =>
    if glitch.pending then (.error (.injected .readError), { glitch with pending := false })
    else glitch.pass (Media.read offset length)
  write offset bytes := fun glitch => glitch.pass (Media.write offset bytes)
  flush := fun glitch => glitch.pass Media.flush

instance [Atomic μ] : Atomic (Glitch μ) where
  contents glitch := Atomic.contents glitch.media
  Faultless glitch := glitch.pending = false ∧ Atomic.Faultless glitch.media
  read_whole {glitch after offset length outcome} result := by
    change (if glitch.pending then _ else glitch.pass _) = (outcome, after) at result
    split at result
    next pending =>
      cases result
      exact ⟨rfl, rfl, fun faultless => ⟨rfl, faultless.2⟩,
        fun holds => Bool.noConfusion (holds.1.1.symm.trans pending)⟩
    next =>
      rcases served : (Media.read offset length : Access μ _).run glitch.media with ⟨answer, media⟩
      rw [pass, served] at result
      cases result
      obtain ⟨size_eq, same, faultless, meaning⟩ := Atomic.read_whole served
      refine ⟨size_eq, same, fun holds => ⟨holds.1, faultless holds.2⟩, ?_⟩
      cases answer with
      | ok bytes => exact meaning
      | error cause => exact fun holds => meaning ⟨holds.1.2, holds.2⟩
  write_whole {glitch after offset bytes outcome} result := by
    change glitch.pass _ = (outcome, after) at result
    rcases served : (Media.write offset bytes : Access μ _).run glitch.media with ⟨answer, media⟩
    rw [pass, served] at result
    cases result
    obtain ⟨size_eq, faultless, meaning⟩ := Atomic.write_whole served
    refine ⟨size_eq, fun holds => ⟨holds.1, faultless holds.2⟩, ?_⟩
    cases answer with
    | ok value => exact meaning
    | error cause => exact ⟨meaning.1, fun holds => meaning.2 ⟨holds.1.2, holds.2⟩⟩
  flush_whole {glitch after outcome} result := by
    change glitch.pass _ = (outcome, after) at result
    rcases served : (Media.flush : Access μ _).run glitch.media with ⟨answer, media⟩
    rw [pass, served] at result
    cases result
    obtain ⟨size_eq, same, faultless, meaning⟩ := Atomic.flush_whole served
    refine ⟨size_eq, same, fun holds => ⟨holds.1, faultless holds.2⟩, ?_⟩
    cases answer with
    | ok value => trivial
    | error cause => exact fun holds => meaning holds.2

end Glitch

end Remap.Media

namespace Remap.Block

open Remap.Media

variable {μ : Type} [Media μ] {media after : μ} {pending : Bool}

namespace Step

theorem issue_glitch (acts : List Act) (media : μ) (pending : Bool) :
    (issue acts : Step (Glitch μ) _).on ⟨media, pending⟩ =
      (((issue acts).on media).1, ⟨((issue acts).on media).2, pending⟩) := by
  induction acts generalizing media with
  | nil => rfl
  | cons act rest induction =>
      have first : (act.perform : Step (Glitch μ) _).on ⟨media, pending⟩ =
          ((act.perform.on media).1, ⟨(act.perform.on media).2, pending⟩) := by
        cases act <;> rfl
      rw [issue_cons, issue_cons, on_bind, on_bind, first]
      rcases act.perform.on media with ⟨outcome, middle⟩
      cases outcome with
      | error cause => rfl
      | ok value => exact induction middle

end Step

theorem Device.create_glitch [Atomic μ] {layout : Layout} {entropy : Entropy} {device : Device}
    (laid : (create layout entropy).on media = (.ok device, after)) (pending : Bool) :
    (create layout entropy).on (⟨media, pending⟩ : Glitch μ) = (.ok device, ⟨after, pending⟩) := by
  obtain ⟨pairs, planned, -, -, -⟩ := create_contents laid
  have same : Media.size (⟨media, pending⟩ : Glitch μ) = Media.size media := rfl
  rw [create_planned planned, Step.on_bind] at laid
  rw [create_planned (same ▸ planned), Step.on_bind, Step.issue_glitch]
  rcases ran : (Step.issue (createActs pairs)).on media with ⟨outcome, last⟩
  rw [ran] at laid
  cases outcome with
  | error cause => cases laid
  | ok value =>
      cases laid
      rfl

namespace Arena

variable [Atomic μ] {arena : Arena} {slot : FlogSlot} {others : List FlogSlot} (lba : UInt32)
  {bytes : List UInt8}

theorem stage_glitch (faultless : Atomic.Faultless media)
    (room : arena.dataOffset slot.freeBlock + bytes.length ≤ Media.size media) :
    ∃ cause after, (arena.stage slot lba bytes).on (⟨media, true⟩ : Glitch μ) =
      (.error cause, after) ∧ Atomic.Faultless after := by
  let acts : List Act := [.write (arena.dataOffset slot.freeBlock) bytes, .flush]
  let rest (entry : MapEntry) : Step (Glitch μ) FlogRecord := do
    let record := slot.nextRecord lba (entry.explicit lba) (.normal slot.freeBlock)
    Step.writeAt (arena.recordOffset slot) record.body
    Step.flush
    return record
  have split : arena.stage slot lba bytes =
      Step.issue acts >>= fun _ => arena.readMapEntry lba >>= rest := by
    simp only [stage, acts, rest, Step.issue_cons, Step.issue_nil, Act.perform, bind_assoc,
      pure_bind]
  have stored : (Step.issue acts : Step μ _).Meets (Media.size media) True
      (Atomic.contents media) _ _ := Step.meets_issue fun write member => by
    cases List.mem_singleton.mp member
    exact room
  have shown := stored media ⟨rfl, rfl, fun _ => faultless⟩
  rw [split, Step.on_bind, Step.issue_glitch]
  rcases ran : (Step.issue acts).on media with ⟨outcome, middle⟩
  rw [ran] at shown
  cases outcome with
  | error cause =>
      obtain ⟨_, _, unsound⟩ := shown
      exact absurd trivial unsound
  | ok value =>
      obtain ⟨_, shown, -⟩ := shown
      exact ⟨_, _, rfl, rfl, shown.faultless trivial⟩

theorem write_glitch (writable : arena.readOnly = false) (flog_eq : arena.flog = slot :: others)
    (faultless : Atomic.Faultless media)
    (room : arena.dataOffset slot.freeBlock + bytes.length ≤ Media.size media) :
    ∃ cause after, arena.write lba bytes (⟨media, true⟩ : Glitch μ) =
      ((.error cause, arena), after) ∧ Atomic.Faultless after ∧
      arena.lands lba bytes (⟨media, true⟩ : Glitch μ) = false := by
  obtain ⟨cause, after, failed, healed⟩ := stage_glitch lba faultless room
  obtain ⟨made, lost⟩ := write_unstaged writable flog_eq failed
  exact ⟨cause, after, made, healed, lost⟩

end Arena

/-- The first write to a fresh device fails, and from then on the session stands for the array that
the device stood for before it. -/
theorem Device.write_glitch [Atomic μ] {layout : Layout} {entropy : Entropy} {device : Device}
    (laid : (create layout entropy).on media = (.ok device, after))
    (faultless : Atomic.Faultless after) (bytes : List UInt8)
    (width : bytes.length = layout.blockSize.toNat) :
    ∃ cause last, device.write 0 bytes (⟨after, true⟩ : Glitch μ) = ((.error cause, device), last) ∧
      Session.Refines layout device.arenas (Media.size media) ⟨last, some device⟩
        ⟨true, initialBytes device.arenas (Atomic.contents media)⟩ := by
  obtain ⟨arena, slot, others, first⟩ := create_first laid
  obtain ⟨founded, contents, shown, size_eq, mounted, -⟩ :=
    Session.holds_created (create_glitch laid true)
  rw [← size_eq] at width
  have located : device.locate 0 bytes.length = .ok (0, 0) := locate_of_place first.placed width
  have room : arena.dataOffset slot.freeBlock + bytes.length ≤ Media.size after := by
    have fits := first.divided.size_le
    obtain ⟨-, upper⟩ := Arena.data_range first.divided first.free
    have inside := first.room
    have size_after : Media.size after = Media.size media := shown.size_eq
    rw [width, ← first.width, size_after]
    omega
  obtain ⟨cause, last, written, healed, lost⟩ :=
    Arena.write_glitch 0 first.writable first.flog_eq faultless room
  have made := write_of_locate located first.found (⟨after, true⟩ : Glitch μ)
  rw [written, set_of_found first.found] at made
  obtain ⟨later, shownLater, -, kept, -⟩ := write_holds 0 bytes founded mounted size_eq shown
  rw [made] at shownLater kept
  rw [lands_of_locate located first.found, lost, if_neg Bool.false_ne_true, Function.update_eq_self] at kept
  refine ⟨cause, last, made, ⟨later, ?_, size_eq, kept, fun _ => ?_⟩, rfl⟩
  · exact ⟨shownLater.size_eq, shownLater.contents_eq, fun _ => healed⟩
  · obtain ⟨pairs, -, rfl, -, -⟩ := create_contents laid
    exact fresh_writable pairs

end Remap.Block
