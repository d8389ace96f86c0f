import Remap.Media.Backing
import Remap.Media.Image.Lemmas
import Remap.Media.Probe
import Remap.Proofs.Media.Contents

/-!
# Media with whole accesses

On an atomic media each access happens whole or fails and leaves the bytes as they were.
Any access may fail unless the media is faultless; a faultless media serves every access
inside its bounds and stays faultless. Simulated media, backing files and probes are
atomic.
-/

namespace Remap.Media

/-- Accesses happen whole or fail without an effect on the bytes. -/
class Atomic (μ : Type) [Media μ] where
  contents : μ → Contents
  Faultless : μ → Prop
  read_whole {media after : μ} {offset length : Nat} {outcome : Except Error (List UInt8)} :
    (Media.read offset length : Access μ _).run media = (outcome, after) →
      Media.size after = Media.size media ∧ contents after = contents media ∧
        (Faultless media → Faultless after) ∧
        match outcome with
        | .ok bytes =>
            offset + length ≤ Media.size media ∧ bytes = (contents media).load offset length
        | .error _ => ¬ (Faultless media ∧ offset + length ≤ Media.size media)
  write_whole {media after : μ} {offset : Nat} {bytes : List UInt8}
      {outcome : Except Error Unit} :
    (Media.write offset bytes : Access μ _).run media = (outcome, after) →
      Media.size after = Media.size media ∧ (Faultless media → Faultless after) ∧
        match outcome with
        | .ok () =>
            offset + bytes.length ≤ Media.size media ∧
              contents after = (contents media).store offset bytes
        | .error _ =>
            contents after = contents media ∧
              ¬ (Faultless media ∧ offset + bytes.length ≤ Media.size media)
  flush_whole {media after : μ} {outcome : Except Error Unit} :
    (Media.flush : Access μ _).run media = (outcome, after) →
      Media.size after = Media.size media ∧ contents after = contents media ∧
        (Faultless media → Faultless after) ∧
        match outcome with
        | .ok () => True
        | .error _ => ¬ Faultless media

structure Shows {μ : Type} [Media μ] [Atomic μ] (media : μ) (size : Nat) (sound : Prop)
    (contents : Contents) : Prop where
  size_eq : Media.size media = size
  contents_eq : Atomic.contents media = contents
  faultless : sound → Atomic.Faultless media

theorem Shows.self {μ : Type} [Media μ] [Atomic μ] (media : μ) :
    Shows media (Media.size media) (Atomic.Faultless media) (Atomic.contents media) :=
  ⟨rfl, rfl, id⟩

theorem Shows.unchanged {μ : Type} [Media μ] [Atomic μ] {media after : μ} {size : Nat}
    {sound : Prop} {contents : Contents} (shown : Shows media size sound contents)
    (size_eq : Media.size after = Media.size media)
    (same : Atomic.contents after = Atomic.contents media)
    (faultless : Atomic.Faultless media → Atomic.Faultless after) :
    Shows after size sound contents :=
  ⟨size_eq.trans shown.size_eq, same.trans shown.contents_eq,
    fun holds => faultless (shown.faultless holds)⟩

theorem Image.byteAt_store_eq (image : Image) (offset : Nat) (bytes : List UInt8) :
    (image.store offset bytes).byteAt = Contents.store image.byteAt offset bytes := by
  funext position
  exact image.byteAt_store offset bytes position

namespace Simulated

def IsFaultless (media : Simulated) : Prop :=
  media.plan = {} ∧ media.poweredOff = false

theorem IsFaultless.writeFault_eq_none {media : Simulated} (faultless : media.IsFaultless) :
    media.writeFault = none := by
  obtain ⟨plan, power⟩ := faultless
  simp [writeFault, outOfPower, plan, power]

instance : Atomic Simulated where
  contents media := media.image.byteAt
  Faultless := IsFaultless
  read_whole {media after offset length outcome} result := by
    change media.read offset length = (outcome, after) at result
    unfold Simulated.read at result
    split at result
    next outside =>
      cases result
      refine ⟨rfl, rfl, id, fun holds => ?_⟩
      simp [Image.holds, show offset + length ≤ media.image.size from holds.2] at outside
    next inside =>
      split at result
      next fails =>
        cases result
        refine ⟨rfl, rfl, id, fun holds => ?_⟩
        simp [holds.1.1] at fails
      next =>
        cases result
        refine ⟨rfl, rfl, id, ?_, rfl⟩
        simpa [Image.holds, Media.size] using inside
  write_whole {media after offset bytes outcome} result := by
    change media.write offset bytes = (outcome, after) at result
    unfold Simulated.write at result
    split at result
    next outside =>
      cases result
      refine ⟨rfl, id, rfl, fun holds => ?_⟩
      simp [Image.holds, show offset + bytes.length ≤ media.image.size from holds.2] at outside
    next inside =>
      split at result
      next fault planned =>
        cases result
        have faulty : ¬ media.IsFaultless := fun faultless => by
          simp [faultless.writeFault_eq_none] at planned
        exact ⟨rfl, fun faultless => absurd faultless faulty, rfl, fun holds => faulty holds.1⟩
      next =>
        cases result
        refine ⟨Image.size_store _ _ _, id, ?_, Image.byteAt_store_eq _ _ _⟩
        simpa [Image.holds, Media.size] using inside
  flush_whole {media after outcome} result := by
    change media.flush = (outcome, after) at result
    cases result
    exact ⟨rfl, rfl, id, trivial⟩

theorem reboot_shows (media : Simulated) :
    Shows media.reboot (Media.size media) True (Atomic.contents media) :=
  ⟨rfl, rfl, fun _ => ⟨rfl, rfl⟩⟩

end Simulated

namespace Store

def IsFaultless : Store → Prop
  | memory media _ => media.IsFaultless
  | file _ => True

instance : Atomic Store where
  contents store := store.image.byteAt
  Faultless := IsFaultless
  read_whole {store after offset length outcome} result := by
    change store.read offset length = (outcome, after) at result
    cases store with
    | memory media leftover =>
        cases result
        exact @Atomic.read_whole Simulated _ _ media _ offset length _ rfl
    | file image =>
        simp only [Store.read] at result
        split at result
        next inside =>
          cases result
          exact ⟨rfl, rfl, id, by simpa [Image.holds, Media.size, Store.image] using inside, rfl⟩
        next outside =>
          cases result
          refine ⟨rfl, rfl, id, fun holds => outside ?_⟩
          simpa [Image.holds, Media.size, Store.image] using holds.2
  write_whole {store after offset bytes outcome} result := by
    change store.write offset bytes = (outcome, after) at result
    cases store with
    | memory media leftover =>
        cases result
        exact @Atomic.write_whole Simulated _ _ media _ offset bytes _ rfl
    | file image =>
        simp only [Store.write] at result
        split at result
        next inside =>
          cases result
          refine ⟨Image.size_store _ _ _, fun _ => trivial, ?_, Image.byteAt_store_eq _ _ _⟩
          simpa [Image.holds, Media.size, Store.image] using inside
        next outside =>
          cases result
          refine ⟨rfl, id, rfl, fun holds => outside ?_⟩
          simpa [Image.holds, Media.size, Store.image] using holds.2
  flush_whole {store after outcome} result := by
    change store.flush = (outcome, after) at result
    cases store with
    | memory media leftover =>
        cases result
        exact @Atomic.flush_whole Simulated _ _ media _ _ rfl
    | file image =>
        cases result
        exact ⟨rfl, rfl, id, trivial⟩

end Store

namespace Probe

variable {μ : Type}

@[simp] theorem media_note (probe : Probe μ) (event : Event) :
    (probe.note event).media = probe.media := by
  rw [note]
  split <;> rfl

@[simp] theorem script_note (probe : Probe μ) (event : Event) :
    (probe.note event).script = probe.script := by
  rw [note]
  split <;> rfl

variable [Media μ] [Atomic μ]

def IsFaultless (probe : Probe μ) : Prop :=
  probe.script = {} ∧ Atomic.Faultless probe.media

instance : Atomic (Probe μ) where
  contents probe := Atomic.contents probe.media
  Faultless := IsFaultless
  read_whole {probe after offset length outcome} result := by
    change probe.read offset length = (outcome, after) at result
    simp only [Probe.read, script_note, pass, media_note] at result
    split at result
    next scripted =>
      cases result
      refine ⟨by simp [Media.size], by simp, by simp [IsFaultless], fun holds => ?_⟩
      simp [holds.1.1] at scripted
    next =>
      rcases served : (Media.read offset length : Access μ _).run probe.media with ⟨answer, media⟩
      rw [served] at result
      cases result
      obtain ⟨size_eq, same, faultless, meaning⟩ := Atomic.read_whole served
      refine ⟨size_eq, same, fun holds => ⟨by simpa using holds.1, faultless holds.2⟩, ?_⟩
      cases outcome with
      | ok bytes => exact meaning
      | error cause => exact fun holds => meaning ⟨holds.1.2, holds.2⟩
  write_whole {probe after offset bytes outcome} result := by
    change probe.write offset bytes = (outcome, after) at result
    simp only [Probe.write, script_note, pass, media_note] at result
    split at result
    next scripted =>
      cases result
      refine ⟨by simp [Media.size], by simp [IsFaultless], by simp, fun holds => ?_⟩
      simp [holds.1.1] at scripted
    next =>
      rcases served : (Media.write offset bytes : Access μ _).run probe.media with ⟨answer, media⟩
      rw [served] at result
      cases result
      obtain ⟨size_eq, faultless, meaning⟩ := Atomic.write_whole served
      refine ⟨size_eq, fun holds => ⟨by simpa using holds.1, faultless holds.2⟩, ?_⟩
      cases outcome with
      | ok value => exact meaning
      | error cause => exact ⟨meaning.1, fun holds => meaning.2 ⟨holds.1.2, holds.2⟩⟩
  flush_whole {probe after outcome} result := by
    change probe.flush = (outcome, after) at result
    simp only [Probe.flush, script_note, pass, media_note] at result
    split at result
    next budget =>
      have faulty : ¬ probe.IsFaultless := fun faultless => by simp [faultless.1] at budget
      cases result
      exact ⟨by simp [Media.size], by simp, fun faultless => absurd faultless faulty, faulty⟩
    next left budget =>
      have faulty : ¬ probe.IsFaultless := fun faultless => by simp [faultless.1] at budget
      rcases served : (Media.flush : Access μ _).run probe.media with ⟨answer, media⟩
      rw [served] at result
      cases result
      obtain ⟨size_eq, same, _, _⟩ := Atomic.flush_whole served
      refine ⟨size_eq, same, fun faultless => absurd faultless faulty, ?_⟩
      cases outcome with
      | ok value => trivial
      | error cause => exact faulty
    next budget =>
      rcases served : (Media.flush : Access μ _).run probe.media with ⟨answer, media⟩
      rw [served] at result
      cases result
      obtain ⟨size_eq, same, faultless, meaning⟩ := Atomic.flush_whole served
      refine ⟨size_eq, same, fun holds => ⟨by simpa using holds.1, faultless holds.2⟩, ?_⟩
      cases outcome with
      | ok value => trivial
      | error cause => exact fun holds => meaning holds.2

end Probe

end Remap.Media
