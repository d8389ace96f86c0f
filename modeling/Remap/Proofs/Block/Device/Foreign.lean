import Remap.Proofs.Block.Device.Confined
import Remap.Proofs.Block.Device.Interrupted
import Remap.Proofs.Block.Device.Session

/-!
# Mounting with parameters of another device

Every arena of a device keeps its two info blocks, whatever is written and whichever accesses
fail, and both name the parent and the block size that the device was laid out with. Whoever
mounts it with another parent or block size therefore refuses the first arena from both of its
info blocks: the mount ends after two reads, and the copy, though sound in itself, does not
replace the info block at the start.
-/

namespace Remap

namespace Media

def Event.IsRead : Event → Prop
  | .read _ _ => True
  | .write _ _ | .flush => False

end Media

namespace Block

open Remap.Media

theorem InfoBlock.parent_of_accepted {info : InfoBlock} {expected : Expectation}
    (accepted : info.mismatch? expected = none) : info.parent = expected.parent := by
  by_contra different
  simp [mismatch?, different] at accepted

namespace Arena

variable {before : Contents} {span : Span} {expected : Expectation} {size : Nat}

theorem Durable.not_usable {home : Arena} {value : UInt32 → List UInt8}
    {target : UInt32 → UInt32} {head : FlogSlot} {others : List FlogSlot}
    (durable : home.Durable value target head others before)
    (foreign : home.info.parent ≠ expected.parent ∨
      home.info.externalSize ≠ expected.externalSize) :
    ¬ Usable before home.span expected := by
  have unaccepted : home.info.mismatch? expected ≠ none := fun accepted =>
    foreign.elim (absurd (InfoBlock.parent_of_accepted accepted))
      (absurd (InfoBlock.checked_of_accepted accepted).externalSize_eq)
  have refused {offset : Nat} (stored : before.load offset infoBlockBytes = home.info.toBytes)
      (info : InfoBlock) : infoAt before offset expected ≠ .ok info := by
    intro found
    obtain rfl := infoAt_eq stored durable.described found
    exact unaccepted (infoAt_ok_iff.mp found).2
  rintro (⟨info, found⟩ | ⟨info, found⟩)
  · exact refused durable.info_eq info found
  · exact refused durable.copy_eq info found

variable {μ : Type} [Media μ] [Atomic μ]

theorem meets_unusable (framed : expected.Frames span size)
    (unusable : ¬ Usable before span expected) :
    (load span expected : Step μ _).Meets size True before (fun _ _ => False)
      (fun cause after => cause.kind = .invalidParameter ∧ after = before) := by
  apply (meets_mounted framed).mono
  · rintro _ _ ⟨info, held, chosen, -⟩
    exact unusable (usable_of_inForce chosen)
  · rintro cause after ⟨refused, same⟩
    obtain ⟨primary, backup, -, -, rfl⟩ := inForce_error refused
    exact ⟨rfl, same⟩

theorem confined_unusable (unusable : ¬ Usable before span expected) :
    (load span expected : Step (Probe μ) _).Confined before Event.IsRead fun _ _ => False := by
  rw [load]
  apply Step.confined_bind
  rw [loadInfo]
  apply Step.confined_bind
  apply (confined_infoAt trivial).mono fun _ => id
  rintro primary _ ⟨first, rfl⟩
  cases primary with
  | ok info => exact absurd (.inl ⟨info, first.symm⟩) unusable
  | error cause =>
      apply Step.confined_bind
      apply (confined_infoAt trivial).mono fun _ => id
      rintro backup _ ⟨second, rfl⟩
      cases backup with
      | ok info => exact absurd (.inr ⟨info, second.symm⟩) unusable
      | error other => exact Step.confined_throw

end Arena

namespace Device

variable {layout : Layout} {parent : Uuid} {totalSize size : Nat} {blockSize : UInt32}
  {pair : Span × Expectation} {rest : List (Span × Expectation)} {before : Contents}

theorem survey_error {cause : Error}
    (refused : survey parent totalSize blockSize size = .error cause) :
    cause.kind = .invalidParameter := by
  rw [survey] at refused
  obtain unsized | ⟨internalSize, refused⟩ := bind_error refused
  · exact dataBlockSize_error unsized
  obtain unroomy | ⟨_, refused⟩ := bind_error refused
  · exact checkRoom_error unroomy
  obtain uncut | ⟨spans, refused⟩ := bind_error refused
  · obtain ⟨reason, rfl⟩ := mapError_error uncut
    rfl
  · cases refused

/-- What a foreign survey of a device finds, if it finds anything, is an arena that cannot be
used. -/
theorem not_usable_of_foreign {homes : List Arena} {value : Nat → List UInt8}
    {surveyed : List (Span × Expectation)} (founded : Founded layout size homes)
    (kept : AllKept homes value before)
    (foreign : parent ≠ layout.parent ∨ blockSize ≠ layout.blockSize)
    (found : survey parent layout.totalSize blockSize size = .ok surveyed) :
    ∃ pair rest, surveyed = pair :: rest ∧ ¬ Arena.Usable before pair.1 pair.2 := by
  obtain ⟨own, ownFound, suits⟩ := founded.surveyed
  obtain ⟨internalSize, spans, -, -, planned, rfl⟩ := survey_parts found
  obtain ⟨ownInternal, ownSpans, -, -, ownPlanned, rfl⟩ := survey_parts ownFound
  rw [planned] at ownPlanned
  cases ownPlanned
  cases spans with
  | nil => exact absurd rfl (Span.plan_ne_nil planned)
  | cons span others =>
      refine ⟨_, _, rfl, ?_⟩
      cases suits with
      | cons suits _ =>
          obtain ⟨⟨target, head, slots, durable⟩, -⟩ := kept
          have parent_eq := InfoBlock.parent_of_accepted suits.accepted
          have unusable := @Arena.Durable.not_usable _
            { parent, externalSize := blockSize, internalSize, arenaSize := span.size,
              hasNext := !others.isEmpty } _ _ _ _ _ durable (by
            rw [parent_eq, suits.size_eq]
            exact foreign.imp Ne.symm Ne.symm)
          rw [suits.span_eq] at unusable
          exact unusable

variable {μ : Type} [Media μ] [Atomic μ]

theorem meets_load_unusable
    (found : survey parent totalSize blockSize size = .ok (pair :: rest))
    (unusable : ¬ Arena.Usable before pair.1 pair.2) :
    (load parent totalSize blockSize : Step μ _).Meets size True before (fun _ _ => False)
      (fun cause after => cause.kind = .invalidParameter ∧ after = before) := by
  have framed := (survey_framed found).1 pair List.mem_cons_self
  rw [load]
  apply Step.meets_get
  intro media size_eq
  rw [size_eq, found]
  apply Step.meets_bind
  apply Step.meets_ofExcept
  · rintro _ ⟨⟩
    apply Step.meets_bind
    rw [List.mapM_cons]
    apply Step.meets_bind
    exact (Arena.meets_unusable framed unusable).mono (fun _ _ => False.elim) fun _ _ => id
  · rintro _ ⟨⟩

/-- A mount whose first arena cannot be used makes no access but reads. -/
theorem load_unusable_reads {probe : Probe μ} (recording : probe.recording = true)
    (found : survey parent totalSize blockSize (Media.size probe) = .ok (pair :: rest))
    (unusable : ¬ Arena.Usable (Atomic.contents probe) pair.1 pair.2) :
    probe.Continues Event.IsRead ((load parent totalSize blockSize).on probe).2 := by
  rcases ran : (load parent totalSize blockSize).on probe with ⟨outcome, after⟩
  obtain ⟨-, inside, -⟩ := load_inside recording ran
  rw [found] at inside
  obtain ⟨span, expected⟩ := pair
  dsimp only [MountsInside] at inside
  have confined : (Arena.load span expected : Step (Probe μ) _).Confined _ _ _ :=
    Arena.confined_unusable unusable
  rcases first : (Arena.load span expected).on probe with ⟨head, middle⟩
  rw [first] at inside
  cases head with
  | ok arena => exact (confined.of_ok recording first).elim
  | error cause =>
      obtain ⟨-, rfl⟩ := inside
      exact confined.continues recording first

section Foreign

variable {homes : List Arena} {value : Nat → List UInt8} {media : μ}
  (founded : Founded layout (Media.size media) homes)
  (kept : AllKept homes value (Atomic.contents media))
  (foreign : parent ≠ layout.parent ∨ blockSize ≠ layout.blockSize)

include founded kept foreign

/-- A foreign mount of a held device is refused and keeps the bytes. -/
theorem load_foreign (faultless : Atomic.Faultless media) :
    ∃ cause after, (load parent layout.totalSize blockSize).on media = (.error cause, after) ∧
      cause.kind = .invalidParameter ∧ Media.size after = Media.size media ∧
      Atomic.contents after = Atomic.contents media := by
  cases found : survey parent layout.totalSize blockSize (Media.size media) with
  | error cause => exact ⟨cause, media, load_refused found, survey_error found, rfl, rfl⟩
  | ok surveyed =>
      obtain ⟨pair, rest, rfl, unusable⟩ := not_usable_of_foreign founded kept foreign found
      have refused : (load parent layout.totalSize blockSize : Step μ _).Meets _ _ _ _ _ :=
        meets_load_unusable found unusable
      have result := refused media ⟨rfl, rfl, fun _ => faultless⟩
      rcases ran : (load parent layout.totalSize blockSize).on media with ⟨outcome, after⟩
      rw [ran] at result
      cases outcome with
      | ok device =>
          obtain ⟨_, -, impossible⟩ := result
          exact impossible.elim
      | error cause =>
          obtain ⟨_, shown, kind, rfl⟩ := result
          exact ⟨cause, after, rfl, kind, shown.size_eq, shown.contents_eq⟩

/-- A foreign mount of a held device makes no access but reads. -/
theorem load_foreign_reads {probe : Probe μ} (watches : probe.media = media)
    (recording : probe.recording = true) :
    probe.Continues Event.IsRead ((load parent layout.totalSize blockSize).on probe).2 := by
  subst watches
  cases found : survey parent layout.totalSize blockSize (Media.size probe) with
  | error cause =>
      rw [load_refused found]
      exact .refl recording
  | ok surveyed =>
      obtain ⟨pair, rest, rfl, unusable⟩ := not_usable_of_foreign founded kept foreign found
      exact load_unusable_reads recording found unusable

end Foreign

end Device

variable {μ ν : Type} [Media μ] [Atomic μ] [Media ν] [Atomic ν]

/-- **Foreign mounts.** After any calls, each of whose accesses may have failed, a mount of the
device without faults, but with another parent or another block size than it was laid out with, is
refused for its parameters, and all bytes stay as they are. An observer of the mount sees reads
alone, also if some of them fail: neither info block is written. -/
theorem foreignMount_refused {layout : Layout} {entropy : Entropy} {media mounted : μ}
    {device : Device}
    (created : (Device.create layout entropy).on media = (.ok device, mounted))
    (calls : List Call) {parent : Uuid} {blockSize : UInt32}
    (foreign : parent ≠ layout.parent ∨ blockSize ≠ layout.blockSize) {healed : ν}
    (faultless : Atomic.Faultless healed)
    (size_eq : Media.size healed =
      Media.size (Session.run layout ⟨mounted, some device⟩ calls).2.media)
    (contents_eq : Atomic.contents healed =
      Atomic.contents (Session.run layout ⟨mounted, some device⟩ calls).2.media) :
    (∃ cause after,
      (Device.load parent layout.totalSize blockSize).on healed = (.error cause, after) ∧
      cause.kind = .invalidParameter ∧ Media.size after = Media.size healed ∧
      Atomic.contents after = Atomic.contents healed) ∧
    ∀ probe : Probe ν, probe.media = healed → probe.recording = true →
      probe.Continues Event.IsRead
        ((Device.load parent layout.totalSize blockSize).on probe).2 := by
  obtain ⟨founded, kept⟩ := Session.kept_of_run created calls size_eq contents_eq
  refine ⟨Device.load_foreign founded kept foreign faultless, fun probe watches recording => ?_⟩
  exact Device.load_foreign_reads founded kept foreign watches recording

theorem foreignMount_refused_small :
    ∃ (device : Device) (mounted : Simulated),
      (Device.create Device.smallLayout Device.zeroEntropy).on (Simulated.blank minArena) =
        (.ok device, mounted) ∧
      ∃ healed, healed = (Session.run Device.smallLayout ⟨mounted, some device⟩
          [.write 0 (List.replicate 512 7), .release, .load]).2.media.reboot ∧
        (∃ cause after,
          (Device.load Device.smallLayout.parent Device.smallLayout.totalSize 4096).on healed =
            (.error cause, after) ∧
          cause.kind = .invalidParameter ∧ Media.size after = Media.size healed ∧
          Atomic.contents after = Atomic.contents healed) ∧
        ∀ probe : Probe Simulated, probe.media = healed → probe.recording = true →
          probe.Continues Event.IsRead ((Device.load Device.smallLayout.parent
            Device.smallLayout.totalSize 4096).on probe).2 := by
  obtain ⟨device, mounted, created, -, -⟩ := Device.small_created
  refine ⟨device, mounted, created, _, rfl, ?_⟩
  have healed := Simulated.reboot_shows (Session.run Device.smallLayout ⟨mounted, some device⟩
    [.write 0 (List.replicate 512 7), .release, .load]).2.media
  exact foreignMount_refused created [.write 0 (List.replicate 512 7), .release, .load]
    (.inr (by decide)) (healed.faultless trivial) healed.size_eq healed.contents_eq

end Block

end Remap
