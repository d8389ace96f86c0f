import Remap.Proofs.Block.Device.Powered

/-!
# Loss of power

Whatever accesses fail in a session, also those of a mount, the device can be mounted again
once the faults are gone, and then each block is the one of the last write whose sequence
number was stored. A write that fails is therefore seen whole or not at all.
-/

namespace Remap.Block

open Remap.Media

variable {μ ν : Type} [Media μ] [Atomic μ] [Media ν] [Atomic ν]

/-- Mounting a held device without faults succeeds, and every block can be read. -/
theorem Device.load_faultless {layout : Layout} {homes : List Arena} {value : Nat → List UInt8}
    {media : ν} (founded : Founded layout (Media.size media) homes)
    (kept : AllKept homes value (Atomic.contents media)) (faultless : Atomic.Faultless media) :
    ∃ device after,
      (Device.load layout.parent layout.totalSize layout.blockSize).on media = (.ok device, after) ∧
      (∀ arena ∈ device.arenas, arena.readOnly = false) ∧
      device.blockCount = countBlocks homes ∧
      ∀ lba, lba < device.blockCount →
        ((device.read lba layout.blockSize.toNat).on after).1 = .ok (value lba) := by
  have load : (Device.load layout.parent layout.totalSize layout.blockSize : Step ν _).Meets
      (Media.size media) True (Atomic.contents media) _ _ := Device.meets_load founded kept
  have result := load media ⟨rfl, rfl, fun _ => faultless⟩
  rcases ran : (Device.load layout.parent layout.totalSize layout.blockSize).on media with
    ⟨outcome, after⟩
  rw [ran] at result
  cases outcome with
  | error cause =>
      obtain ⟨_, _, unsound, _⟩ := result
      exact absurd trivial unsound
  | ok device =>
      obtain ⟨contents, shown, size_eq, mounted, writable⟩ := result
      refine ⟨device, after, rfl, writable trivial, Device.blockCount_eq mounted, ?_⟩
      intro lba inside
      have reading : (device.read lba layout.blockSize.toNat : Step ν _).Meets (Media.size media)
          True contents _ _ := Device.meets_read founded mounted size_eq
      have read := reading after shown
      rcases readRan : (device.read lba layout.blockSize.toNat).on after with ⟨outcome, last⟩
      rw [readRan] at read
      cases outcome with
      | error cause =>
          obtain ⟨_, _, _, refused⟩ := read
          have reason := refused trivial (writable trivial)
          rw [Device.refusal?, if_neg (by rw [size_eq]; exact not_not.mpr rfl),
            if_pos inside] at reason
          cases reason
      | ok bytes =>
          obtain ⟨_, _, _, found⟩ := read
          rw [(found trivial (writable trivial)).2]

/-- **Power-fail atomicity.** After any calls, each of whose accesses may have failed, the
device is mounted from the same contents without faults: no arena is read-only, and every block
is as the writes whose sequence numbers were stored left it, applied in order to the bytes that
the blocks started out with. -/
theorem powerLoss_atomic {layout : Layout} {entropy : Entropy} {media mounted : μ}
    {device : Device}
    (created : (Device.create layout entropy).on media = (.ok device, mounted))
    (calls : List Call) {healed : ν} (faultless : Atomic.Faultless healed)
    (size_eq : Media.size healed =
      Media.size (Session.run layout ⟨mounted, some device⟩ calls).2.media)
    (contents_eq : Atomic.contents healed =
      Atomic.contents (Session.run layout ⟨mounted, some device⟩ calls).2.media) :
    ∃ reloaded after,
      (Device.load layout.parent layout.totalSize layout.blockSize).on healed =
        (.ok reloaded, after) ∧
      (∀ arena ∈ reloaded.arenas, arena.readOnly = false) ∧
      reloaded.blockCount = device.blockCount ∧
      ∀ lba, lba < device.blockCount →
        ((reloaded.read lba layout.blockSize.toNat).on after).1 =
          .ok (overwritten (Device.initialBytes device.arenas (Atomic.contents media))
            (Session.landed layout ⟨mounted, some device⟩ calls) lba) := by
  obtain ⟨founded, kept⟩ := Session.kept_of_run created calls size_eq contents_eq
  obtain ⟨reloaded, after, loaded, writable, count_eq, reads⟩ :=
    Device.load_faultless founded kept faultless
  refine ⟨reloaded, after, loaded, writable, count_eq, fun lba inside => reads lba ?_⟩
  rw [count_eq]
  exact inside

/-- The power fails between the record of a write and its sequence number. -/
theorem powerLoss_atomic_small :
    ∃ (start mounted after : Journal Simulated) (device later : Device) (cause : Error),
      (Device.create Device.smallLayout Device.zeroEntropy).on start = (.ok device, mounted) ∧
      device.write 0 (List.replicate 512 7) mounted = ((.error cause, later), after) ∧
      Session.landed Device.smallLayout ⟨mounted, some device⟩
        [.write 0 (List.replicate 512 7), .release, .load] = [] ∧
      ∃ (reloaded : Device) (last : Simulated),
        (Device.load Device.smallLayout.parent Device.smallLayout.totalSize
          Device.smallLayout.blockSize).on (Session.run Device.smallLayout ⟨mounted, some device⟩
            [.write 0 (List.replicate 512 7), .release, .load]).2.media.media.reboot =
          (.ok reloaded, last) ∧
        (∀ arena ∈ reloaded.arenas, arena.readOnly = false) ∧
        reloaded.blockCount = device.blockCount ∧
        ∀ lba, lba < device.blockCount →
          ((reloaded.read lba Device.smallLayout.blockSize.toNat).on last).1 =
            .ok (overwritten (Device.initialBytes device.arenas (Atomic.contents start))
              (Session.landed Device.smallLayout ⟨mounted, some device⟩
                [.write 0 (List.replicate 512 7), .release, .load]) lba) := by
  obtain ⟨info, planned⟩ := Device.small_planned
  obtain ⟨start, mounted, device, created, size_eq, lasts⟩ := Device.create_powered planned 2
  obtain ⟨arena, slot, others, first⟩ := Device.create_first created
  have width : (List.replicate 512 (7 : UInt8)).length = device.externalSize.toNat := by
    rw [Device.create_blockSize created]
    exact List.length_replicate
  rw [size_eq] at first
  obtain ⟨cause, left, after, cut, -, lost⟩ := Device.write_cut first width lasts
  refine ⟨start, mounted, after, device, _, cause, created, cut, ?_, ?_⟩
  · simp only [Session.landed, Session.landed?, lost]
    rfl
  · have healed := Simulated.reboot_shows (Session.run Device.smallLayout ⟨mounted, some device⟩
      [.write 0 (List.replicate 512 7), .release, .load]).2.media.media
    exact powerLoss_atomic created [.write 0 (List.replicate 512 7), .release, .load]
      (healed.faultless trivial) healed.size_eq healed.contents_eq

end Remap.Block
