import Remap.Proofs.Block.Device.PowerLoss
import Remap.Proofs.Block.Device.Steady
import Remap.Proofs.Media.Replica

/-!
# What the blocks of a device read as

The contents of the media and the places of the arenas decide what a block reads as while no
access fails. So a change in the span of one arena is seen through no block of another.
-/

namespace Remap.Block

open Remap.Media

namespace Device

variable {μ : Type} [Media μ] [Atomic μ]

def readsAs (device : Device) (media : μ) (lba : Nat) : Except Error (List UInt8) :=
  ((device.read lba device.externalSize.toNat).on (Replica.of media)).1

structure Fits (device : Device) (layout : Layout) (size : Nat) : Prop where
  parted : device.Partitioned layout.totalSize layout.blockSize
  room : layout.totalSize ≤ size
  size_eq : device.externalSize = layout.blockSize

variable {device : Device} {layout : Layout} {homes : List Arena} {value : Nat → List UInt8}
  {media after : μ} {lba index length : Nat} {block : UInt32} {arena later : Arena}

theorem Partitioned.apart {totalSize : Nat} {blockSize : UInt32} {target : Nat} {other : Arena}
    (parted : device.Partitioned totalSize blockSize) (found : device.arenas[index]? = some arena)
    (otherFound : device.arenas[target]? = some other) (different : index ≠ target) :
    other.span.stop ≤ arena.span.base ∨ arena.span.stop ≤ other.span.base := by
  obtain ⟨inside, rfl⟩ := List.getElem?_eq_some_iff.mp found
  obtain ⟨otherInside, rfl⟩ := List.getElem?_eq_some_iff.mp otherFound
  have ordered := List.pairwise_iff_getElem.mp parted.ordered
  rcases Nat.lt_or_gt_of_ne different with before | behind
  · exact .inr (ordered index target inside otherInside before)
  · exact .inl (ordered target index otherInside inside behind)

theorem readsAs_beyond (beyond : place? device.arenas lba = none) :
    device.readsAs media lba = .error (.beyondEnd lba device.blockCount) := by
  rw [readsAs, read, locate, if_neg (not_not.mpr rfl), beyond]
  rfl

theorem readsAs_cases {done : List UInt8 → Contents → Prop} {failed : Error → Contents → Prop}
    (placed : place? device.arenas lba = some (index, block))
    (found : device.arenas[index]? = some arena)
    (reading : (arena.read block device.externalSize.toNat : Step Replica _).Meets
      (Media.size media) True (Atomic.contents media) done failed) :
    (∃ bytes after, device.readsAs media lba = .ok bytes ∧ done bytes after) ∨
      ∃ cause after, device.readsAs media lba = .error cause ∧ failed cause after := by
  have made := reading (Replica.of media) (Replica.of_shows (Shows.self media))
  rw [readsAs, read_of_locate (locate_of_place placed rfl) found]
  rcases ran : (arena.read block device.externalSize.toNat).on (Replica.of media) with
    ⟨outcome, last⟩
  rw [ran] at made
  cases outcome with
  | ok bytes =>
      obtain ⟨after, -, read⟩ := made
      exact .inl ⟨bytes, after, rfl, read⟩
  | error cause =>
      obtain ⟨after, -, refused⟩ := made
      exact .inr ⟨cause, after, rfl, refused⟩

theorem Fits.readsAs_eq (fits : device.Fits layout (Media.size media))
    (placed : place? device.arenas lba = some (index, block))
    (found : device.arenas[index]? = some arena) :
    device.readsAs media lba = arena.answer (Atomic.contents media) block := by
  have member := List.mem_of_getElem? found
  have room : arena.span.stop ≤ Media.size media :=
    Nat.le_trans (fits.parted.stop_le member) fits.room
  have reading : (arena.read block arena.info.externalSize.toNat : Step Replica _).Meets
      (Media.size media) True (Atomic.contents media) _ _ :=
    Arena.meets_answer (fits.parted.divided arena member) room (block_lt_external placed found)
  rw [fits.parted.size_eq arena member, ← fits.size_eq] at reading
  rcases readsAs_cases placed found reading with
    ⟨bytes, after, read, -, answered⟩ | ⟨cause, after, read, -, answered⟩
  · exact read.trans answered.symm
  · exact read.trans (answered trivial).symm

theorem Fits.set {size : Nat} (fits : device.Fits layout size)
    (found : device.arenas[index]? = some arena) (span_eq : later.span = arena.span)
    (info_eq : later.info = arena.info) :
    { device with arenas := device.arenas.set index later }.Fits layout size :=
  ⟨fits.parted.set found span_eq info_eq, fits.room, fits.size_eq⟩

section Change

variable (fits : device.Fits layout (Media.size media))
  (size_eq : Media.size after = Media.size media)
  (found : device.arenas[index]? = some arena) (span_eq : later.span = arena.span)
  (info_eq : later.info = arena.info)

include fits size_eq found span_eq info_eq

theorem Fits.readsAs_own (placed : place? device.arenas lba = some (index, block)) :
    { device with arenas := device.arenas.set index later }.readsAs after lba =
      later.answer (Atomic.contents after) block := by
  have here := getElem?_set_of_found found later
  obtain ⟨-, places⟩ := place_set found info_eq
  have fitsAfter := fits.set found span_eq info_eq
  rw [← size_eq] at fitsAfter
  exact fitsAfter.readsAs_eq ((places lba).trans placed) here

/-- The blocks of the others read as before if the bytes changed in its span alone. -/
theorem Fits.readsAs_set
    (outside : (Atomic.contents after).AgreeOutside (Atomic.contents media) arena.span.base
      arena.span.stop)
    (own : ∀ block, place? device.arenas lba = some (index, block) →
      later.answer (Atomic.contents after) block = arena.answer (Atomic.contents media) block) :
    { device with arenas := device.arenas.set index later }.readsAs after lba =
      device.readsAs media lba := by
  obtain ⟨count, places⟩ := place_set found info_eq
  cases placed : place? device.arenas lba with
  | none =>
      rw [readsAs_beyond placed, readsAs_beyond ((places lba).trans placed), blockCount, blockCount,
        count]
  | some place =>
      obtain ⟨target, block⟩ := place
      obtain ⟨-, other, otherFound⟩ := place_lt placed
      by_cases same : index = target
      · subst same
        rw [fits.readsAs_own size_eq found span_eq info_eq placed, fits.readsAs_eq placed found]
        exact own block placed
      · have there : (device.arenas.set index later)[target]? = some other := by
          rw [List.getElem?_set_ne same, otherFound]
        have kept := outside.agreeOn (fits.parted.apart found otherFound same)
        have divided := fits.parted.divided other (List.mem_of_getElem? otherFound)
        have order := Arena.region_order divided
        have fitsAfter := fits.set found span_eq info_eq
        rw [← size_eq] at fitsAfter
        rw [fitsAfter.readsAs_eq ((places lba).trans placed) there,
          fits.readsAs_eq placed otherFound]
        exact Arena.answer_congr divided (kept.mono (by omega) (Nat.le_refl _))
          (block_lt_external placed otherFound)

end Change

end Device

end Remap.Block
