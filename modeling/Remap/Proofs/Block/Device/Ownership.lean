import Remap.Proofs.Block.Device.Glitch

/-!
# Owners of the data blocks of a device

At any point of a session, whatever accesses failed before, every data block of an arena
that takes writes has one owner, and the flog in memory agrees with the one on the media
about the active records. So a write fills a block that no external block is mapped to.
-/

namespace Remap.Block

open Remap.Media

namespace Arena

/-- The owned data blocks: those that back the external blocks in turn, and the free ones of
the flog slots. -/
def owned (arena : Arena) (contents : Contents) : List Nat :=
  ((List.range arena.info.external.toNat).map fun lba =>
    ((arena.entryAt contents (.ofNat lba)).backingBlock (.ofNat lba)).toNat) ++
      arena.flog.map fun slot => slot.freeBlock.toNat

variable {home arena : Arena} {value : UInt32 → List UInt8} {contents : Contents}

theorem Holds.live (holds : home.Holds arena value contents) (writable : arena.readOnly = false) :
    ∃ target head others spare, arena.Durable value target head others contents ∧
      arena.AllSettled contents target ∧ arena.flog = { head with spare } :: others := by
  obtain ⟨target, head, others, durable, -, readOnly | live⟩ := holds
  · exact absurd writable (by simp [readOnly])
  · obtain ⟨spare, flog_eq⟩ := live.flog_eq
    exact ⟨target, head, others, spare, durable.transfer live.span_eq live.info_eq,
      live.settled.transfer live.span_eq live.info_eq, flog_eq⟩

section Settled

variable {target : UInt32 → UInt32} {free : List UInt32}
  (described : arena.info.Describes arena.span) (settled : arena.AllSettled contents target)

include described settled

theorem backingBlock_eq (ownership : Ownership arena.info target free) {lba : UInt32}
    (inside : lba < arena.info.external) :
    (arena.entryAt contents lba).backingBlock lba = target lba := by
  apply MapEntry.backingBlock_eq (settled lba inside)
  have below := UInt32.lt_iff_toNat_lt.mp (ownership.target_lt lba inside)
  exact Nat.lt_of_lt_of_le below described.internal_le

theorem owned_perm (ownership : Ownership arena.info target (arena.flog.map FlogSlot.freeBlock)) :
    (arena.owned contents).Perm (List.range arena.info.internal.toNat) := by
  have perm := ownership.perm described.internal_eq
  have mapped : ((List.range arena.info.external.toNat).map fun lba =>
      ((arena.entryAt contents (.ofNat lba)).backingBlock (.ofNat lba)).toNat) =
      (List.range arena.info.external.toNat).map fun lba => (target (.ofNat lba)).toNat := by
    apply List.map_congr_left
    intro lba member
    rw [backingBlock_eq described settled ownership (ofNat_lt_of_lt (List.mem_range.mp member))]
  rw [List.map_map] at perm
  rw [owned, mapped]
  exact perm

end Settled

theorem Holds.owned_perm (holds : home.Holds arena value contents)
    (writable : arena.readOnly = false) :
    (arena.owned contents).Perm (List.range arena.info.internal.toNat) := by
  obtain ⟨target, head, others, spare, durable, settled, flog_eq⟩ := holds.live writable
  apply Arena.owned_perm durable.described settled
  rw [flog_eq]
  exact durable.owned

/-- Every slot on the media is decoded, with the active record that is in memory. -/
theorem Holds.flog_agrees (holds : home.Holds arena value contents)
    (writable : arena.readOnly = false) :
    arena.flog.length = arena.info.nfree.toNat ∧
      ∀ index slot, arena.flog[index]? = some slot →
        ∃ stored, FlogSlot.ofBytes
            (contents.load (arena.flogStart + index * flogSlotBytes) flogSlotBytes)
            arena.info.external arena.info.internal = .ok stored ∧ stored.active = slot.active := by
  obtain ⟨target, head, others, spare, durable, settled, flog_eq⟩ := holds.live writable
  constructor
  · rw [flog_eq, ← durable.slots_length]
    rfl
  · intro index slot found
    rw [flog_eq] at found
    cases index with
    | zero =>
        cases found
        exact ⟨head, (durable.flog_stored.get rfl).ofBytes_eq, rfl⟩
    | succ index => exact ⟨slot, (durable.flog_stored.get found).ofBytes_eq, rfl⟩

theorem Holds.free_unmapped (holds : home.Holds arena value contents)
    (writable : arena.readOnly = false) {slot : FlogSlot} (first : arena.flog.head? = some slot)
    {lba : UInt32} (inside : lba < arena.info.external) :
    (arena.entryAt contents lba).backingBlock lba ≠ slot.freeBlock := by
  obtain ⟨target, head, others, spare, durable, settled, flog_eq⟩ := holds.live writable
  rw [flog_eq] at first
  cases first
  rw [backingBlock_eq durable.described settled durable.owned inside]
  exact durable.target_ne_free inside

end Arena

theorem Mounted.holds_of_mem {homes arenas : List Arena} {value : Nat → List UInt8}
    {contents : Contents} (mounted : Mounted homes arenas value contents) :
    ∀ arena ∈ arenas, ∃ (home : Arena) (value : UInt32 → List UInt8),
      home.Holds arena value contents := by
  fun_induction Mounted homes arenas value contents with
  | case1 => simp
  | case2 home homes arena arenas value contents induction =>
      intro other member
      rcases List.mem_cons.mp member with rfl | later
      · exact ⟨home, _, mounted.1⟩
      · exact induction mounted.2 other later
  | case3 => exact mounted.elim

variable {μ : Type} [Media μ] [Atomic μ]

/-- **Block ownership.** At any point of a session, in every mounted arena that takes writes:
each data block is owned by one external block or one flog slot; each slot on the media is
decoded with the active record that is in memory; and the data block that the next write fills
is the one of no external block. -/
theorem blocks_owned {layout : Layout} {entropy : Entropy} {media created : μ} {device : Device}
    (laidOut : (Device.create layout entropy).on media = (.ok device, created))
    (calls : List Call) {session : Session μ}
    (reached : (Session.run layout ⟨created, some device⟩ calls).2 = session)
    {current : Device} (mounted : session.device = some current) {arena : Arena}
    (member : arena ∈ current.arenas) (writable : arena.readOnly = false) :
    (arena.owned (Atomic.contents session.media)).Perm (List.range arena.info.internal.toNat) ∧
      arena.flog.length = arena.info.nfree.toNat ∧
      (∀ index slot, arena.flog[index]? = some slot →
        ∃ stored, FlogSlot.ofBytes ((Atomic.contents session.media).load
            (arena.flogStart + index * flogSlotBytes) flogSlotBytes)
            arena.info.external arena.info.internal = .ok stored ∧ stored.active = slot.active) ∧
      ∀ slot, arena.flog.head? = some slot → ∀ lba, lba < arena.info.external →
        (arena.entryAt (Atomic.contents session.media) lba).backingBlock lba ≠ slot.freeBlock := by
  obtain ⟨founded, holds⟩ := Session.holds_created laidOut
  obtain ⟨contents, shown, held⟩ := Session.run_holds founded holds calls
  rw [reached] at shown held
  rw [mounted] at held
  obtain ⟨home, value, heldArena⟩ := held.2.1.holds_of_mem arena member
  rw [← shown.contents_eq] at heldArena
  obtain ⟨slots, decoded⟩ := heldArena.flog_agrees writable
  exact ⟨heldArena.owned_perm writable, slots, decoded,
    fun slot first lba inside => heldArena.free_unmapped writable first inside⟩

/-- The first write fails after its data was stored; later the device is mounted and written. -/
theorem blocks_owned_small :
    ∃ (device current : Device) (created last : Glitch Simulated) (arena : Arena) (cause : Error),
      (Device.create Device.smallLayout Device.zeroEntropy).on ⟨Simulated.blank minArena, true⟩ =
        (.ok device, created) ∧
      Session.run Device.smallLayout ⟨created, some device⟩
          [.write 0 (List.replicate 512 7), .release, .load, .write 0 (List.replicate 512 9)] =
        ([.done (.error cause), .done (.ok ()), .done (.ok ()), .done (.ok ())],
          ⟨last, some current⟩) ∧
      arena ∈ current.arenas ∧ arena.readOnly = false ∧
      (arena.owned (Atomic.contents last)).Perm (List.range arena.info.internal.toNat) ∧
      arena.flog.length = arena.info.nfree.toNat ∧
      (∀ index slot, arena.flog[index]? = some slot →
        ∃ stored, FlogSlot.ofBytes ((Atomic.contents last).load
            (arena.flogStart + index * flogSlotBytes) flogSlotBytes)
            arena.info.external arena.info.internal = .ok stored ∧ stored.active = slot.active) ∧
      ∀ slot, arena.flog.head? = some slot → ∀ lba, lba < arena.info.external →
        (arena.entryAt (Atomic.contents last) lba).backingBlock lba ≠ slot.freeBlock := by
  obtain ⟨device, made, laid, faultless, -⟩ := Device.small_created
  have created := Device.create_glitch laid true
  obtain ⟨cause, failed, written, refines⟩ :=
    Device.write_glitch laid faultless (List.replicate 512 7) List.length_replicate
  obtain ⟨founded, -⟩ := Session.holds_created created
  obtain ⟨_, _, _, first⟩ := Device.create_first laid
  have filled : 0 < Device.countBlocks device.arenas := (Device.place_lt first.placed).1
  have accepted : Device.refusal? Device.smallLayout.blockSize
      (Device.countBlocks device.arenas) 0 512 = none := by
    rw [Device.refusal?, if_neg (by decide), if_pos filled]
  obtain ⟨replies, refined⟩ := Session.run_refines founded refines
    [.release, .load, .write 0 (List.replicate 512 9)]
  rcases ran : Session.run Device.smallLayout ⟨failed, some device⟩
    [.release, .load, .write 0 (List.replicate 512 9)] with ⟨answers, last, mounted⟩
  simp only [ran, Reference.run, Reference.step, if_true, List.length_replicate, accepted]
    at replies refined
  subst replies
  obtain ⟨current, rfl, count_eq, writable⟩ := refined.current rfl
  obtain ⟨arena, member⟩ : ∃ arena, arena ∈ current.arenas := by
    apply List.exists_mem_of_ne_nil
    intro none
    rw [none] at count_eq
    exact absurd count_eq (Nat.ne_of_lt filled)
  have whole : Session.run Device.smallLayout ⟨⟨made, true⟩, some device⟩
      [.write 0 (List.replicate 512 7), .release, .load, .write 0 (List.replicate 512 9)] =
      ([.done (.error cause), .done (.ok ()), .done (.ok ()), .done (.ok ())],
        ⟨last, some current⟩) := by
    rw [Session.run, Session.step]
    dsimp only
    rw [written, ran]
  exact ⟨device, current, _, last, arena, cause, created, whole, member, writable arena member,
    blocks_owned created _ (congrArg Prod.snd whole) rfl member (writable arena member)⟩

end Remap.Block
