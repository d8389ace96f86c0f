import Remap.Proofs.Block.Arena.Mount

/-!
# Fresh arenas

Where the map is zeroed and the flog slots are the initial ones, each external block has the
data block of its own number, with whatever bytes that has, and the flog slots own the data
blocks behind those. Such an arena is mounted as it was laid out, and nothing is replayed.
-/

namespace Remap.Block

open Remap.Media

namespace Arena

variable {contents other : Contents}

def fresh (span : Span) (info : InfoBlock) : Arena :=
  { span, info, flog := initialFlog info, readOnly := false }

section InitialFlog

variable {span : Span} {info : InfoBlock} (described : info.Describes span)
include described

theorem initial_block {index : Nat} (inside : index < info.nfree.toNat) :
    (info.external + .ofNat index).toNat = info.external.toNat + index := by
  have total := described.internal_eq
  have limit := described.internal_le
  have small : info.external.toNat + index < 2 ^ 32 := by
    simp only [maxInternalBlocks] at limit
    omega
  rw [UInt32.toNat_add, UInt32.toNat_ofNat', Nat.add_mod_mod, Nat.mod_eq_of_lt small]

theorem initial_freeBlock {index : Nat} (inside : index < info.nfree.toNat) :
    (FlogSlot.initial (.ofNat index) info.external).freeBlock = info.external + .ofNat index := by
  apply MapEntry.backingBlock_eq (MapEntry.explicit_normal _ _)
  have total := described.internal_eq
  have limit := described.internal_le
  rw [initial_block described inside]
  omega

theorem initial_sound {index : Nat} (inside : index < info.nfree.toNat) :
    (FlogSlot.initial (.ofNat index) info.external).Sound info.external info.internal := by
  have total := described.internal_eq
  have enough := described.nfree_le
  have number : (UInt32.ofNat index).toNat = index := by
    rw [UInt32.toNat_ofNat']
    exact Nat.mod_eq_of_lt (Nat.lt_trans inside info.nfree.toNat_lt)
  apply FlogSlot.initial_sound _ _ described.internal_le
  · rw [UInt32.lt_iff_toNat_lt, number]
    omega
  · rw [number]
    omega

theorem initial_owned :
    Ownership info id ((initialFlog info).map FlogSlot.freeBlock) := by
  have total := described.internal_eq
  have free_eq : (initialFlog info).map FlogSlot.freeBlock =
      (List.range info.nfree.toNat).map fun index => info.external + .ofNat index := by
    rw [initialFlog, List.map_map]
    apply List.map_congr_left
    intro index member
    exact initial_freeBlock described (List.mem_range.mp member)
  rw [free_eq]
  exact {
    target_lt := by
      intro lba inside
      have below := UInt32.lt_iff_toNat_lt.mp inside
      rw [id, UInt32.lt_iff_toNat_lt]
      omega
    free_lt := by
      intro block member
      obtain ⟨index, inside, rfl⟩ := List.mem_map.mp member
      have within := List.mem_range.mp inside
      rw [UInt32.lt_iff_toNat_lt, initial_block described within]
      omega
    target_inj := fun _ _ _ _ equal => equal
    free_nodup := by
      apply List.Nodup.map_on _ List.nodup_range
      intro left leftMember right rightMember equal
      have numbers := congrArg UInt32.toNat equal
      rw [initial_block described (List.mem_range.mp leftMember),
        initial_block described (List.mem_range.mp rightMember)] at numbers
      omega
    apart := by
      intro lba inside member
      obtain ⟨index, within, equal⟩ := List.mem_map.mp member
      have below := UInt32.lt_iff_toNat_lt.mp inside
      have numbers := congrArg UInt32.toNat equal
      rw [initial_block described (List.mem_range.mp within), id] at numbers
      omega
    count := by simp }

end InitialFlog

/-- What block `lba` of a fresh arena holds: the bytes that were already at its place. -/
def identityBytes (arena : Arena) (contents : Contents) (lba : UInt32) : List UInt8 :=
  contents.load (arena.dataOffset lba) arena.info.externalSize.toNat

theorem length_flatMap_toBytes (slots : List FlogSlot) :
    (slots.flatMap FlogSlot.toBytes).length = slots.length * flogSlotBytes := by
  induction slots with
  | nil => rfl
  | cons slot rest induction =>
      rw [List.flatMap_cons, List.length_append, induction, FlogSlot.length_toBytes,
        List.length_cons, Nat.add_mul, Nat.one_mul, Nat.add_comm]

structure Cleared (span : Span) (info : InfoBlock) (contents : Contents) : Prop where
  map_eq : ∀ position, span.base + info.mapOffset.toNat ≤ position →
    position < span.base + info.dataOffset.toNat → contents position = 0
  flog_eq : contents.load (span.base + info.flogOffset.toNat)
    (info.nfree.toNat * flogSlotBytes) = (initialFlog info).flatMap FlogSlot.toBytes

theorem length_initialFlog (info : InfoBlock) : (initialFlog info).length = info.nfree.toNat := by
  rw [initialFlog, List.length_map, List.length_range]

theorem initial_idle (info : InfoBlock) :
    ∀ slot ∈ initialFlog info, slot.needsRecovery = false := by
  intro slot member
  obtain ⟨index, inside, rfl⟩ := List.mem_map.mp member
  simp [FlogSlot.needsRecovery, FlogSlot.initial]

section Cleared

variable {span : Span} {info : InfoBlock} (described : info.Describes span)
  (cleared : Cleared span info contents)

include described cleared

theorem Cleared.congr
    (agree : contents.AgreeOn other (span.base + infoBlockBytes)
      (span.base + info.dataOffset.toNat)) :
    Cleared span info other := by
  have flog := described.flog_start
  have flogEnd := described.flog_end
  have map := described.map_end
  constructor
  · intro position lower upper
    rw [← agree position (by omega) upper]
    exact cleared.map_eq position lower upper
  · rw [← Contents.load_congr agree (by omega) (by omega)]
    exact cleared.flog_eq

theorem Cleared.stored : FlogSlot.AllStoredAt contents info.external info.internal
    (span.base + info.flogOffset.toNat) (initialFlog info) := by
  apply FlogSlot.allStoredAt_of_load
  · intro slot member
    obtain ⟨index, inside, rfl⟩ := List.mem_map.mp member
    exact initial_sound described (List.mem_range.mp inside)
  · rw [length_initialFlog]
    exact cleared.flog_eq

theorem Cleared.settled : (fresh span info).AllSettled contents id := by
  intro lba inside
  obtain ⟨lower, upper⟩ := @entry_range (fresh span info) described.divides lba inside
  have mapStart_eq : (fresh span info).mapStart = span.base + info.mapOffset.toNat := rfl
  have dataStart_eq : (fresh span info).dataStart = span.base + info.dataOffset.toNat := rfl
  have zero : (fresh span info).entryAt contents lba = .zero := by
    rw [entryAt, Contents.word_eq_zero]
    · rfl
    · intro position above below
      simp only [mapEntryBytes] at upper
      exact cleared.map_eq position (by omega) (by omega)
  rw [Settled, zero, MapEntry.explicit_zero, id]

theorem Cleared.mounted_eq : mounted span info contents = fresh span info := by
  have unmarked : ¬ info.hasErrorFlag = true := by
    rw [InfoBlock.hasErrorFlag, described.flags_eq]
    decide
  have decoded := (cleared.stored described).decode_eq
  rw [length_initialFlog] at decoded
  rw [mounted, if_neg unmarked, decodeFlog, decoded]
  rfl

/-- A cleared arena is held, whatever bytes its blocks have. -/
theorem Cleared.durable {head : FlogSlot} {others : List FlogSlot}
    (info_eq : contents.load span.base infoBlockBytes = info.toBytes)
    (copy_eq : contents.load (span.stop - infoBlockBytes) infoBlockBytes = info.toBytes)
    (flog_eq : initialFlog info = head :: others) :
    (fresh span info).Durable ((fresh span info).identityBytes contents) id head others
      contents where
  described := described
  info_eq := info_eq
  copy_eq := copy_eq
  flog_stored := flog_eq ▸ cleared.stored described
  owned := flog_eq ▸ initial_owned described
  spelled := by
    intro slot member
    rw [← flog_eq] at member
    obtain ⟨index, inside, rfl⟩ := List.mem_map.mp member
    rw [initial_freeBlock described (List.mem_range.mp inside)]
    rfl
  idle slot member := initial_idle info slot (flog_eq ▸ List.mem_cons_of_mem head member)
  named lba inside := .inl (cleared.settled described lba inside)
  value_eq _ _ := rfl

end Cleared

theorem fresh_unsettled (span : Span) (info : InfoBlock) : (fresh span info).unsettled = [] := by
  rw [unsettled, List.filter_eq_nil_iff]
  intro slot member
  rw [initial_idle info slot member]
  exact Bool.false_ne_true

end Arena

end Remap.Block
