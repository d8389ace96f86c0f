import Remap.Proofs.Block.Arena.Regions

/-!
# Planned info blocks

An info block made from a computed geometry describes its arena: no count or offset
overflows its field. The reader of the arena, who knows the same layout, accepts it.
-/

namespace Remap.Block.InfoBlock

variable {span : Span} {geometry : Geometry} {uuid parent : Uuid} {nfree blockSize : UInt32}
  {internalSize : UInt32}

theorem toNat_ofNat_word {value : Nat} (small : value < 0x100000000) :
    (UInt32.ofNat value).toNat = value := by
  rw [UInt32.toNat_ofNat', Nat.mod_eq_of_lt small]

theorem toNat_ofNat_long {value : Nat} (small : value < 0x10000000000000000) :
    (UInt64.ofNat value).toNat = value := by
  rw [UInt64.toNat_ofNat', Nat.mod_eq_of_lt small]

def planned (uuid parent : Uuid) (blockSize internalSize : UInt32) (geometry : Geometry)
    (span : Span) (hasNext : Bool) : InfoBlock :=
  ofGeometry uuid parent blockSize internalSize geometry (if hasNext then span.size else 0)

structure Carries (info : InfoBlock) (geometry : Geometry) : Prop where
  external : info.external.toNat = geometry.external
  internal : info.internal.toNat = geometry.internal
  nfree : info.nfree.toNat = geometry.nfree
  data : info.dataOffset.toNat = geometry.dataOffset
  map : info.mapOffset.toNat = geometry.mapOffset
  flog : info.flogOffset.toNat = geometry.flogOffset
  info : info.infoOffset.toNat = geometry.infoOffset

section Planned

variable {hasNext : Bool}
  (sound : geometry.Sound span.size nfree.toNat internalSize.toNat)
  (size_le : span.size ≤ maxArena)
include sound size_le

theorem planned_carries :
    (planned uuid parent blockSize internalSize geometry span hasNext).Carries geometry := by
  have internal := sound.internal_eq
  have limit := sound.internal_le
  have flogEnd := sound.flog_end
  have mapEnd := sound.map_end
  have dataEnd := sound.data_end
  have infoOffset := sound.info_eq
  have slots := sound.nfree_eq
  simp only [maxInternalBlocks] at limit
  simp only [maxArena] at size_le
  exact {
    external := toNat_ofNat_word (by omega)
    internal := toNat_ofNat_word (by omega)
    nfree := toNat_ofNat_word (by omega)
    data := toNat_ofNat_long (by omega)
    map := toNat_ofNat_long (by omega)
    flog := toNat_ofNat_long (by omega)
    info := toNat_ofNat_long (by omega) }

theorem planned_describes (base_aligned : span.base % regionAlignment = 0)
    (large : minArena ≤ span.size) (fits : blockSize.toNat ≤ internalSize.toNat) :
    (planned uuid parent blockSize internalSize geometry span hasNext).Describes span := by
  have carries : (planned uuid parent blockSize internalSize geometry span hasNext).Carries
      geometry := planned_carries sound size_le
  have mapEnd := sound.map_end
  have slots := sound.nfree_eq
  simp only [minArena] at large
  exact {
    major_eq := rfl
    minor_eq := rfl
    infoSize_eq := by
      change (UInt32.ofNat infoBlockBytes).toNat = infoBlockBytes
      decide
    flags_eq := rfl
    nfree_pos := by
      rw [carries.nfree, slots]
      exact sound.nfree_pos
    nfree_le := by
      rw [carries.nfree, carries.external, slots]
      exact sound.nfree_le
    internal_eq := by
      rw [carries.internal, carries.external, carries.nfree, slots]
      exact sound.internal_eq
    internal_le := by
      rw [carries.internal]
      exact sound.internal_le
    size_le := fits
    base_aligned
    map_aligned := by
      rw [carries.map]
      exact sound.map_aligned
    data_aligned := by
      rw [carries.data]
      exact sound.data_aligned
    flog_start := by
      rw [carries.flog]
      exact Nat.le_of_eq sound.flog_eq.symm
    flog_end := by
      rw [carries.flog, carries.nfree, carries.map, slots]
      exact sound.flog_end
    map_end := by
      rw [carries.map, carries.external, carries.data]
      rw [Nat.add_mul] at mapEnd
      omega
    data_end := by
      rw [carries.data, carries.internal, carries.info]
      exact sound.data_end
    info_end := by
      rw [carries.info, sound.info_eq]
      simp only [infoBlockBytes]
      omega }

theorem planned_ordered (size_aligned : span.size % regionAlignment = 0)
    (large : minArena ≤ span.size) (sized : 0 < internalSize.toNat) :
    (planned uuid parent blockSize internalSize geometry span hasNext).regionsOrdered = true := by
  have carries : (planned uuid parent blockSize internalSize geometry span hasNext).Carries
      geometry := planned_carries sound size_le
  have flogEnd := sound.flog_end
  have mapEnd := sound.map_end
  have dataEnd := sound.data_end
  have nfree_pos := sound.nfree_pos
  have blocks : 0 < geometry.internal * internalSize.toNat := by
    have internal := sound.internal_eq
    exact Nat.mul_pos (by omega) sized
  have map := sound.map_aligned
  have data := sound.data_aligned
  have flog := sound.flog_eq
  have info := sound.info_eq
  simp only [minArena] at large
  simp only [regionsOrdered, UInt64.lt_iff_toNat_lt, carries.flog, carries.map, carries.data,
    carries.info, List.all_cons, List.all_nil, Bool.and_true, Bool.and_eq_true, decide_eq_true_eq,
    beq_iff_eq]
  simp only [infoBlockBytes, regionAlignment, flogSlotBytes, mapEntryBytes] at *
  omega

theorem planned_accepted (size_aligned : span.size % regionAlignment = 0)
    (large : minArena ≤ span.size) (positive : 0 < blockSize.toNat)
    (fits : blockSize.toNat ≤ internalSize.toNat) :
    (planned uuid parent blockSize internalSize geometry span hasNext).mismatch?
      { parent, externalSize := blockSize, internalSize, arenaSize := span.size, hasNext } =
        none := by
  have carries : (planned uuid parent blockSize internalSize geometry span hasNext).Carries
      geometry := planned_carries sound size_le
  have slots := sound.nfree_eq
  have next : (planned uuid parent blockSize internalSize geometry span hasNext).nextOffset.toNat =
      if hasNext then span.size else 0 := by
    apply toNat_ofNat_long
    simp only [maxArena] at size_le
    split <;> omega
  rw [mismatch?]
  rw [if_neg (by exact fun differ => differ rfl), if_neg (by exact fun differ => differ rfl),
    if_neg (by exact fun differ => differ rfl), if_neg, if_neg, if_neg, if_neg, if_neg, if_neg,
    if_neg, if_neg]
  · rw [dataEnd, carries.data, carries.internal, carries.info]
    exact Nat.not_lt.mpr sound.data_end
  · rw [mapEnd, carries.map, carries.external, carries.data]
    have mapEnd := sound.map_end
    rw [Nat.add_mul] at mapEnd
    omega
  · rw [flogEnd, carries.flog, carries.nfree, carries.map, slots]
    exact Nat.not_lt.mpr sound.flog_end
  · rw [planned_ordered sound size_le size_aligned large (by omega)]
    decide
  · exact fun differ => differ next
  · rw [carries.info]
    exact fun differ => differ sound.info_eq
  · rw [carries.internal, carries.external, carries.nfree, slots]
    exact fun differ => differ sound.internal_eq
  · intro zero
    have none := congrArg UInt32.toNat zero
    rw [carries.nfree, slots] at none
    exact Nat.ne_of_gt sound.nfree_pos none

end Planned

end Remap.Block.InfoBlock
