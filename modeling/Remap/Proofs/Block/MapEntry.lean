import Remap.Block.Device

/-!
# The data block of a map entry

An entry with its identity spelled out names one data block, and a read goes to that
block. The normal entries of blocks that fit 30 bits are told apart by their blocks.
-/

namespace Remap.Block.MapEntry

variable {block other lba : UInt32} {entry : MapEntry}

theorem toNat_block_normal (block : UInt32) :
    (normal block).block.toNat = block.toNat &&& blockMask.toNat := by
  have flags : errorFlag.toNat &&& blockMask.toNat = 0 ∧
      zeroFlag.toNat &&& blockMask.toNat = 0 := by
    decide
  simp only [MapEntry.block, normal, UInt32.toNat_and, UInt32.toNat_or]
  rw [Nat.and_or_distrib_right, Nat.and_or_distrib_right, flags.1, flags.2, Nat.and_assoc,
    Nat.and_self, Nat.or_zero, Nat.or_zero]

theorem block_normal (small : block.toNat < maxInternalBlocks) : (normal block).block = block := by
  apply UInt32.toNat_inj.mp
  rw [toNat_block_normal]
  change block.toNat &&& (2 ^ 30 - 1) = block.toNat
  rw [Nat.and_two_pow_sub_one_eq_mod]
  exact Nat.mod_eq_of_lt small

theorem block_normal_le (block : UInt32) : (normal block).block ≤ block := by
  rw [UInt32.le_iff_toNat_le, toNat_block_normal]
  exact Nat.and_le_left

theorem raw_normal_and {flag : UInt32} (apart : blockMask.toNat &&& flag.toNat = 0) :
    ((normal block).raw &&& flag).toNat = (errorFlag ||| zeroFlag).toNat &&& flag.toNat := by
  simp only [normal, UInt32.toNat_and, UInt32.toNat_or]
  rw [Nat.or_assoc, Nat.and_or_distrib_right, Nat.and_assoc, apart, Nat.and_zero, Nat.zero_or]

@[simp] theorem hasError_normal (block : UInt32) : (normal block).hasError = true := by
  have flag : ((normal block).raw &&& errorFlag).toNat = errorFlag.toNat := raw_normal_and rfl
  rw [hasError, UInt32.toNat_inj.mp flag]
  rfl

@[simp] theorem hasZero_normal (block : UInt32) : (normal block).hasZero = true := by
  have flag : ((normal block).raw &&& zeroFlag).toNat = zeroFlag.toNat := raw_normal_and rfl
  rw [hasZero, UInt32.toNat_inj.mp flag]
  rfl

@[simp] theorem explicit_normal (block lba : UInt32) :
    (normal block).explicit lba = normal block := by
  simp [explicit, isIdentity]

theorem explicit_zero (lba : UInt32) : zero.explicit lba = normal lba :=
  rfl

theorem backingBlock_explicit (entry : MapEntry) (lba : UInt32) :
    (entry.explicit lba).backingBlock lba = entry.backingBlock lba := by
  have again : (entry.explicit lba).explicit lba = entry.explicit lba := by
    by_cases identity : entry.isIdentity = true <;> simp [explicit, identity]
  rw [backingBlock, again, backingBlock]

theorem normal_inj (small : block.toNat < maxInternalBlocks)
    (smallOther : other.toNat < maxInternalBlocks) :
    normal block = normal other ↔ block = other := by
  constructor
  · intro equal
    rw [← block_normal small, equal, block_normal smallOther]
  · rintro rfl
    rfl

theorem backingBlock_eq (names : entry.explicit lba = normal block)
    (small : block.toNat < maxInternalBlocks) : entry.backingBlock lba = block := by
  rw [backingBlock, names, block_normal small]

theorem mapping_eq (names : entry.explicit lba = normal block)
    (smallLba : lba.toNat < maxInternalBlocks) (small : block.toNat < maxInternalBlocks) :
    entry.mapping lba = .data block := by
  unfold explicit at names
  split at names
  next identity =>
    have same : lba = block := (normal_inj smallLba small).mp names
    simp only [isIdentity, Bool.and_eq_true, Bool.not_eq_true'] at identity
    simp [mapping, identity.1, identity.2, same]
  next =>
    subst names
    simp [mapping, block_normal small]

end Remap.Block.MapEntry
