import Mathlib.Data.List.Nodup
import Mathlib.Data.List.Perm.Subperm
import Mathlib.Logic.Function.Basic
import Remap.Block.InfoBlock

/-!
# Owners of data blocks

Every data block of an arena has one owner: an external block that is mapped to it, or a
flog slot that keeps it free. A write exchanges the blocks of one external block and one
slot, which leaves every data block with one owner.
-/

namespace Remap.Block

theorem ofNat_lt_of_lt {number : Nat} {count : UInt32} (inside : number < count.toNat) :
    UInt32.ofNat number < count := by
  rw [UInt32.lt_iff_toNat_lt, UInt32.toNat_ofNat',
    Nat.mod_eq_of_lt (Nat.lt_trans inside count.toNat_lt)]
  exact inside

/-- External block `lba` owns data block `target lba`, the flog slots own `free`, and no
data block has two owners. -/
structure Ownership (info : InfoBlock) (target : UInt32 → UInt32) (free : List UInt32) :
    Prop where
  target_lt : ∀ lba, lba < info.external → target lba < info.internal
  free_lt : ∀ block ∈ free, block < info.internal
  target_inj : ∀ lba other, lba < info.external → other < info.external →
    target lba = target other → lba = other
  free_nodup : free.Nodup
  apart : ∀ lba, lba < info.external → target lba ∉ free
  count : free.length = info.nfree.toNat

namespace Ownership

variable {info : InfoBlock} {target : UInt32 → UInt32} {free : List UInt32} {block lba : UInt32}

/-- The first free block becomes the block of `lba`, whose old block becomes free. -/
theorem rotate (owned : Ownership info target (block :: free)) (inside : lba < info.external) :
    Ownership info (Function.update target lba block) (target lba :: free) where
  target_lt other otherInside := by
    by_cases same : other = lba
    · rw [same, Function.update_self]
      exact owned.free_lt block List.mem_cons_self
    · rw [Function.update_of_ne same]
      exact owned.target_lt other otherInside
  free_lt := by
    intro other member
    rcases List.mem_cons.mp member with rfl | member
    · exact owned.target_lt lba inside
    · exact owned.free_lt other (List.mem_cons_of_mem block member)
  target_inj := by
    have notFree (other : UInt32) (otherInside : other < info.external) : target other ≠ block := by
      intro equal
      exact owned.apart other otherInside (equal ▸ List.mem_cons_self)
    intro left right leftInside rightInside equal
    by_cases leftSame : left = lba
    · by_cases rightSame : right = lba
      · rw [leftSame, rightSame]
      · rw [leftSame, Function.update_self, Function.update_of_ne rightSame] at equal
        exact absurd equal.symm (notFree right rightInside)
    · by_cases rightSame : right = lba
      · rw [rightSame, Function.update_self, Function.update_of_ne leftSame] at equal
        exact absurd equal (notFree left leftInside)
      · rw [Function.update_of_ne leftSame, Function.update_of_ne rightSame] at equal
        exact owned.target_inj left right leftInside rightInside equal
  free_nodup := by
    have parts := List.nodup_cons.mp owned.free_nodup
    have notMember : target lba ∉ free := fun member =>
      owned.apart lba inside (List.mem_cons_of_mem block member)
    exact List.nodup_cons.mpr ⟨notMember, parts.2⟩
  apart other otherInside := by
    have parts := List.nodup_cons.mp owned.free_nodup
    by_cases same : other = lba
    · rw [same, Function.update_self]
      intro member
      rcases List.mem_cons.mp member with equal | member
      · exact owned.apart lba inside (equal ▸ List.mem_cons_self)
      · exact parts.1 member
    · rw [Function.update_of_ne same]
      intro member
      rcases List.mem_cons.mp member with equal | member
      · exact same (owned.target_inj other lba otherInside inside equal)
      · exact owned.apart other otherInside (List.mem_cons_of_mem block member)
  count := owned.count

theorem perm (owned : Ownership info target free)
    (total : info.internal.toNat = info.external.toNat + info.nfree.toNat) :
    ((List.range info.external.toNat).map (fun lba => (target (.ofNat lba)).toNat) ++
      free.map UInt32.toNat).Perm (List.range info.internal.toNat) := by
  have toNat_ofNat (lba : Nat) (inside : lba < info.external.toNat) :
      (UInt32.ofNat lba).toNat = lba := by
    rw [UInt32.toNat_ofNat']
    exact Nat.mod_eq_of_lt (Nat.lt_trans inside info.external.toNat_lt)
  have nodup : ((List.range info.external.toNat).map (fun lba => (target (.ofNat lba)).toNat) ++
      free.map UInt32.toNat).Nodup := by
    rw [List.nodup_append]
    refine ⟨?_, ?_, ?_⟩
    · apply List.Nodup.map_on _ List.nodup_range
      intro left leftMember right rightMember equal
      have leftInside := List.mem_range.mp leftMember
      have rightInside := List.mem_range.mp rightMember
      have same := owned.target_inj _ _ (ofNat_lt_of_lt leftInside)
        (ofNat_lt_of_lt rightInside) (UInt32.toNat_inj.mp equal)
      rw [← toNat_ofNat left leftInside, same, toNat_ofNat right rightInside]
    · exact owned.free_nodup.map fun _ _ equal => UInt32.toNat_inj.mp equal
    · intro owner member other otherMember equal
      obtain ⟨lba, inside, rfl⟩ := List.mem_map.mp member
      obtain ⟨block, blockMember, rfl⟩ := List.mem_map.mp otherMember
      have same := UInt32.toNat_inj.mp equal
      exact owned.apart _ (ofNat_lt_of_lt (List.mem_range.mp inside)) (same ▸ blockMember)
  apply (nodup.subperm _).perm_of_length_le
  · simp only [List.length_append, List.length_map, List.length_range, owned.count, total,
      Nat.le_refl]
  · intro number member
    rw [List.mem_range]
    rcases List.mem_append.mp member with mapped | kept
    · obtain ⟨lba, inside, rfl⟩ := List.mem_map.mp mapped
      exact UInt32.lt_iff_toNat_lt.mp
        (owned.target_lt _ (ofNat_lt_of_lt (List.mem_range.mp inside)))
    · obtain ⟨block, blockMember, rfl⟩ := List.mem_map.mp kept
      exact UInt32.lt_iff_toNat_lt.mp (owned.free_lt block blockMember)

end Ownership

end Remap.Block
