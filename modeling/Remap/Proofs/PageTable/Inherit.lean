import Remap.Proofs.PageTable.Entry

/-!
# Effective attributes

What is below a table counts with what the tables above take away. Presence and the base
address are never taken away, so a leaf keeps its place in the physical address space.
-/

namespace Remap.PageTable

theorem and_or_absorb (word mask : UInt64) : (word &&& mask) ||| mask = mask := by
  apply word_ext
  intro bit inside
  simp only [UInt64.toBitVec_and, UInt64.toBitVec_or, BitVec.getLsbD_and, BitVec.getLsbD_or]
  cases word.toBitVec.getLsbD bit <;> cases mask.toBitVec.getLsbD bit <;> rfl

namespace Attribute

variable {attr parent : Attribute}

structure Grants (attr : Attribute) : Prop where
  defined : attr.Defined
  present : attr.has .present = true

theorem grants_permissive : permissive.Grants := ⟨by rw [Defined]; decide, by decide⟩

theorem inherit_permissive : attr.inherit .permissive = attr := by
  have whole : permissive.bits ||| ~~~grantMask = -1 := by decide
  have executable : permissive.bits &&& Flag.noExecute.mask = 0 := by decide
  rw [inherit, whole, executable, UInt64.and_neg_one, UInt64.or_zero]

theorem inherit_and {mask : UInt64} (granted : mask &&& grantMask = 0)
    (executed : Flag.noExecute.mask &&& mask = 0) :
    (attr.inherit parent).bits &&& mask = attr.bits &&& mask := by
  have wide : (parent.bits ||| ~~~grantMask) &&& mask = mask := by
    rw [or_and_distrib, UInt64.and_comm (~~~grantMask), and_not_of_apart granted, and_or_absorb]
  rw [inherit, or_and_distrib, UInt64.and_assoc, wide, UInt64.and_assoc, executed,
    UInt64.and_zero, UInt64.or_zero]

@[simp] theorem base_inherit : (attr.inherit parent).base = attr.base :=
  inherit_and (by decide) (by decide)

theorem has_inherit_present (present : attr.has .present = true)
    (granted : parent.has .present = true) : (attr.inherit parent).has .present = true := by
  have outside : ~~~grantMask &&& Flag.present.mask = 0 := by decide
  have executed : Flag.noExecute.mask &&& Flag.present.mask = 0 := by decide
  rw [has, inherit, or_and_distrib, UInt64.and_assoc, or_and_distrib, and_flag_of_has granted,
    outside, UInt64.or_zero, and_flag_of_has present, UInt64.and_assoc, executed, UInt64.and_zero,
    UInt64.or_zero]
  decide

theorem Defined.inherit (defined : attr.Defined) : (attr.inherit parent).Defined := by
  have executed : Flag.noExecute.mask &&& all.bits = Flag.noExecute.mask := by decide
  rw [Defined] at defined ⊢
  rw [Attribute.inherit, or_and_distrib, UInt64.and_assoc,
    UInt64.and_comm (parent.bits ||| ~~~grantMask), ← UInt64.and_assoc, defined, UInt64.and_assoc,
    executed]

theorem rights_inherit : (attr.inherit parent).rights =
    (attr.rights &&& (parent.bits ||| ~~~grantMask)) ||| (parent.bits &&& Flag.noExecute.mask) := by
  have executed : Flag.noExecute.mask &&& ~~~baseMask = Flag.noExecute.mask := by decide
  rw [rights, inherit, or_and_distrib, UInt64.and_assoc, UInt64.and_comm (parent.bits ||| _),
    ← UInt64.and_assoc, UInt64.and_assoc parent.bits, executed, rights]

theorem inherit_advance (distance : Nat) :
    (attr.advance distance).inherit parent = (attr.inherit parent).advance distance := by
  apply ext_base_rights
  · rw [base_inherit, advance, advance, base_withBase, base_withBase, base_inherit]
  · rw [rights_inherit, rights_advance, rights_advance, rights_inherit]

/-- What a parent takes away is taken away once. -/
theorem inherit_again : (attr.inherit parent).inherit (permissive.inherit parent) =
    attr.inherit parent := by
  apply congrArg Attribute.mk
  apply word_ext
  intro bit inside
  simp only [inherit, permissive, UInt64.toBitVec_and, UInt64.toBitVec_or, UInt64.toBitVec_not,
    BitVec.getLsbD_and, BitVec.getLsbD_or, BitVec.getLsbD_not, inside, decide_true, Bool.true_and]
  cases attr.bits.toBitVec.getLsbD bit <;> cases parent.bits.toBitVec.getLsbD bit <;>
    cases grantMask.toBitVec.getLsbD bit <;> cases Flag.noExecute.mask.toBitVec.getLsbD bit <;> rfl

theorem Grants.inherit (grants : attr.Grants) (parents : parent.Grants) :
    (attr.inherit parent).Grants :=
  ⟨grants.defined.inherit, has_inherit_present grants.present parents.present⟩

end Attribute

namespace Entry

variable {level : Nat} {attr parent : Attribute} {raw pointed : UInt64}

theorem Fits.inherit (fits : Fits level attr) (parents : parent.Grants) :
    Fits level (attr.inherit parent) where
  positive := fits.positive
  low := fits.low
  defined := fits.defined.inherit
  present := Attribute.has_inherit_present fits.present parents.present
  aligned := by
    rw [Attribute.base_inherit]
    exact fits.aligned

theorem decode_table_grants (found : decode raw level = .table pointed attr) : attr.Grants :=
  ⟨(decode_points found).defined, (decode_points found).present⟩

end Entry

end Remap.PageTable
