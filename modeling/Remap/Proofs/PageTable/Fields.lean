import Remap.Proofs.PageTable.Entry

/-!
# Fields of an entry

What a bit of a word means depends on the level and on what the word is. Bit 7 is the
page-attribute flag of a leaf at level 1, makes an entry at level 2 or 3 a leaf, and means
nothing further up. Bit 12 is the page-attribute flag of a large leaf and part of the base
address in any other entry. At its level a word has the fields of one entry only, and that
is the entry that it is read as.
-/

namespace Remap.PageTable

theorem testBit_eq {mask : UInt64} {bit : Nat} (place : mask.toNat = 1 <<< bit) (word : UInt64) :
    word.toNat.testBit bit = (word &&& mask != 0) := by
  have number : (word &&& mask).toNat = if word.toNat.testBit bit then 1 <<< bit else 0 := by
    rw [UInt64.toNat_and, place, and_bit]
  cases set : word.toNat.testBit bit with
  | false =>
      rw [set, if_neg Bool.false_ne_true] at number
      have zero : word &&& mask = 0 := UInt64.toNat_inj.mp number
      rw [zero]
      rfl
  | true =>
      have nonzero : word &&& mask ≠ 0 := by
        intro zero
        rw [set, if_pos rfl, zero, Nat.one_shiftLeft] at number
        exact absurd number (Nat.ne_of_lt (Nat.two_pow_pos bit))
      exact (bne_iff_ne.mpr nonzero).symm

namespace Entry

def patPlace (level : Nat) : Nat := if level = 1 then 7 else 12

structure HasLeaf (level : Nat) (raw : UInt64) (attr : Attribute) : Prop where
  sized : level ≠ 1 → raw.toNat.testBit 7 = true
  pat : raw.toNat.testBit (patPlace level) = attr.has .pat
  base : raw.toNat % spaceSize / levelSize level * levelSize level = attr.base.toNat
  rights : raw &&& leafMask = attr.bits &&& leafMask

structure HasTable (level : Nat) (raw pointed : UInt64) (attr : Attribute) : Prop where
  unsized : level = 2 ∨ level = 3 → raw.toNat.testBit 7 = false
  base : raw.toNat % spaceSize / pageBytes * pageBytes = pointed.toNat
  rights : raw &&& tableMask = attr.bits

/-- The word has the fields of the entry at the places that they have at `level`. -/
def HasFields (level : Nat) (raw : UInt64) : Entry → Prop
  | absent => raw &&& Flag.present.mask = 0
  | table pointed attr => HasTable level raw pointed attr
  | leaf _ attr => HasLeaf level raw attr

def Allowed (level : Nat) : Entry → Prop
  | absent => True
  | table pointed attr => Points level pointed attr
  | leaf size attr => size = .ofLevel level ∧ Fits level attr

variable {level : Nat} {raw pointed : UInt64} {attr next : Attribute}
  {entry left right : Entry}

theorem testBit_size (word : UInt64) : word.toNat.testBit 7 = (word &&& pageSizeBit != 0) :=
  testBit_eq (by decide) word

theorem present_of_rights {mask : UInt64} (inside : mask &&& Flag.present.mask = Flag.present.mask)
    (same : raw &&& mask = attr.bits &&& mask) (present : attr.has .present = true) :
    raw &&& Flag.present.mask ≠ 0 := by
  have set : raw &&& Flag.present.mask = Flag.present.mask := by
    calc raw &&& Flag.present.mask
      _ = raw &&& mask &&& Flag.present.mask := by rw [UInt64.and_assoc, inside]
      _ = attr.bits &&& mask &&& Flag.present.mask := by rw [same]
      _ = Flag.present.mask := by rw [UInt64.and_assoc, inside, Attribute.and_flag_of_has present]
  rw [set]
  decide

theorem HasLeaf.present (leaf : HasLeaf level raw attr) (fits : Fits level attr) :
    raw &&& Flag.present.mask ≠ 0 :=
  present_of_rights (by decide) leaf.rights fits.present

theorem HasTable.present (table : HasTable level raw pointed attr)
    (points : Points level pointed attr) : raw &&& Flag.present.mask ≠ 0 :=
  present_of_rights (by decide) (table.rights.trans points.stored.symm) points.present

/-- The page-size bit tells a large leaf from a pointer. -/
theorem HasLeaf.not_table (leaf : HasLeaf level raw attr) (fits : Fits level attr)
    (points : Points level pointed next) : ¬HasTable level raw pointed next := by
  intro table
  have large : level = 2 ∨ level = 3 :=
    (level_cases fits.positive fits.low).resolve_left points.inner
  exact absurd ((leaf.sized points.inner).symm.trans (table.unsized large)) (by decide)

theorem HasLeaf.attr_eq (leaf : HasLeaf level raw attr) (fits : Fits level attr)
    (again : HasLeaf level raw next) (also : Fits level next) : attr = next := by
  have bases : attr.base = next.base := UInt64.toNat_inj.mp (leaf.base.symm.trans again.base)
  have stored : (Entry.stored level attr).bits = (Entry.stored level next).bits := by
    rw [stored_bits, stored_bits, ← leaf.rights, ← again.rights, and_pat, and_pat, ← leaf.pat,
      ← again.pat, fits.base_eq, also.base_eq, bases]
  rw [fits.stored, also.stored] at stored
  exact congrArg Attribute.mk stored

theorem HasFields.entry_eq (fields : HasFields level raw left) (allowed : Allowed level left)
    (again : HasFields level raw right) (also : Allowed level right) : left = right := by
  -- Presence tells an absent entry from the others, and the page-size bit a leaf from a pointer.
  cases left with
  | absent =>
      cases right with
      | absent => rfl
      | table pointed attr => exact absurd fields (again.present also)
      | leaf size attr => exact absurd fields (again.present also.2)
  | table pointed attr =>
      cases right with
      | absent => exact absurd again (fields.present allowed)
      | table other next =>
          have tables : pointed = other := UInt64.toNat_inj.mp (fields.base.symm.trans again.base)
          have rights : attr = next := congrArg Attribute.mk (fields.rights.symm.trans again.rights)
          rw [tables, rights]
      | leaf size next => exact absurd fields (again.not_table also.2 allowed)
  | leaf size attr =>
      cases right with
      | absent => exact absurd again (fields.present allowed.2)
      | table other next => exact absurd again (fields.not_table allowed.2 also)
      | leaf width next =>
          rw [allowed.1, also.1, fields.attr_eq allowed.2 again also.2]

theorem hasLeaf_ofBits (raw : UInt64) : HasLeaf 1 raw (.ofBits raw) where
  sized := by
    intro large
    exact absurd rfl large
  pat := by
    rw [Attribute.has, ofBits_and (by decide)]
    exact testBit_eq (by decide) raw
  base := by
    rw [Attribute.base, ofBits_and (by decide), ← toNat_and_leafBaseMask (by decide) (by decide)]
    rfl
  rights := by
    rw [ofBits_and (by decide)]

theorem hasLeaf_decodeLarge (large : level = 2 ∨ level = 3) (sized : raw &&& pageSizeBit != 0) :
    HasLeaf level raw (decodeLarge raw level) where
  sized := by
    intro _
    rw [testBit_size, sized]
  pat := by
    have place : patPlace level = 12 := if_neg (by omega)
    have bit : largePatBit.toNat = 1 <<< 12 := by decide
    rw [place, testBit_eq bit, decodeLarge_pat]
  base := by
    rw [decodeLarge_base, toNat_and_leafBaseMask (by omega) (by omega)]
  rights := decodeLarge_rights.symm

theorem hasTable_pointer (pointer : ¬((level = 2 ∨ level = 3) ∧ raw &&& pageSizeBit != 0)) :
    HasTable level raw (raw &&& Attribute.baseMask) (.ofBits (raw &&& tableMask)) where
  unsized := by
    intro large
    rw [testBit_size]
    exact Bool.eq_false_iff.mpr fun sized => pointer ⟨large, sized⟩
  base := (Attribute.toNat_and_baseMask raw).symm
  rights := ofBits_tableMask.symm

theorem decode_hasFields (raw : UInt64) (level : Nat) :
    HasFields level raw (decode raw level) := by
  rw [decode]
  split
  next absent => exact eq_of_beq absent
  next =>
    split
    next small =>
      subst small
      exact hasLeaf_ofBits raw
    next =>
      split
      next large => exact hasLeaf_decodeLarge large.1 large.2
      next pointer => exact hasTable_pointer pointer

theorem decode_allowed (raw : UInt64) (level : Nat) : Allowed level (decode raw level) := by
  cases found : decode raw level with
  | absent => trivial
  | table pointed attr => exact decode_points found
  | leaf size attr => exact decode_leaf found

theorem decode_eq_iff :
    decode raw level = entry ↔ Allowed level entry ∧ HasFields level raw entry := by
  constructor
  · intro found
    rw [← found]
    exact ⟨decode_allowed raw level, decode_hasFields raw level⟩
  · intro ⟨allowed, fields⟩
    exact (decode_hasFields raw level).entry_eq (decode_allowed raw level) fields allowed

theorem Allowed.decode_encode (allowed : Allowed level entry) :
    decode entry.encode level = entry := by
  cases entry with
  | absent => exact decode_zero
  | table pointed attr => exact decode_encode_table allowed
  | leaf size attr =>
      rw [allowed.1]
      exact decode_encode_leaf allowed.2

/-- **Entries and words.** At every level a word is read as the one entry that the level allows
and whose fields the word has. The word written for an entry that was read is read as this
entry again. The entries that are read back from the word written for them are those that the
level allows, and that word has their fields. -/
theorem entries_read_back (level : Nat) :
    (∀ raw entry, decode raw level = entry ↔ Allowed level entry ∧ HasFields level raw entry) ∧
      (∀ raw, decode (decode raw level).encode level = decode raw level) ∧
        ∀ entry, Allowed level entry ↔
          decode entry.encode level = entry ∧ HasFields level entry.encode entry := by
  refine ⟨fun raw entry => decode_eq_iff, fun raw => (decode_allowed raw level).decode_encode, ?_⟩
  intro entry
  constructor
  · intro allowed
    have again : decode entry.encode level = entry := allowed.decode_encode
    exact ⟨again, (decode_eq_iff.mp again).2⟩
  · intro ⟨again, fields⟩
    exact (decode_eq_iff.mp again).1

example : decode 0x1081 1 = leaf .page4K ⟨0x1081⟩ ∧ decode 0x1081 2 = leaf .page2M ⟨0x81⟩ ∧
    decode 0x1081 4 = table 0x1000 ⟨0x1⟩ := by decide

end Entry

end Remap.PageTable
