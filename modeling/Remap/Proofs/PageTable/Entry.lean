import Remap.Proofs.PageTable.Attribute

/-!
# Entries that are read back

A leaf is read back from the word that stores it if its base address is a multiple
of what it maps, and so is a pointer to a page-aligned table. Of any other leaf the part is
read back that such a word has room for. A word without the present flag is read as absent, whatever
leaf it was to be.
-/

namespace Remap.PageTable

namespace Entry

structure Fits (level : Nat) (attr : Attribute) : Prop where
  positive : 1 ≤ level
  low : level ≤ 3
  defined : attr.Defined
  present : attr.has .present = true
  aligned : attr.base.toNat % levelSize level = 0

structure Points (level : Nat) (pointed : UInt64) (attr : Attribute) : Prop where
  inner : level ≠ 1
  stored : attr.bits &&& tableMask = attr.bits
  present : attr.has .present = true
  aligned : pointed.toNat % pageBytes = 0
  small : pointed.toNat < spaceSize

variable {level address : Nat} {attr : Attribute} {raw pointed : UInt64}

theorem tableMask_defined : tableMask &&& Attribute.all.bits = tableMask := by decide

theorem ofBits_tableMask : (Attribute.ofBits (raw &&& tableMask)).bits = raw &&& tableMask := by
  rw [Attribute.ofBits, UInt64.and_assoc, tableMask_defined]

theorem Points.defined (points : Points level pointed attr) : attr.Defined := by
  calc attr.bits &&& Attribute.all.bits
    _ = attr.bits &&& tableMask &&& Attribute.all.bits := by rw [points.stored]
    _ = attr.bits &&& tableMask := by rw [UInt64.and_assoc, tableMask_defined]
    _ = attr.bits := points.stored

theorem level_cases (positive : 1 ≤ level) (low : level ≤ 3) :
    level = 1 ∨ level = 2 ∨ level = 3 := by
  omega

theorem Fits.room (fits : Fits level attr) : attr.base.toNat + levelSize level ≤ spaceSize := by
  have base := Attribute.base_lt attr
  have multiple := fits.aligned
  rcases level_cases fits.positive fits.low with rfl | rfl | rfl <;>
    simp only [levelSize, spaceSize, Nat.reduceShiftLeft, Nat.reduceMul, Nat.reduceAdd,
      Nat.reduceSub] at * <;>
    omega

theorem toNat_and_leafBaseMask (positive : 1 ≤ level) (low : level ≤ 3) (word : UInt64) :
    (word &&& leafBaseMask level).toNat =
      word.toNat % spaceSize / levelSize level * levelSize level := by
  rw [UInt64.toNat_and]
  rcases level_cases positive low with rfl | rfl | rfl
  · exact and_span word.toNat 12 (by decide)
  · exact and_span word.toNat 21 (by decide)
  · exact and_span word.toNat 30 (by decide)

theorem leafBaseMask_and_inside {mask : UInt64}
    (inside : Attribute.baseMask &&& mask = Attribute.baseMask) :
    leafBaseMask level &&& mask = leafBaseMask level := by
  rw [leafBaseMask, UInt64.and_assoc, UInt64.and_comm _ mask, ← UInt64.and_assoc, inside]

theorem leafBaseMask_and_apart {mask : UInt64} (apart : Attribute.baseMask &&& mask = 0) :
    leafBaseMask level &&& mask = 0 := by
  rw [leafBaseMask, UInt64.and_assoc, UInt64.and_comm _ mask, ← UInt64.and_assoc, apart,
    UInt64.zero_and]

/-- The base address of a large leaf starts above the page-attribute bit. -/
theorem leafBaseMask_and_pat (large : level = 2 ∨ level = 3) :
    leafBaseMask level &&& largePatBit = 0 := by
  rcases large with rfl | rfl <;> decide

theorem and_leafBaseMask : attr.bits &&& leafBaseMask level = attr.base &&& leafBaseMask level := by
  rw [Attribute.base, UInt64.and_assoc, UInt64.and_comm Attribute.baseMask,
    leafBaseMask_and_inside UInt64.and_self]

theorem aligned_iff (positive : 1 ≤ level) (low : level ≤ 3) :
    attr.base.toNat % levelSize level = 0 ↔ attr.bits &&& leafBaseMask level = attr.base := by
  rw [and_leafBaseMask, ← UInt64.toNat_inj, toNat_and_leafBaseMask positive low,
    Nat.mod_eq_of_lt (Attribute.base_lt attr)]
  constructor
  · intro aligned
    exact Nat.div_mul_cancel (Nat.dvd_of_mod_eq_zero aligned)
  · intro same
    rw [← same]
    exact Nat.mul_mod_left _ _

theorem Fits.base_eq (fits : Fits level attr) : attr.bits &&& leafBaseMask level = attr.base :=
  (aligned_iff fits.positive fits.low).mp fits.aligned

theorem bit_and_apart {bit mask : UInt64} (apart : bit &&& mask = 0) (set : Prop)
    [Decidable set] : (if set then bit else 0) &&& mask = 0 := by
  split
  next => exact apart
  next => exact UInt64.zero_and

theorem encodeLarge_and (mask : UInt64) : encodeLarge attr level &&& mask =
    (attr.bits &&& (leafMask &&& mask)) ||| (pageSizeBit &&& mask) |||
      ((if attr.has .pat then largePatBit else 0) &&& mask) |||
      (attr.bits &&& (leafBaseMask level &&& mask)) := by
  rw [encodeLarge, or_and_distrib, or_and_distrib, or_and_distrib, UInt64.and_assoc,
    UInt64.and_assoc]

theorem encodeLarge_rights : encodeLarge attr level &&& leafMask = attr.bits &&& leafMask := by
  have size : pageSizeBit &&& leafMask = 0 := by decide
  rw [encodeLarge_and, size, bit_and_apart (by decide), leafBaseMask_and_apart (by decide),
    UInt64.and_self, UInt64.and_zero, UInt64.or_zero, UInt64.or_zero, UInt64.or_zero]

theorem encodeLarge_present :
    encodeLarge attr level &&& Flag.present.mask = attr.bits &&& Flag.present.mask := by
  have inside : leafMask &&& Flag.present.mask = Flag.present.mask := by decide
  rw [← inside, ← UInt64.and_assoc, encodeLarge_rights, UInt64.and_assoc]

theorem encodeLarge_size : encodeLarge attr level &&& pageSizeBit = pageSizeBit := by
  have right : leafMask &&& pageSizeBit = 0 := by decide
  rw [encodeLarge_and, right, bit_and_apart (by decide), leafBaseMask_and_apart (by decide),
    UInt64.and_self, UInt64.and_zero, UInt64.or_zero, UInt64.or_zero, UInt64.zero_or]

theorem encodeLarge_base (large : level = 2 ∨ level = 3) :
    encodeLarge attr level &&& leafBaseMask level = attr.bits &&& leafBaseMask level := by
  have right : leafMask &&& leafBaseMask level = 0 := by
    rw [UInt64.and_comm, leafBaseMask_and_apart (by decide)]
  have size : pageSizeBit &&& leafBaseMask level = 0 := by
    rw [UInt64.and_comm, leafBaseMask_and_apart (by decide)]
  have pat : largePatBit &&& leafBaseMask level = 0 := by
    rw [UInt64.and_comm, leafBaseMask_and_pat large]
  rw [encodeLarge_and, right, size, bit_and_apart pat, UInt64.and_self, UInt64.and_zero,
    UInt64.or_zero, UInt64.or_zero, UInt64.zero_or]

theorem encodeLarge_pat (large : level = 2 ∨ level = 3) :
    encodeLarge attr level &&& largePatBit = if attr.has .pat then largePatBit else 0 := by
  have right : leafMask &&& largePatBit = 0 := by decide
  have size : pageSizeBit &&& largePatBit = 0 := by decide
  rw [encodeLarge_and, right, size, leafBaseMask_and_pat large, UInt64.and_zero, UInt64.or_zero,
    UInt64.or_zero, UInt64.zero_or]
  cases attr.has .pat <;> rfl

theorem and_pat : attr.bits &&& Flag.pat.mask = if attr.has .pat then Flag.pat.mask else 0 := by
  rw [Attribute.has]
  rcases and_flag attr.bits .pat with clear | set
  · rw [clear]
    rfl
  · rw [set]
    rfl

def storedMask (level : Nat) : UInt64 := leafMask ||| Flag.pat.mask ||| leafBaseMask level

def stored (level : Nat) (attr : Attribute) : Attribute := ⟨attr.bits &&& storedMask level⟩

theorem stored_bits : (stored level attr).bits =
    (attr.bits &&& leafMask) ||| (attr.bits &&& Flag.pat.mask) |||
      (attr.bits &&& leafBaseMask level) := by
  rw [stored, storedMask, UInt64.and_comm, or_and_distrib, or_and_distrib,
    UInt64.and_comm leafMask, UInt64.and_comm Flag.pat.mask, UInt64.and_comm (leafBaseMask level)]

theorem storedMask_defined (positive : 1 ≤ level) (low : level ≤ 3) :
    storedMask level &&& Attribute.all.bits = storedMask level := by
  rcases level_cases positive low with rfl | rfl | rfl <;> decide

theorem stored_eq (positive : 1 ≤ level) (low : level ≤ 3) (defined : attr.Defined)
    (aligned : attr.base.toNat % levelSize level = 0) : stored level attr = attr := by
  have base : attr.bits &&& leafBaseMask level = attr.bits &&& Attribute.baseMask :=
    (aligned_iff positive low).mp aligned
  have fields : leafMask ||| Flag.pat.mask ||| Attribute.baseMask = Attribute.all.bits := by decide
  have whole : (stored level attr).bits = attr.bits &&& Attribute.all.bits := by
    rw [stored_bits, base, ← fields, UInt64.and_comm attr.bits leafMask,
      UInt64.and_comm attr.bits Flag.pat.mask, UInt64.and_comm attr.bits Attribute.baseMask,
      ← or_and_distrib, ← or_and_distrib, UInt64.and_comm]
  rw [Attribute.Defined] at defined
  exact congrArg Attribute.mk (whole.trans defined)

theorem base_stored (positive : 1 ≤ level) (low : level ≤ 3) :
    (stored level attr).base = attr.bits &&& leafBaseMask level := by
  have narrow : storedMask level &&& Attribute.baseMask = leafBaseMask level := by
    rcases level_cases positive low with rfl | rfl | rfl <;> decide
  rw [stored, Attribute.base, UInt64.and_assoc, narrow]

theorem stored_and {mask : UInt64} (inside : storedMask level &&& mask = mask) :
    (stored level attr).bits &&& mask = attr.bits &&& mask := by
  rw [stored, UInt64.and_assoc, inside]

theorem Fits.stored (fits : Fits level attr) : Entry.stored level attr = attr :=
  stored_eq fits.positive fits.low fits.defined fits.aligned

theorem decodeLarge_encodeLarge (large : level = 2 ∨ level = 3) :
    decodeLarge (encodeLarge attr level) level = stored level attr := by
  have pat : (if encodeLarge attr level &&& largePatBit != 0 then Flag.pat.mask else 0) =
      attr.bits &&& Flag.pat.mask := by
    rw [encodeLarge_pat large, and_pat]
    cases attr.has .pat <;> rfl
  rw [decodeLarge, encodeLarge_rights, encodeLarge_base large, pat, ← stored_bits,
    Attribute.ofBits, stored, UInt64.and_assoc, storedMask_defined (by omega) (by omega)]

theorem encodeLarge_stored (large : level = 2 ∨ level = 3) :
    encodeLarge (stored level attr) level = encodeLarge attr level := by
  have rights : storedMask level &&& leafMask = leafMask := by
    rcases large with rfl | rfl <;> decide
  have pats : storedMask level &&& Flag.pat.mask = Flag.pat.mask := by
    rcases large with rfl | rfl <;> decide
  have bases : storedMask level &&& leafBaseMask level = leafBaseMask level := by
    rcases large with rfl | rfl <;> decide
  rw [encodeLarge, encodeLarge, stored_and rights, stored_and bases, Attribute.has, stored_and pats,
    Attribute.has]

theorem encode_leafAt (large : level = 2 ∨ level = 3) :
    (leafAt level attr).encode = encodeLarge attr level := by
  rcases large with rfl | rfl <;> rfl

theorem decode_encode_stored (positive : 1 ≤ level) (low : level ≤ 3)
    (present : attr.has .present = true) :
    decode (leafAt level attr).encode level = leafAt level (stored level attr) := by
  have set : attr.bits &&& Flag.present.mask = Flag.present.mask :=
    Attribute.and_flag_of_has present
  by_cases small : level = 1
  · subst small
    change decode attr.bits 1 = leaf .page4K ⟨attr.bits &&& Attribute.all.bits⟩
    rw [decode, set, if_neg (by decide), if_pos rfl, Attribute.ofBits]
  · have large : level = 2 ∨ level = 3 := by omega
    rw [encode_leafAt large, decode, encodeLarge_present, set, if_neg (by decide),
      if_neg small, encodeLarge_size, if_pos ⟨large, by decide⟩,
      decodeLarge_encodeLarge large]
    rfl

theorem decode_encode_leaf (fits : Fits level attr) :
    decode (leafAt level attr).encode level = leafAt level attr := by
  rw [decode_encode_stored fits.positive fits.low fits.present, fits.stored]

theorem decode_encode_absent (positive : 1 ≤ level) (low : level ≤ 3)
    (absent : attr.has .present = false) : decode (leafAt level attr).encode level = .absent := by
  have clear : attr.bits &&& Flag.present.mask = 0 := by
    simpa [Attribute.has] using absent
  have encoded : (leafAt level attr).encode &&& Flag.present.mask = 0 := by
    rcases level_cases positive low with rfl | rfl | rfl
    · exact clear
    · exact encodeLarge_present.trans clear
    · exact encodeLarge_present.trans clear
  rw [decode, encoded, if_pos (by decide)]

theorem decode_zero : decode 0 level = .absent := rfl

theorem decode_encode_table (points : Points level pointed attr) :
    decode (table pointed attr).encode level = table pointed attr := by
  have field (mask : UInt64) (apart : Attribute.baseMask &&& mask = 0) :
      (table pointed attr).encode &&& mask = attr.bits &&& mask := by
    rw [encode, or_and_distrib, UInt64.and_assoc, apart, UInt64.and_zero, UInt64.zero_or,
      points.stored]
  have base : (table pointed attr).encode &&& Attribute.baseMask = pointed := by
    have apart : tableMask &&& Attribute.baseMask = 0 := by decide
    rw [encode, or_and_distrib, UInt64.and_assoc, UInt64.and_self, UInt64.and_assoc, apart,
      UInt64.and_zero, UInt64.or_zero, Attribute.and_baseMask points.aligned points.small]
  have unsized : attr.bits &&& pageSizeBit = 0 := by
    have apart : tableMask &&& pageSizeBit = 0 := by decide
    rw [← points.stored, UInt64.and_assoc, apart, UInt64.and_zero]
  have size : ¬((level = 2 ∨ level = 3) ∧ attr.bits &&& pageSizeBit != 0) := by
    rw [unsized]
    exact fun large => absurd large.2 (by decide)
  rw [decode, field _ (by decide), field pageSizeBit (by decide), field tableMask (by decide), base,
    Attribute.and_flag_of_has points.present, if_neg (by decide), if_neg points.inner,
    if_neg size, points.stored]
  exact congrArg (table pointed) (congrArg Attribute.mk points.defined)

theorem decode_encode_pointer (inner : level ≠ 1) (aligned : address % pageBytes = 0)
    (small : address < spaceSize) :
    decode (pointer address).encode level = pointer address := by
  have number : (UInt64.ofNat address).toNat = address :=
    UInt64.toNat_ofNat_of_lt' (Nat.lt_trans small (by decide))
  apply decode_encode_table
  constructor
  case inner => exact inner
  case stored => decide
  case present => decide
  case aligned => rwa [number]
  case small => rwa [number]

theorem ofBits_defined (bits : UInt64) : (Attribute.ofBits bits).Defined := by
  rw [Attribute.Defined, Attribute.ofBits, UInt64.and_assoc, UInt64.and_self]

theorem ofBits_and {mask : UInt64} (inside : Attribute.all.bits &&& mask = mask) (bits : UInt64) :
    (Attribute.ofBits bits).bits &&& mask = bits &&& mask := by
  rw [Attribute.ofBits, UInt64.and_assoc, inside]

theorem decodeLarge_and {mask : UInt64} (inside : Attribute.all.bits &&& mask = mask) :
    (decodeLarge raw level).bits &&& mask = (raw &&& (leafMask &&& mask)) |||
      ((if raw &&& largePatBit != 0 then Flag.pat.mask else 0) &&& mask) |||
      (raw &&& (leafBaseMask level &&& mask)) := by
  rw [decodeLarge, ofBits_and inside, or_and_distrib, or_and_distrib, UInt64.and_assoc,
    UInt64.and_assoc raw (leafBaseMask level)]

theorem decodeLarge_rights : (decodeLarge raw level).bits &&& leafMask = raw &&& leafMask := by
  rw [decodeLarge_and (by decide), bit_and_apart (by decide), leafBaseMask_and_apart (by decide),
    UInt64.and_self, UInt64.and_zero, UInt64.or_zero, UInt64.or_zero]

theorem decodeLarge_pat : (decodeLarge raw level).has .pat = (raw &&& largePatBit != 0) := by
  have right : leafMask &&& Flag.pat.mask = 0 := by decide
  rw [Attribute.has, decodeLarge_and (by decide), right, leafBaseMask_and_apart (by decide),
    UInt64.and_zero, UInt64.zero_or, UInt64.or_zero]
  cases raw &&& largePatBit != 0 <;> rfl

theorem decodeLarge_base : (decodeLarge raw level).base = raw &&& leafBaseMask level := by
  have right : leafMask &&& Attribute.baseMask = 0 := by decide
  rw [Attribute.base, decodeLarge_and (by decide), right, bit_and_apart (by decide),
    leafBaseMask_and_inside UInt64.and_self, UInt64.and_zero, UInt64.zero_or, UInt64.zero_or]

theorem decodeLarge_fits (large : level = 2 ∨ level = 3)
    (present : raw &&& Flag.present.mask ≠ 0) : Fits level (decodeLarge raw level) where
  positive := by omega
  low := by omega
  defined := ofBits_defined _
  present := by
    have inside : leafMask &&& Flag.present.mask = Flag.present.mask := by decide
    rw [Attribute.has, ← inside, ← UInt64.and_assoc, decodeLarge_rights, UInt64.and_assoc, inside]
    simpa using present
  aligned := by
    rw [aligned_iff (by omega) (by omega), and_leafBaseMask, decodeLarge_base, UInt64.and_assoc,
      UInt64.and_self]

theorem decode_leaf {size : LeafSize} (found : decode raw level = .leaf size attr) :
    size = .ofLevel level ∧ Fits level attr := by
  rw [decode] at found
  split at found
  next => cases found
  next present =>
    have set : raw &&& Flag.present.mask ≠ 0 := by simpa using present
    split at found
    next small =>
      cases found
      subst small
      refine ⟨rfl, by decide, by decide, ofBits_defined raw, ?_, Attribute.base_aligned _⟩
      rw [Attribute.has, ofBits_and (by decide)]
      simpa using set
    next =>
      split at found
      next large =>
        cases found
        exact ⟨rfl, decodeLarge_fits large.1 set⟩
      next => cases found

theorem decode_points (found : decode raw level = .table pointed attr) :
    Points level pointed attr := by
  rw [decode] at found
  split at found
  next => cases found
  next present =>
    split at found
    next => cases found
    next inner =>
      split at found
      next => cases found
      next =>
        cases found
        have granted : tableMask &&& Flag.present.mask = Flag.present.mask := by decide
        constructor
        case inner => exact inner
        case stored => rw [ofBits_tableMask, UInt64.and_assoc, UInt64.and_self]
        case present =>
          rw [Attribute.has, ofBits_tableMask, UInt64.and_assoc, granted]
          simpa using present
        case aligned => exact Attribute.base_aligned ⟨raw⟩
        case small => exact Attribute.base_lt ⟨raw⟩

theorem decode_table (found : decode raw level = .table pointed attr) : level ≠ 1 :=
  (decode_points found).inner

end Entry

end Remap.PageTable
