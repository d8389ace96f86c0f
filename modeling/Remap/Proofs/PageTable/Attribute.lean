import Remap.PageTable.Edit

/-!
# Base address and rights

An attribute is its base address and its rights. Going on by some pages moves the
base address along and keeps the rights, and an update goes along with that: pages
that follow each other get attributes that follow each other.
-/

namespace Remap.PageTable

def spaceSize : Nat := 1 <<< 52

theorem word_ext {left right : UInt64}
    (same : ∀ bit, bit < 64 → left.toBitVec.getLsbD bit = right.toBitVec.getLsbD bit) :
    left = right :=
  UInt64.toBitVec_inj.mp (BitVec.eq_of_getLsbD_eq same)

theorem or_and_distrib (first second mask : UInt64) :
    (first ||| second) &&& mask = (first &&& mask) ||| (second &&& mask) := by
  apply word_ext
  intro bit inside
  simp only [UInt64.toBitVec_and, UInt64.toBitVec_or, BitVec.getLsbD_and, BitVec.getLsbD_or]
  exact Bool.and_or_distrib_right _ _ _

theorem and_not_of_apart {word mask : UInt64} (apart : word &&& mask = 0) :
    word &&& ~~~mask = word := by
  apply word_ext
  intro bit inside
  have clear := congrArg (fun word => word.toBitVec.getLsbD bit) apart
  have zero : (0 : UInt64).toBitVec.getLsbD bit = false := by simp
  simp only [UInt64.toBitVec_and, BitVec.getLsbD_and, UInt64.toBitVec_not, BitVec.getLsbD_not,
    inside, decide_true, Bool.true_and, zero] at clear ⊢
  revert clear
  cases word.toBitVec.getLsbD bit <;> cases mask.toBitVec.getLsbD bit <;> decide

theorem and_or_and_not (word mask : UInt64) :
    (word &&& mask) ||| (word &&& ~~~mask) = word := by
  apply word_ext
  intro bit inside
  simp only [UInt64.toBitVec_and, UInt64.toBitVec_or, BitVec.getLsbD_and, BitVec.getLsbD_or,
    UInt64.toBitVec_not, BitVec.getLsbD_not, inside, decide_true, Bool.true_and]
  cases word.toBitVec.getLsbD bit <;> cases mask.toBitVec.getLsbD bit <;> rfl

theorem and_span (value low : Nat) (ordered : low ≤ 52) :
    value &&& (1 <<< 52 - 1 <<< low) = value % 1 <<< 52 / 1 <<< low * 1 <<< low := by
  simp only [Nat.one_shiftLeft]
  apply Nat.eq_of_testBit_eq
  intro bit
  have span : 2 ^ 52 - 2 ^ low = (2 ^ (52 - low) - 1) * 2 ^ low := by
    rw [Nat.sub_mul, ← Nat.pow_add, Nat.sub_add_cancel ordered, Nat.one_mul]
  rw [span, Nat.testBit_and, Nat.testBit_mul_two_pow, Nat.testBit_mul_two_pow,
    Nat.testBit_two_pow_sub_one, Nat.testBit_div_two_pow, Nat.testBit_mod_two_pow]
  by_cases above : low ≤ bit
  · have place : bit - low + low = bit := Nat.sub_add_cancel above
    have same : decide (bit - low < 52 - low) = decide (bit < 52) := by
      congr 1
      apply propext
      omega
    simp [above, place, same, Bool.and_comm]
  · simp [above]

theorem and_bit (value bit : Nat) :
    value &&& 1 <<< bit = if value.testBit bit then 1 <<< bit else 0 := by
  rw [Nat.one_shiftLeft]
  apply Nat.eq_of_testBit_eq
  intro place
  rw [Nat.testBit_and, Nat.testBit_two_pow]
  by_cases here : bit = place
  · subst here
    cases value.testBit bit <;> simp
  · have apart : (2 ^ bit).testBit place = false := by
      rw [Nat.testBit_two_pow, decide_eq_false here]
    split <;> simp [here, apart]

theorem and_flag (word : UInt64) (flag : Flag) :
    word &&& flag.mask = 0 ∨ word &&& flag.mask = flag.mask := by
  have bit : ∃ bit, flag.mask.toNat = 1 <<< bit := by
    cases flag
    · exact ⟨0, rfl⟩
    · exact ⟨1, rfl⟩
    · exact ⟨2, rfl⟩
    · exact ⟨3, rfl⟩
    · exact ⟨4, rfl⟩
    · exact ⟨5, rfl⟩
    · exact ⟨6, rfl⟩
    · exact ⟨7, rfl⟩
    · exact ⟨8, rfl⟩
    · exact ⟨63, rfl⟩
  obtain ⟨bit, mask_eq⟩ := bit
  simp only [← UInt64.toNat_inj, UInt64.toNat_and, mask_eq, and_bit]
  split
  next => exact .inr rfl
  next => exact .inl rfl

namespace Attribute

def Defined (attr : Attribute) : Prop := attr.bits &&& all.bits = attr.bits

def advance (attr : Attribute) (distance : Nat) : Attribute :=
  attr.withBase (attr.base + .ofNat distance)

variable {attr requested mask left right : Attribute}

theorem ext_base_rights (base : left.base = right.base) (rights : left.rights = right.rights) :
    left = right := by
  have bits : left.bits = right.bits := by
    rw [← and_or_and_not left.bits baseMask, ← and_or_and_not right.bits baseMask]
    exact congr (congrArg _ base) rights
  cases left
  cases right
  exact congrArg Attribute.mk bits

@[simp] theorem base_withBase (base : UInt64) : (attr.withBase base).base = base &&& baseMask := by
  rw [Attribute.base, withBase, or_and_distrib, UInt64.and_assoc, UInt64.not_and_self,
    UInt64.and_zero, UInt64.zero_or, UInt64.and_assoc, UInt64.and_self]

@[simp] theorem rights_withBase (base : UInt64) : (attr.withBase base).rights = attr.rights := by
  rw [rights, withBase, or_and_distrib, UInt64.and_assoc, UInt64.and_self, UInt64.and_assoc,
    UInt64.and_not_self, UInt64.and_zero, UInt64.or_zero, rights]

theorem toNat_and_baseMask (word : UInt64) :
    (word &&& baseMask).toNat = word.toNat % spaceSize / pageBytes * pageBytes := by
  rw [UInt64.toNat_and]
  exact and_span word.toNat 12 (by decide)

theorem and_baseMask {word : UInt64} (aligned : word.toNat % pageBytes = 0)
    (small : word.toNat < spaceSize) : word &&& baseMask = word := by
  apply UInt64.toNat_inj.mp
  rw [toNat_and_baseMask, Nat.mod_eq_of_lt small]
  exact Nat.div_mul_cancel (Nat.dvd_of_mod_eq_zero aligned)

theorem toNat_base : attr.base.toNat = attr.bits.toNat % spaceSize / pageBytes * pageBytes :=
  toNat_and_baseMask attr.bits

theorem base_aligned (attr : Attribute) : attr.base.toNat % pageBytes = 0 := by
  rw [toNat_base]
  exact Nat.mul_mod_left _ _

theorem base_lt (attr : Attribute) : attr.base.toNat < spaceSize := by
  rw [toNat_base]
  apply Nat.lt_of_le_of_lt (Nat.div_mul_le_self _ _)
  exact Nat.mod_lt _ (by decide)

theorem toNat_base_advance {distance : Nat} (aligned : distance % pageBytes = 0) :
    (attr.advance distance).base.toNat = (attr.base.toNat + distance) % spaceSize := by
  have base := base_aligned attr
  rw [advance, base_withBase, toNat_and_baseMask, UInt64.toNat_add, UInt64.toNat_ofNat']
  simp only [pageBytes, spaceSize, Nat.reduceShiftLeft] at *
  omega

@[simp] theorem rights_advance (distance : Nat) : (attr.advance distance).rights = attr.rights :=
  rights_withBase _

theorem advance_advance {near far : Nat} (near_aligned : near % pageBytes = 0)
    (far_aligned : far % pageBytes = 0) :
    (attr.advance near).advance far = attr.advance (near + far) := by
  have aligned : (near + far) % pageBytes = 0 := by
    rw [Nat.add_mod, near_aligned, far_aligned]
    rfl
  apply ext_base_rights
  · apply UInt64.toNat_inj.mp
    rw [toNat_base_advance far_aligned, toNat_base_advance near_aligned,
      toNat_base_advance aligned, Nat.mod_add_mod, Nat.add_assoc]
  · simp only [rights_advance]

theorem and_flag_of_has {flag : Flag} (set : attr.has flag = true) :
    attr.bits &&& flag.mask = flag.mask := by
  apply (and_flag attr.bits flag).resolve_left
  intro clear
  rw [has, clear] at set
  cases set

theorem has_eq (flag : Flag) : attr.has flag = (attr.rights &&& flag.mask != 0) := by
  have right : ~~~baseMask &&& flag.mask = flag.mask := by
    cases flag <;> decide
  rw [has, rights, UInt64.and_assoc, right]

theorem has_congr (rights : left.rights = right.rights) (flag : Flag) :
    left.has flag = right.has flag := by
  rw [has_eq, has_eq, rights]

@[simp] theorem has_advance (distance : Nat) (flag : Flag) :
    (attr.advance distance).has flag = attr.has flag :=
  has_congr (rights_advance distance) flag

theorem Defined.withBase (defined : attr.Defined) (base : UInt64) :
    (attr.withBase base).Defined := by
  have inner : ~~~baseMask &&& all.bits = all.bits &&& ~~~baseMask := UInt64.and_comm _ _
  have outer : baseMask &&& all.bits = baseMask := by decide
  rw [Defined, Attribute.withBase, or_and_distrib, UInt64.and_assoc, inner, ← UInt64.and_assoc,
    UInt64.and_assoc base, outer]
  rw [Defined] at defined
  rw [defined]

theorem Defined.advance (defined : attr.Defined) (distance : Nat) :
    (attr.advance distance).Defined :=
  defined.withBase _

theorem Defined.update (defined : attr.Defined) (fresh : requested.Defined) :
    (attr.update requested mask).Defined := by
  rw [Defined] at defined fresh ⊢
  have start : (if mask.includesBase then 0 else attr.bits) &&& all.bits =
      if mask.includesBase then 0 else attr.bits := by
    split
    next => exact UInt64.zero_and
    next => exact defined
  rw [Attribute.update, or_and_distrib, UInt64.and_assoc, UInt64.and_comm (~~~mask.bits),
    ← UInt64.and_assoc, start, UInt64.and_assoc requested.bits, UInt64.and_comm mask.bits,
    ← UInt64.and_assoc, fresh]

/-- A mask selects the base address or leaves it. -/
def Whole (mask : Attribute) : Prop := mask.base = baseMask ∨ mask.base = 0

theorem includesBase_eq (whole : mask.Whole) : mask.includesBase = false ↔ mask.base = 0 := by
  rw [includesBase, beq_eq_false_iff_ne]
  constructor
  · intro other
    exact whole.resolve_left other
  · intro none
    rw [none]
    decide

theorem base_update_of_includes (includes : mask.includesBase = true) :
    (attr.update requested mask).base = requested.base := by
  have all : mask.bits &&& baseMask = baseMask := by
    simpa [includesBase, Attribute.base] using includes
  rw [Attribute.base, update, if_pos includes, UInt64.zero_and, UInt64.zero_or, UInt64.and_assoc,
    all, Attribute.base]

theorem base_update_of_leaves (none : mask.base = 0) :
    (attr.update requested mask).base = attr.base := by
  have leaves : mask.includesBase = false := (includesBase_eq (.inr none)).mpr none
  have apart : baseMask &&& mask.bits = 0 := by
    rw [UInt64.and_comm]
    exact none
  rw [Attribute.base, update, leaves, or_and_distrib, UInt64.and_assoc,
    UInt64.and_comm (~~~mask.bits), and_not_of_apart apart, UInt64.and_assoc requested.bits,
    UInt64.and_comm mask.bits, apart, UInt64.and_zero, UInt64.or_zero]
  rfl

theorem rights_update : (attr.update requested mask).rights =
    ((if mask.includesBase then 0 else attr.rights) &&& ~~~mask.bits) |||
      (requested.rights &&& mask.bits) := by
  have start : (if mask.includesBase then 0 else attr.bits) &&& ~~~baseMask =
      if mask.includesBase then 0 else attr.rights := by
    split
    next => exact UInt64.zero_and
    next => rfl
  rw [rights, update, or_and_distrib, UInt64.and_assoc, UInt64.and_comm (~~~mask.bits),
    ← UInt64.and_assoc, start, UInt64.and_assoc requested.bits, UInt64.and_comm mask.bits,
    ← UInt64.and_assoc]
  rfl

theorem has_update {flag : Flag} (selected : mask.has flag = true) :
    (attr.update requested mask).has flag = requested.has flag := by
  have whole : mask.bits &&& flag.mask = flag.mask := and_flag_of_has selected
  have cleared : ~~~mask.bits &&& flag.mask = 0 := by
    rw [← whole, ← UInt64.and_assoc, UInt64.not_and_self, UInt64.zero_and]
  rw [has, update, or_and_distrib, UInt64.and_assoc, cleared, UInt64.and_zero, UInt64.zero_or,
    UInt64.and_assoc, whole]
  rfl

/-- A field that is not selected stays, or is cleared with a new base address. -/
theorem has_update_of_unselected {flag : Flag} (unselected : mask.has flag = false) :
    (attr.update requested mask).has flag = (attr.has flag && !mask.includesBase) := by
  have apart : mask.bits &&& flag.mask = 0 := by simpa [has] using unselected
  have outside : ~~~mask.bits &&& flag.mask = flag.mask := by
    rw [UInt64.and_comm, and_not_of_apart ((UInt64.and_comm _ _).trans apart)]
  rw [has, update, or_and_distrib, UInt64.and_assoc, outside, UInt64.and_assoc, apart,
    UInt64.and_zero, UInt64.or_zero]
  cases mask.includesBase with
  | false => exact (Bool.and_true _).symm
  | true =>
      rw [if_pos rfl, UInt64.zero_and]
      exact (Bool.and_false _).symm

theorem update_and_not (leaves : mask.includesBase = false) :
    (attr.update requested mask).bits &&& ~~~mask.bits = attr.bits &&& ~~~mask.bits := by
  rw [update, leaves, if_neg Bool.false_ne_true, or_and_distrib, UInt64.and_assoc,
    UInt64.and_self, UInt64.and_assoc, UInt64.and_not_self, UInt64.and_zero, UInt64.or_zero]

theorem update_of_includes (includes : mask.includesBase = true) (other : Attribute) :
    attr.update requested mask = other.update requested mask := by
  rw [update, update, if_pos includes, if_pos includes]

/-- An update changes nothing the second time, also if between the two only the bits of `keep`
were kept, and the attribute had no others. -/
theorem update_kept {keep : UInt64} (kept : attr.bits &&& keep = attr.bits) :
    (⟨(attr.update requested mask).bits &&& keep⟩ : Attribute).update requested mask =
      attr.update requested mask := by
  cases includes : mask.includesBase with
  | true => exact update_of_includes includes _
  | false =>
      have again : (attr.update requested mask).bits &&& keep &&& ~~~mask.bits =
          attr.bits &&& ~~~mask.bits := by
        rw [UInt64.and_assoc, UInt64.and_comm keep, ← UInt64.and_assoc, update_and_not includes,
          UInt64.and_assoc, UInt64.and_comm (~~~mask.bits), ← UInt64.and_assoc, kept]
      rw [update, includes, if_neg Bool.false_ne_true, again, update, includes,
        if_neg Bool.false_ne_true]

end Attribute

end Remap.PageTable
