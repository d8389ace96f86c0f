/-!
# Alignment

Every region of an arena starts at a multiple of 4 KiB, and a data block takes a
whole number of cache lines. Both steps are powers of two, so that a value is
rounded down to a multiple by clearing its low bits.
-/

namespace Remap.Block

def alignDown (value step : Nat) : Nat :=
  value - (value &&& (step - 1))

/-- The first value from `value + step - 1` down without the bits of `step - 1`. For a
power of two this is the smallest multiple of `step` from `value` on. -/
def alignUp (value step : Nat) : Nat :=
  alignDown (value + step - 1) step

def regionAlignment : Nat := 4096

def cacheLine : Nat := 64

def infoBlockBytes : Nat := 4096

def mapEntryBytes : Nat := 4

def flogSlotBytes : Nat := 64

def minInternalBlock : Nat := 512

/-- The data block for a block size that callers see: whole cache lines, and at
least 512 bytes. Sizes within a cache line of 2 ^ 32 have no such block and
yield 0. -/
def internalBlockSize (external : UInt32) : UInt32 :=
  UInt32.ofNat (max minInternalBlock (alignUp external.toNat cacheLine))

theorem alignDown_le (value step : Nat) : alignDown value step ≤ value :=
  Nat.sub_le value _

theorem alignDown_shift (value bits : Nat) :
    alignDown value (1 <<< bits) = value / 1 <<< bits * 1 <<< bits := by
  rw [alignDown, Nat.one_shiftLeft, Nat.and_two_pow_sub_one_eq_mod]
  have whole := Nat.div_add_mod value (2 ^ bits)
  rw [Nat.mul_comm] at whole
  omega

theorem le_alignUp {step : Nat} (value : Nat) (positive : 0 < step) :
    value ≤ alignUp value step := by
  have cleared : (value + step - 1) &&& (step - 1) ≤ step - 1 := Nat.and_le_right
  rw [alignUp, alignDown]
  omega

theorem alignUp_shift_mono {small large : Nat} (bits : Nat) (ordered : small ≤ large) :
    alignUp small (1 <<< bits) ≤ alignUp large (1 <<< bits) := by
  rw [alignUp, alignUp, alignDown_shift, alignDown_shift]
  exact Nat.mul_le_mul_right _ (Nat.div_le_div_right (by omega))

end Remap.Block
