import Remap.Block.Layout.Span

/-!
# Geometry of an arena

An arena holds, in this order, an info block, the flog, the map, the data blocks
and a copy of the info block. Flog and map start at multiples of 4 KiB, so how
many data blocks fit has no closed form; the count is the largest one that does,
found by bisection.
-/

namespace Remap.Block

def maxInternalBlocks : Nat := 1 <<< 30

/-- The largest number in `[low, high)` that `fits`, for a predicate that holds
at `low` and, once it fails, fails for all larger numbers. -/
def largestFitting (fits : Nat → Bool) (low high : Nat) : Nat :=
  if low + 1 < high then
    let middle := (low + high) / 2
    if fits middle then largestFitting fits middle high
    else largestFitting fits low middle
  else
    low
termination_by high - low
decreasing_by all_goals omega

theorem largestFitting_fits {fits : Nat → Bool} {low high : Nat}
    (holds : fits low = true) : fits (largestFitting fits low high) = true := by
  fun_induction largestFitting fits low high with
  | case1 low high wide middle fitting induction => exact induction fitting
  | case2 low high wide middle tooLarge induction => exact induction holds
  | case3 low high narrow => exact holds

theorem le_largestFitting {fits : Nat → Bool} {low high count : Nat}
    (closed : ∀ small large, small ≤ large → fits large = true → fits small = true)
    (below : count < high) (fitting : fits count = true) :
    count ≤ largestFitting fits low high := by
  fun_induction largestFitting fits low high with
  | case1 low high wide middle _ induction => exact induction below
  | case2 low high wide middle tooLarge induction =>
      refine induction (Nat.lt_of_not_le fun ordered => tooLarge ?_)
      exact closed middle count ordered fitting
  | case3 low high narrow => omega

structure Geometry where
  external : Nat
  internal : Nat
  nfree : Nat
  flogOffset : Nat
  mapOffset : Nat
  dataOffset : Nat
  infoOffset : Nat
deriving DecidableEq, Repr

namespace Geometry

/-- Bytes of the map when there are `internal` data blocks; one entry more than
needed is counted. -/
def mapBytes (nfree internal : Nat) : Nat :=
  alignUp ((internal + 1 - nfree) * mapEntryBytes) regionAlignment

def fits (nfree blockSize budget internal : Nat) : Bool :=
  mapBytes nfree internal + internal * blockSize ≤ budget

theorem fits_of_le {nfree blockSize budget small large : Nat} (ordered : small ≤ large)
    (fitting : fits nfree blockSize budget large = true) :
    fits nfree blockSize budget small = true := by
  have blocks : small * blockSize ≤ large * blockSize := Nat.mul_le_mul_right _ ordered
  have map : mapBytes nfree small ≤ mapBytes nfree large :=
    alignUp_shift_mono 12 (Nat.mul_le_mul_right _ (by omega))
  simp only [fits, decide_eq_true_eq] at fitting ⊢
  omega

def compute (arenaSize nfree blockSize : Nat) : Except LayoutError Geometry := do
  if nfree = 0 then
    throw .noFreeBlocks
  let flogOffset := infoBlockBytes
  let mapOffset := flogOffset + alignUp (nfree * flogSlotBytes) regionAlignment
  let infoOffset := arenaSize - infoBlockBytes
  if infoOffset < mapOffset then
    throw (.noRoomForFlog arenaSize nfree)
  let budget := infoOffset - mapOffset
  let internal := min maxInternalBlocks
    (largestFitting (fits nfree blockSize budget) 0 (budget + nfree + 1))
  if internal ≤ nfree then
    throw (.noRoomForBlocks arenaSize)
  let external := internal - nfree
  if external < nfree then
    throw (.fewerBlocksThanSlots arenaSize external nfree)
  let dataOffset := mapOffset + mapBytes nfree internal
  return { external, internal, nfree, flogOffset, mapOffset, dataOffset, infoOffset }

end Geometry

end Remap.Block
