import Mathlib.Order.Bounds.Basic
import Remap.Proofs.Block.Layout
import Remap.Proofs.Block.Layout.Checked

/-!
# The most data blocks

The number of data blocks of an arena is searched by stepping down and then up from an estimate.
The search ends without an overflow at the one number that fits and whose successor does not, which
is the largest that fits, and which halving finds too. An arena can be laid out if and only if this
number leaves as many external blocks as there are free ones.
-/

namespace Remap.Block.Geometry

/-! The layout as it is computed in words, where `none` is an overflow. The search starts at an
estimate that counts a map entry for every data block. -/

def mapBytesChecked (nfree internal : Nat) : Option Nat := do
  Word.alignUp (← Word.mul ((← Word.add internal 1) - nfree) mapEntryBytes) regionAlignment

def fitsChecked (nfree blockSize budget internal : Nat) : Option Bool := do
  let total ← Word.add (← mapBytesChecked nfree internal) (← Word.mul internal blockSize)
  return total ≤ budget

def stepDown (fits : Nat → Option Bool) : (count : Nat) → Option Nat
  | 0 => some 0
  | count + 1 => do if ← fits (count + 1) then return count + 1 else stepDown fits count

def stepUp (fits : Nat → Option Bool) (count : Nat) : Option Nat :=
  if count + 1 < Word.limit then do
    if ← fits (count + 1) then stepUp fits (count + 1) else return count
  else
    none
termination_by Word.limit - count

def ofBlocksChecked (arenaSize nfree mapOffset internal : Nat) :
    Option (Except LayoutError Geometry) :=
  if internal ≤ nfree then
    return .error (.noRoomForBlocks arenaSize)
  else do
    let external ← Word.sub internal nfree
    if external < nfree then
      return .error (.fewerBlocksThanSlots arenaSize external nfree)
    else
      let dataOffset ← Word.add mapOffset (← mapBytesChecked nfree internal)
      return .ok {
        external
        internal
        nfree
        flogOffset := infoBlockBytes
        mapOffset
        dataOffset
        infoOffset := arenaSize - infoBlockBytes }

def computeChecked (arenaSize nfree blockSize : Nat) : Option (Except LayoutError Geometry) :=
  if nfree = 0 then
    return .error .noFreeBlocks
  else do
    let flogBytes ← Word.alignUp (← Word.mul nfree flogSlotBytes) regionAlignment
    let mapOffset ← Word.add infoBlockBytes flogBytes
    let infoOffset := arenaSize - infoBlockBytes
    if infoOffset < mapOffset then
      return .error (.noRoomForFlog arenaSize nfree)
    else
      let budget ← Word.sub infoOffset mapOffset
      let fits := fitsChecked nfree blockSize budget
      let estimate := budget / (← Word.add blockSize mapEntryBytes)
      let most ← stepUp fits (← stepDown fits estimate)
      ofBlocksChecked arenaSize nfree mapOffset (min maxInternalBlocks most)

section Search

variable {fits : Nat → Bool} {checked : Nat → Option Bool} {count : Nat}

/-- Stepping down ends at a number that fits if 0 does. -/
theorem stepDown_fits (zero : fits 0 = true)
    (same : ∀ number, number ≤ count → checked number = some (fits number)) :
    ∃ found, stepDown checked count = some found ∧ fits found = true := by
  induction count with
  | zero => exact ⟨0, rfl, zero⟩
  | succ count induction =>
      rw [stepDown, same (count + 1) (Nat.le_refl _)]
      dsimp only [bind, Option.bind]
      cases fitting : fits (count + 1) with
      | true => exact ⟨count + 1, rfl, fitting⟩
      | false =>
          rw [if_neg Bool.false_ne_true]
          exact induction fun number inside => same number (Nat.le_succ_of_le inside)

/-- Stepping up from a number that fits ends at one whose successor does not, as only words can
fit. -/
theorem stepUp_fits (words : ∀ number, fits number = true → number + 1 < Word.limit)
    (same : ∀ number, fits number = true → checked (number + 1) = some (fits (number + 1)))
    (fitting : fits count = true) :
    ∃ found, stepUp checked count = some found ∧ fits found = true ∧
      fits (found + 1) = false := by
  induction gap : Word.limit - count using Nat.strongRecOn generalizing count with
  | ind distance induction =>
      have inside := words count fitting
      rw [stepUp, if_pos inside, same count fitting]
      dsimp only [bind, Option.bind]
      cases next : fits (count + 1) with
      | true =>
          rw [if_pos rfl]
          exact induction _ (by omega) next rfl
      | false => exact ⟨count, rfl, fitting, next⟩

theorem isGreatest_of_next
    (closed : ∀ small large, small ≤ large → fits large = true → fits small = true)
    (fitting : fits count = true) (next : fits (count + 1) = false) :
    IsGreatest {number | fits number = true} count := by
  refine ⟨fitting, fun number also => Nat.le_of_not_lt fun beyond => ?_⟩
  rw [closed (count + 1) number beyond also] at next
  cases next

end Search

section Fits

variable {nfree blockSize budget count : Nat}

theorem mapBytes_lt :
    mapBytes nfree count < (count + 1 - nfree) * mapEntryBytes + regionAlignment := by
  have lower := alignDown_le ((count + 1 - nfree) * mapEntryBytes + regionAlignment - 1)
    regionAlignment
  have positive : 0 < regionAlignment := by decide
  rw [mapBytes, alignUp]
  omega

theorem of_fits (fitting : fits nfree blockSize budget count = true) :
    count * blockSize ≤ budget ∧ (count + 1 - nfree) * mapEntryBytes ≤ budget := by
  have entries : (count + 1 - nfree) * mapEntryBytes ≤ mapBytes nfree count :=
    (alignUp_region _).2
  simp only [fits, decide_eq_true_eq] at fitting
  omega

theorem le_of_fits (sized : 0 < blockSize) (fitting : fits nfree blockSize budget count = true) :
    count ≤ budget :=
  Nat.le_trans (Nat.le_mul_of_pos_right count sized) (of_fits fitting).1

theorem mapBytesChecked_eq (inside : count + 1 < Word.limit)
    (entries : (count + 1 - nfree) * mapEntryBytes + regionAlignment < Word.limit) :
    mapBytesChecked nfree count = some (mapBytes nfree count) := by
  rw [mapBytesChecked, Word.add_eq inside]
  dsimp only [bind, Option.bind]
  rw [Word.mul_eq (by omega)]
  exact Word.alignUp_eq entries (by decide)

variable (small : budget < 1 <<< 62) (narrow : blockSize < 1 <<< 32)

include small narrow

theorem fitsChecked_eq (inside : count ≤ budget + 1)
    (blocks : count * blockSize ≤ budget + blockSize)
    (entries : (count + 1 - nfree) * mapEntryBytes ≤ budget + mapEntryBytes) :
    fitsChecked nfree blockSize budget count = some (fits nfree blockSize budget count) := by
  have map_lt : mapBytes nfree count < _ := mapBytes_lt
  simp only [Nat.reduceShiftLeft] at small narrow
  have total : mapBytes nfree count + count * blockSize < Word.limit := by
    simp only [mapEntryBytes, regionAlignment, Word.limit, Nat.reduceShiftLeft] at *
    omega
  have rounded : (count + 1 - nfree) * mapEntryBytes + regionAlignment < Word.limit := by
    simp only [mapEntryBytes, regionAlignment, Word.limit, Nat.reduceShiftLeft] at *
    omega
  have next : count + 1 < Word.limit := by
    simp only [Word.limit, Nat.reduceShiftLeft]
    omega
  rw [fitsChecked, mapBytesChecked_eq next rounded, Word.mul_eq (by omega)]
  dsimp only [bind, Option.bind]
  rw [Word.add_eq total]
  rfl

/-- The estimate counts the map entries of all blocks, so nothing overflows from there on down. -/
theorem fitsChecked_of_le_estimate (positive : 0 < nfree)
    (below : count ≤ budget / (blockSize + mapEntryBytes)) :
    fitsChecked nfree blockSize budget count = some (fits nfree blockSize budget count) := by
  have whole := (Nat.le_div_iff_mul_le (Nat.add_pos_right blockSize (by decide))).mp below
  have entries : (count + 1 - nfree) * mapEntryBytes ≤ count * mapEntryBytes :=
    Nat.mul_le_mul_right _ (by omega)
  have fewer : count ≤ budget := Nat.le_trans below (Nat.div_le_self _ _)
  rw [Nat.mul_add] at whole
  apply fitsChecked_eq small narrow <;> omega

/-- The search ends without an overflow, at the largest number of blocks that fits. -/
theorem search_greatest (positive : 0 < nfree) (sized : 0 < blockSize) :
    ∃ lower found,
      stepDown (fitsChecked nfree blockSize budget) (budget / (blockSize + mapEntryBytes)) =
        some lower ∧
      stepUp (fitsChecked nfree blockSize budget) lower = some found ∧
      IsGreatest {number | fits nfree blockSize budget number = true} found := by
  obtain ⟨lower, down, fitting⟩ := stepDown_fits (fits_zero positive)
    fun number => fitsChecked_of_le_estimate small narrow positive
  have words (number : Nat) (also : fits nfree blockSize budget number = true) :
      number + 1 < Word.limit := by
    have := le_of_fits sized also
    simp only [Word.limit, Nat.reduceShiftLeft] at *
    omega
  have same (number : Nat) (also : fits nfree blockSize budget number = true) :
      fitsChecked nfree blockSize budget (number + 1) =
        some (fits nfree blockSize budget (number + 1)) := by
    obtain ⟨blocks, entries⟩ := of_fits also
    have fewer := le_of_fits sized also
    apply fitsChecked_eq small narrow
    · omega
    · rw [Nat.succ_mul]
      omega
    · have next : number + 1 + 1 - nfree ≤ number + 1 - nfree + 1 := by omega
      have more := Nat.mul_le_mul_right mapEntryBytes next
      rw [Nat.succ_mul] at more
      omega
  obtain ⟨found, up, fitting, next⟩ := stepUp_fits words same fitting
  exact ⟨lower, found, down, up, isGreatest_of_next (fun _ _ => fits_of_le) fitting next⟩

end Fits

theorem largestFitting_greatest {nfree blockSize : Nat} (budget : Nat) (positive : 0 < nfree)
    (sized : 0 < blockSize) :
    IsGreatest {number | fits nfree blockSize budget number = true}
      (largestFitting (fits nfree blockSize budget) 0 (budget + nfree + 1)) := by
  refine ⟨largestFitting_fits (fits_zero positive), fun number fitting => ?_⟩
  have fewer := le_of_fits sized fitting
  exact le_largestFitting (fun _ _ => fits_of_le) (by omega) fitting

section Compute

variable {arenaSize nfree blockSize : Nat}

theorem flogBytes_lt (few : nfree < 1 <<< 32) :
    nfree * flogSlotBytes + regionAlignment < 1 <<< 39 ∧
      alignUp (nfree * flogSlotBytes) regionAlignment < 1 <<< 39 := by
  have lower := alignDown_le (nfree * flogSlotBytes + regionAlignment - 1) regionAlignment
  rw [alignUp]
  simp only [flogSlotBytes, regionAlignment, Nat.reduceShiftLeft] at *
  omega

theorem ofBlocksChecked_eq {mapOffset internal : Nat} (small : internal ≤ maxInternalBlocks)
    (inside : mapOffset + mapBytes nfree internal < Word.limit) :
    ofBlocksChecked arenaSize nfree mapOffset internal =
      some (ofBlocks arenaSize nfree mapOffset internal) := by
  rw [ofBlocksChecked, ofBlocks]
  split
  next => rfl
  next more =>
    rw [Word.sub_eq (Nat.le_of_not_le more), Option.bind_eq_bind, Option.bind_some]
    split
    next => rfl
    next =>
      have words : (maxInternalBlocks + 1) * mapEntryBytes + regionAlignment < Word.limit := by
        decide
      have entries : (internal + 1 - nfree) * mapEntryBytes ≤
          (maxInternalBlocks + 1) * mapEntryBytes := Nat.mul_le_mul_right _ (by omega)
      have next : internal + 1 < Word.limit :=
        Nat.lt_of_le_of_lt (Nat.succ_le_succ small) (by decide)
      rw [mapBytesChecked_eq next (by omega), Option.bind_some, Word.add_eq inside,
        Option.bind_some]
      rfl

/-- Neither the search nor what comes before and after it overflows. -/
theorem computeChecked_eq (small : arenaSize < 1 <<< 62) (few : nfree < 1 <<< 32)
    (narrow : blockSize < 1 <<< 32) (sized : 0 < blockSize) :
    computeChecked arenaSize nfree blockSize = some (compute arenaSize nfree blockSize) := by
  rw [computeChecked]
  by_cases none : nfree = 0
  · rw [if_pos none, none]
    rfl
  have positive := Nat.pos_of_ne_zero none
  obtain ⟨slots, flogBytes⟩ := flogBytes_lt few
  have words : 1 <<< 39 + infoBlockBytes < Word.limit := by decide
  simp only [Option.bind_eq_bind]
  rw [if_neg none, Word.mul_eq (by omega), Option.bind_some,
    Word.alignUp_eq (by omega) (by decide), Option.bind_some, Word.add_eq (by omega),
    Option.bind_some, ← mapStart]
  by_cases crowded : arenaSize - infoBlockBytes < mapStart nfree
  · rw [compute_crowded positive crowded]
    rw [if_pos crowded]
    rfl
  have room := Nat.le_of_not_lt crowded
  have budget_lt : arenaSize - infoBlockBytes - mapStart nfree < 1 <<< 62 := by omega
  have divisor : blockSize + mapEntryBytes < Word.limit := by
    simp only [mapEntryBytes, Word.limit, Nat.reduceShiftLeft] at *
    omega
  obtain ⟨lower, found, down, up, greatest⟩ := search_greatest budget_lt narrow positive sized
  have fitting := fits_of_le (Nat.min_le_right maxInternalBlocks found) greatest.1
  rw [compute_eq positive room, (largestFitting_greatest _ positive sized).unique greatest]
  rw [if_neg crowded, Word.sub_eq room, Option.bind_some, Word.add_eq divisor, Option.bind_some,
    down, Option.bind_some, up, Option.bind_some]
  apply ofBlocksChecked_eq (Nat.min_le_left _ _)
  simp only [fits, decide_eq_true_eq] at fitting
  have inside : 1 <<< 62 < Word.limit := by decide
  omega

end Compute

def roundedUp (value : Nat) : Nat := (value + 4095) / 4096 * 4096

theorem alignUp_eq_roundedUp (value : Nat) : alignUp value regionAlignment = roundedUp value := by
  change alignDown (value + 4095) (1 <<< 12) = roundedUp value
  rw [alignDown_shift]
  rfl

/-- The largest number of data blocks, among those that map entries can name, that fit with their
map between the flog and the copy of the info block. -/
def MostBlocks (arenaSize nfree blockSize internal : Nat) : Prop :=
  ∃ budget largest,
    infoBlockBytes + roundedUp (nfree * flogSlotBytes) + budget + infoBlockBytes = arenaSize ∧
    IsGreatest {count | roundedUp ((count + 1 - nfree) * mapEntryBytes) + count * blockSize ≤
      budget} largest ∧
    internal = min maxInternalBlocks largest

structure Regions (geometry : Geometry) (arenaSize nfree blockSize : Nat) : Prop where
  nfree_eq : geometry.nfree = nfree
  external_eq : geometry.external = geometry.internal - nfree
  flog_eq : geometry.flogOffset = infoBlockBytes
  flog_before : geometry.flogOffset < geometry.mapOffset
  map_before : geometry.mapOffset < geometry.dataOffset
  data_before : geometry.dataOffset < geometry.infoOffset
  flog_room : geometry.flogOffset + nfree * flogSlotBytes ≤ geometry.mapOffset
  map_room : geometry.mapOffset + geometry.external * mapEntryBytes ≤ geometry.dataOffset
  data_room : geometry.dataOffset + geometry.internal * blockSize ≤ geometry.infoOffset
  info_end : geometry.infoOffset + infoBlockBytes = arenaSize

section Maximal

variable {arenaSize nfree blockSize : Nat} {geometry : Geometry}

theorem Sound.regions (sound : geometry.Sound arenaSize nfree blockSize) (sized : 0 < blockSize) :
    geometry.Regions arenaSize nfree blockSize := by
  have slots := sound.nfree_pos
  have internal := sound.internal_eq
  have flog := sound.flog_end
  have map := sound.map_end
  have data := sound.data_end
  have first := sound.flog_eq
  have last := sound.info_eq
  have blocks : geometry.internal ≤ geometry.internal * blockSize :=
    Nat.le_mul_of_pos_right _ sized
  simp only [infoBlockBytes, flogSlotBytes, mapEntryBytes] at first flog map last
  constructor
  case nfree_eq => exact sound.nfree_eq
  case external_eq => omega
  case flog_eq => exact sound.flog_eq
  case flog_before => omega
  case map_before => omega
  case data_before => omega
  case flog_room => exact sound.flog_end
  case map_room => rw [mapEntryBytes]; omega
  case data_room => exact data
  case info_end => rw [infoBlockBytes]; omega

theorem MostBlocks.room {internal : Nat} (most : MostBlocks arenaSize nfree blockSize internal) :
    mapStart nfree ≤ arenaSize - infoBlockBytes := by
  obtain ⟨budget, -, parts, -⟩ := most
  rw [mapStart, alignUp_eq_roundedUp]
  omega

theorem mostBlocks_iff (positive : 0 < nfree) (sized : 0 < blockSize)
    (room : mapStart nfree ≤ arenaSize - infoBlockBytes) {internal : Nat} :
    MostBlocks arenaSize nfree blockSize internal ↔
      internal = min maxInternalBlocks (largestFitting
        (fits nfree blockSize (arenaSize - infoBlockBytes - mapStart nfree)) 0
        (arenaSize - infoBlockBytes - mapStart nfree + nfree + 1)) := by
  have found := largestFitting_greatest (arenaSize - infoBlockBytes - mapStart nfree) positive
    sized
  have start : mapStart nfree = infoBlockBytes + roundedUp (nfree * flogSlotBytes) := by
    rw [mapStart, alignUp_eq_roundedUp]
  have early : infoBlockBytes ≤ mapStart nfree := Nat.le_add_right _ _
  have same (budget : Nat) : {count | fits nfree blockSize budget count = true} =
      {count | roundedUp ((count + 1 - nfree) * mapEntryBytes) + count * blockSize ≤ budget} := by
    ext count
    rw [Set.mem_ofPred_eq, Set.mem_ofPred_eq, fits, decide_eq_true_eq, mapBytes,
      alignUp_eq_roundedUp]
  rw [same] at found
  constructor
  · rintro ⟨budget, largest, parts, greatest, rfl⟩
    have budget_eq : arenaSize - infoBlockBytes - mapStart nfree = budget := by omega
    rw [budget_eq] at found ⊢
    rw [greatest.unique found]
  · rintro rfl
    exact ⟨_, _, by omega, found, rfl⟩

theorem compute_ok_iff (sized : 0 < blockSize) :
    (∃ geometry, compute arenaSize nfree blockSize = .ok geometry) ↔
      1 ≤ nfree ∧ ∃ most, MostBlocks arenaSize nfree blockSize most ∧ 2 * nfree ≤ most := by
  by_cases none : nfree = 0
  · rw [none, compute_none]
    exact iff_of_false (fun ⟨_, made⟩ => by cases made) (by omega)
  have positive := Nat.pos_of_ne_zero none
  by_cases crowded : arenaSize - infoBlockBytes < mapStart nfree
  · rw [compute_crowded positive crowded]
    refine iff_of_false (fun ⟨_, made⟩ => by cases made) ?_
    rintro ⟨-, internal, most, -⟩
    exact Nat.not_le_of_lt crowded most.room
  have room := Nat.le_of_not_lt crowded
  rw [compute_eq positive room, ofBlocks_ok]
  simp only [mostBlocks_iff positive sized room, exists_eq_left]
  omega

theorem internal_of_compute (sized : 0 < blockSize)
    (computed : compute arenaSize nfree blockSize = .ok geometry) :
    MostBlocks arenaSize nfree blockSize geometry.internal := by
  obtain ⟨positive, room, made⟩ := compute_made computed
  obtain ⟨-, -, rfl⟩ := ofBlocks_made made
  exact (mostBlocks_iff positive sized room).mpr rfl

end Maximal

/-- Computing a layout goes without an overflow, and gives one if and only if there is a free block,
the arena has the room for the flog, and the most data blocks are two for each free one. The layout
has that number of blocks, in regions that come in order and have the room for what they hold. -/
theorem compute_maximal (arenaSize : Nat) (nfree blockSize : UInt32)
    (small : arenaSize < 1 <<< 62) (sized : 1 ≤ blockSize.toNat) :
    computeChecked arenaSize nfree.toNat blockSize.toNat =
      some (compute arenaSize nfree.toNat blockSize.toNat) ∧
    ((∃ geometry, compute arenaSize nfree.toNat blockSize.toNat = .ok geometry) ↔
      1 ≤ nfree.toNat ∧ ∃ most, MostBlocks arenaSize nfree.toNat blockSize.toNat most ∧
        2 * nfree.toNat ≤ most) ∧
    ∀ geometry, compute arenaSize nfree.toNat blockSize.toNat = .ok geometry →
      MostBlocks arenaSize nfree.toNat blockSize.toNat geometry.internal ∧
        geometry.Regions arenaSize nfree.toNat blockSize.toNat :=
  ⟨computeChecked_eq small nfree.toNat_lt blockSize.toNat_lt sized, compute_ok_iff sized,
    fun _ computed => ⟨internal_of_compute sized computed, (compute_sound computed).regions sized⟩⟩

/-- The smallest arena with blocks of 512 bytes. -/
theorem compute_maximal_smallest :
    computeChecked minArena 1 512 = some (compute minArena 1 512) ∧
      ∃ geometry, compute minArena 1 512 = .ok geometry ∧
        MostBlocks minArena 1 512 geometry.internal ∧ geometry.Regions minArena 1 512 := by
  obtain ⟨ran, -, maximal⟩ := compute_maximal minArena 1 512 (by decide) (by decide)
  obtain ⟨geometry, computed⟩ : ∃ geometry, compute minArena 1 512 = .ok geometry := by
    apply compute_ok <;> decide
  exact ⟨ran, geometry, computed, maximal geometry computed⟩

end Remap.Block.Geometry
