import Remap.Block.Device

/-!
# Layouts that were computed

A computed geometry has its regions around the most data blocks that fit, in order and
inside the arena, and planned spans follow one another inside the space. An info block made
from a computed geometry agrees with what the reader of its arena expects.
-/

namespace Remap.Block

theorem alignUp_region (value : Nat) :
    alignUp value regionAlignment % regionAlignment = 0 ∧
      value ≤ alignUp value regionAlignment := by
  refine ⟨?_, le_alignUp value (by decide)⟩
  change alignDown (value + 1 <<< 12 - 1) (1 <<< 12) % 1 <<< 12 = 0
  rw [alignDown_shift]
  exact Nat.mul_mod_left _ _

theorem alignDown_region (value : Nat) :
    alignDown value regionAlignment % regionAlignment = 0 := by
  change alignDown value (1 <<< 12) % 1 <<< 12 = 0
  rw [alignDown_shift]
  exact Nat.mul_mod_left _ _

/-- Whole regions make up the smallest arena, so what makes an arena still does when it is rounded
down. -/
theorem minArena_le_alignDown {value : Nat} (large : minArena ≤ value) :
    minArena ≤ alignDown value regionAlignment := by
  change minArena ≤ alignDown value (1 <<< 12)
  rw [alignDown_shift]
  simp only [minArena, Nat.reduceShiftLeft] at large ⊢
  omega

namespace Geometry

structure Sound (geometry : Geometry) (size nfree blockSize : Nat) : Prop where
  nfree_eq : geometry.nfree = nfree
  nfree_pos : 0 < nfree
  internal_eq : geometry.internal = geometry.external + nfree
  nfree_le : nfree ≤ geometry.external
  internal_le : geometry.internal ≤ maxInternalBlocks
  flog_eq : geometry.flogOffset = infoBlockBytes
  map_aligned : geometry.mapOffset % regionAlignment = 0
  data_aligned : geometry.dataOffset % regionAlignment = 0
  info_eq : geometry.infoOffset = size - infoBlockBytes
  flog_end : geometry.flogOffset + nfree * flogSlotBytes ≤ geometry.mapOffset
  map_end : geometry.mapOffset + (geometry.external + 1) * mapEntryBytes ≤ geometry.dataOffset
  data_end : geometry.dataOffset + geometry.internal * blockSize ≤ geometry.infoOffset

theorem fits_zero {nfree blockSize budget : Nat} (positive : 0 < nfree) :
    fits nfree blockSize budget 0 = true := by
  have none : 0 + 1 - nfree = 0 := by omega
  simp only [fits, mapBytes, none, Nat.zero_mul, Nat.add_zero]
  simp [alignUp, alignDown, regionAlignment]

def ofBlocks (arenaSize nfree mapOffset internal : Nat) : Except LayoutError Geometry :=
  if internal ≤ nfree then
    .error (.noRoomForBlocks arenaSize)
  else if internal - nfree < nfree then
    .error (.fewerBlocksThanSlots arenaSize (internal - nfree) nfree)
  else
    .ok {
      external := internal - nfree
      internal
      nfree
      flogOffset := infoBlockBytes
      mapOffset
      dataOffset := mapOffset + mapBytes nfree internal
      infoOffset := arenaSize - infoBlockBytes }

def mapStart (nfree : Nat) : Nat :=
  infoBlockBytes + alignUp (nfree * flogSlotBytes) regionAlignment

section Compute

variable {arenaSize nfree blockSize : Nat} {geometry : Geometry}

theorem compute_none : compute arenaSize 0 blockSize = .error .noFreeBlocks := rfl

theorem compute_crowded (positive : 0 < nfree)
    (crowded : arenaSize - infoBlockBytes < mapStart nfree) :
    compute arenaSize nfree blockSize = .error (.noRoomForFlog arenaSize nfree) := by
  rw [mapStart] at crowded
  rw [compute]
  simp only [bind, Except.bind, pure, Except.pure, throw, throwThe, MonadExceptOf.throw]
  rw [if_neg (Nat.ne_of_gt positive), if_pos crowded]

theorem compute_eq (positive : 0 < nfree) (room : mapStart nfree ≤ arenaSize - infoBlockBytes) :
    compute arenaSize nfree blockSize = ofBlocks arenaSize nfree (mapStart nfree)
      (min maxInternalBlocks (largestFitting
        (fits nfree blockSize (arenaSize - infoBlockBytes - mapStart nfree)) 0
        (arenaSize - infoBlockBytes - mapStart nfree + nfree + 1))) := by
  rw [mapStart] at room ⊢
  rw [compute, ofBlocks]
  simp only [bind, Except.bind, pure, Except.pure, throw, throwThe, MonadExceptOf.throw]
  rw [if_neg (Nat.ne_of_gt positive), if_neg (Nat.not_lt.mpr room)]

/-- A layout that was computed has its regions around the most blocks that fit. -/
theorem compute_made (computed : compute arenaSize nfree blockSize = .ok geometry) :
    0 < nfree ∧ mapStart nfree ≤ arenaSize - infoBlockBytes ∧
      ofBlocks arenaSize nfree (mapStart nfree) (min maxInternalBlocks (largestFitting
        (fits nfree blockSize (arenaSize - infoBlockBytes - mapStart nfree)) 0
        (arenaSize - infoBlockBytes - mapStart nfree + nfree + 1))) = .ok geometry := by
  by_cases none : nfree = 0
  · rw [none, compute_none] at computed
    cases computed
  have positive := Nat.pos_of_ne_zero none
  by_cases crowded : arenaSize - infoBlockBytes < mapStart nfree
  · rw [compute_crowded positive crowded] at computed
    cases computed
  have room := Nat.le_of_not_lt crowded
  exact ⟨positive, room, (compute_eq positive room).symm.trans computed⟩

section Blocks

variable {mapOffset internal : Nat}

theorem ofBlocks_ok :
    (∃ geometry, ofBlocks arenaSize nfree mapOffset internal = .ok geometry) ↔
      nfree < internal ∧ 2 * nfree ≤ internal := by
  rw [ofBlocks]
  split
  next few => exact iff_of_false (fun ⟨_, made⟩ => by cases made) (by omega)
  next more =>
    split
    next few => exact iff_of_false (fun ⟨_, made⟩ => by cases made) (by omega)
    next => exact iff_of_true ⟨_, rfl⟩ (by omega)

theorem ofBlocks_made (made : ofBlocks arenaSize nfree mapOffset internal = .ok geometry) :
    nfree < internal ∧ nfree ≤ internal - nfree ∧ geometry = {
      external := internal - nfree
      internal
      nfree
      flogOffset := infoBlockBytes
      mapOffset
      dataOffset := mapOffset + mapBytes nfree internal
      infoOffset := arenaSize - infoBlockBytes } := by
  rw [ofBlocks] at made
  split at made
  next => cases made
  next more =>
    split at made
    next => cases made
    next enough => exact ⟨Nat.lt_of_not_le more, Nat.le_of_not_lt enough, (Except.ok.inj made).symm⟩

theorem ofBlocks_sound (positive : 0 < nfree) (room : mapStart nfree ≤ arenaSize - infoBlockBytes)
    (capped : internal ≤ maxInternalBlocks)
    (fitting : fits nfree blockSize (arenaSize - infoBlockBytes - mapStart nfree) internal = true)
    (made : ofBlocks arenaSize nfree (mapStart nfree) internal = .ok geometry) :
    geometry.Sound arenaSize nfree blockSize := by
  obtain ⟨more, enough, rfl⟩ := ofBlocks_made made
  obtain ⟨flog_aligned, flog_le⟩ := alignUp_region (nfree * flogSlotBytes)
  obtain ⟨map_aligned, map_le⟩ := alignUp_region ((internal + 1 - nfree) * mapEntryBytes)
  have entries : internal + 1 - nfree = internal - nfree + 1 := by omega
  rw [← mapBytes] at map_aligned map_le
  rw [entries] at map_le
  simp only [fits, decide_eq_true_eq] at fitting
  rw [mapStart] at room fitting ⊢
  generalize alignUp (nfree * flogSlotBytes) regionAlignment = flogBytes at *
  simp only [regionAlignment, infoBlockBytes] at *
  exact {
    nfree_eq := rfl
    nfree_pos := positive
    internal_eq := by dsimp only; omega
    nfree_le := enough
    internal_le := capped
    flog_eq := rfl
    map_aligned := by dsimp only [regionAlignment]; omega
    data_aligned := by dsimp only [regionAlignment]; omega
    info_eq := rfl
    flog_end := by dsimp only; omega
    map_end := by dsimp only; omega
    data_end := by dsimp only; omega }

end Blocks

theorem compute_sound (computed : compute arenaSize nfree blockSize = .ok geometry) :
    geometry.Sound arenaSize nfree blockSize := by
  obtain ⟨positive, room, made⟩ := compute_made computed
  exact ofBlocks_sound positive room (Nat.min_le_left _ _)
    (fits_of_le (Nat.min_le_right _ _) (largestFitting_fits (fits_zero positive))) made

/-- An arena can be laid out if it has room for two data blocks for each flog slot. -/
theorem compute_ok (positive : 0 < nfree) (few : 2 * nfree ≤ maxInternalBlocks)
    (room : mapStart nfree ≤ arenaSize - infoBlockBytes)
    (fitting : fits nfree blockSize (arenaSize - infoBlockBytes - mapStart nfree) (2 * nfree) =
      true)
    (sized : 0 < blockSize) :
    ∃ geometry, compute arenaSize nfree blockSize = .ok geometry := by
  rw [compute_eq positive room, ofBlocks_ok]
  generalize arenaSize - infoBlockBytes - mapStart nfree = budget at *
  have below : 2 * nfree < budget + nfree + 1 := by
    have bytes : 2 * nfree ≤ 2 * nfree * blockSize := Nat.le_mul_of_pos_right _ sized
    simp only [fits, decide_eq_true_eq] at fitting
    omega
  have reached : 2 * nfree ≤ min maxInternalBlocks
      (largestFitting (fits nfree blockSize budget) 0 (budget + nfree + 1)) :=
    Nat.le_min.mpr ⟨few, le_largestFitting (fun _ _ ordered => fits_of_le ordered) below fitting⟩
  omega

end Compute

end Geometry

namespace Span

def spread (full base remaining : Nat) : List Span :=
  (List.range (remaining / full)).map (fun index => ⟨base + index * full, full⟩) ++
    if remaining % full < minArena then []
    else [⟨base + remaining / full * full, alignDown (remaining % full) regionAlignment⟩]

theorem plan_eq_spread (totalSize largest : Nat) : plan totalSize largest =
    if totalSize < minArena ∨ alignDown largest regionAlignment < minArena then
      .error (.tooSmall totalSize)
    else .ok (spread (alignDown largest regionAlignment) 0 totalSize) := by
  simp only [plan, spread, Nat.zero_add]

theorem plan_ok {totalSize largest : Nat} {spans : List Span} :
    plan totalSize largest = .ok spans ↔
      minArena ≤ totalSize ∧ minArena ≤ alignDown largest regionAlignment ∧
        spans = spread (alignDown largest regionAlignment) 0 totalSize := by
  rw [plan_eq_spread]
  split
  next small =>
    simp only [reduceCtorEq, false_iff]
    omega
  next large =>
    rw [Except.ok.injEq, eq_comm]
    refine ⟨fun same => ⟨by omega, by omega, same⟩, fun planned => planned.2.2⟩

theorem placed {index count : Nat} (full : Nat) (inside : index < count) :
    index * full + full ≤ count * full := by
  have next : (index + 1) * full ≤ count * full := Nat.mul_le_mul_right _ inside
  rwa [Nat.add_mul, Nat.one_mul] at next

section Spread

variable {full base remaining : Nat}

theorem mem_spread {span : Span} : span ∈ spread full base remaining ↔
    (∃ index < remaining / full, span = ⟨base + index * full, full⟩) ∨
      minArena ≤ remaining % full ∧ span =
        ⟨base + remaining / full * full, alignDown (remaining % full) regionAlignment⟩ := by
  rw [spread, List.mem_append, List.mem_map]
  refine or_congr ?_ ?_
  · simp only [List.mem_range, eq_comm]
  · split
    next short => simp [Nat.not_le.mpr short]
    next long => simp [Nat.le_of_not_lt long]

theorem spread_ordered :
    (spread full base remaining).Pairwise (fun first second => first.stop ≤ second.base) := by
  have before {index count : Nat} (inside : index < count) :
      stop ⟨base + index * full, full⟩ ≤ base + count * full := by
    have := placed full inside
    simp only [stop]
    omega
  rw [spread, List.pairwise_append, List.pairwise_map]
  refine ⟨List.pairwise_lt_range.imp before, ?_, ?_⟩
  · split <;> simp
  · intro first isFull last isLast
    obtain ⟨index, inside, rfl⟩ := List.mem_map.mp isFull
    split at isLast
    next => cases isLast
    next =>
      rw [List.mem_singleton.mp isLast]
      exact before (List.mem_range.mp inside)

/-- The arenas are of a size between the bounds, and whole regions from the first one on. -/
theorem spread_bounded (wide : minArena ≤ full) (aligned : full % regionAlignment = 0)
    {span : Span} (member : span ∈ spread full base remaining) :
    (span.base - base) % regionAlignment = 0 ∧ span.size % regionAlignment = 0 ∧
      minArena ≤ span.size ∧ span.size ≤ full ∧ span.stop ≤ base + remaining := by
  have multiple (index : Nat) : (base + index * full - base) % regionAlignment = 0 := by
    rw [Nat.add_sub_cancel_left, Nat.mul_mod, aligned, Nat.mul_zero, Nat.zero_mod]
  have whole := Nat.div_add_mod' remaining full
  rcases mem_spread.mp member with ⟨index, inside, rfl⟩ | ⟨long, rfl⟩
  · have before := placed full inside
    refine ⟨multiple index, aligned, wide, Nat.le_refl full, ?_⟩
    simp only [stop]
    omega
  · have size_le := alignDown_le (remaining % full) regionAlignment
    have positive : 0 < minArena := by decide
    have rest_lt := Nat.mod_lt remaining (show 0 < full by omega)
    refine ⟨multiple _, alignDown_region _, minArena_le_alignDown long,
      Nat.le_trans size_le (Nat.le_of_lt rest_lt), ?_⟩
    simp only [stop]
    omega

theorem spread_ne_nil (room : minArena ≤ remaining) : spread full base remaining ≠ [] := by
  by_cases long : minArena ≤ remaining % full
  · exact List.ne_nil_of_mem (mem_spread.mpr (.inr ⟨long, rfl⟩))
  · have counted : 0 < remaining / full := by
      apply Nat.pos_of_ne_zero
      intro none
      have whole := Nat.div_add_mod' remaining full
      rw [none, Nat.zero_mul, Nat.zero_add] at whole
      omega
    exact List.ne_nil_of_mem (mem_spread.mpr (.inl ⟨0, counted, rfl⟩))

end Spread

/-- The arenas of a planned space follow one another, each aligned and of a size between
the bounds. -/
theorem plan_sound {totalSize largest : Nat} {spans : List Span}
    (planned : plan totalSize largest = .ok spans) :
    spans.Pairwise (fun first second => first.stop ≤ second.base) ∧
      ∀ span ∈ spans, span.base % regionAlignment = 0 ∧ span.size % regionAlignment = 0 ∧
        minArena ≤ span.size ∧ span.size ≤ largest ∧ span.stop ≤ totalSize := by
  obtain ⟨-, wide, rfl⟩ := plan_ok.mp planned
  refine ⟨spread_ordered, fun span member => ?_⟩
  obtain ⟨placed, sized, large, small, inside⟩ :=
    spread_bounded wide (alignDown_region largest) member
  rw [Nat.sub_zero] at placed
  rw [Nat.zero_add] at inside
  exact ⟨placed, sized, large, Nat.le_trans small (alignDown_le _ _), inside⟩

theorem plan_ne_nil {totalSize largest : Nat} {spans : List Span}
    (planned : plan totalSize largest = .ok spans) : spans ≠ [] := by
  obtain ⟨room, -, rfl⟩ := plan_ok.mp planned
  exact spread_ne_nil room

end Span

end Remap.Block
