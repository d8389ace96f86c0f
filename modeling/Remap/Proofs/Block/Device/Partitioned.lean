import Remap.Proofs.Block.Device.Created
import Remap.Proofs.Block.Returns

/-!
# Regions of a device

Whatever the media holds and whichever of its accesses fail, a device that was laid out or
mounted is cut into arenas, and each arena into its regions, one behind the other. That follows
from what is checked of the info blocks: an arena has a bounded size and its data blocks are not
small, so their numbers fit a map entry.
-/

namespace Remap

namespace Media.Range

structure Packed (ranges : List Range) (start stop : Nat) : Prop where
  ordered : ranges.Pairwise fun first second => first.stop ≤ second.start
  inside : ∀ range ∈ ranges, start ≤ range.start ∧ range.stop ≤ stop

variable {front back ranges : List Range} {start middle stop : Nat}

theorem packed_single (range : Range) : Packed [range] range.start range.stop := by
  refine ⟨List.pairwise_singleton _ _, fun other member => ?_⟩
  rw [List.mem_singleton.mp member]
  exact ⟨Nat.le_refl _, Nat.le_refl _⟩

theorem Packed.append {next : Nat} (first : Packed front start middle)
    (second : Packed back next stop) (apart : middle ≤ next) (lower : start ≤ next)
    (upper : middle ≤ stop) : Packed (front ++ back) start stop := by
  constructor
  · refine List.pairwise_append.mpr ⟨first.ordered, second.ordered, ?_⟩
    intro left leftMember right rightMember
    have before := first.inside left leftMember
    have behind := second.inside right rightMember
    omega
  · intro range member
    rcases List.mem_append.mp member with early | late
    · have inside := first.inside range early
      omega
    · have inside := second.inside range late
      omega

def row (place : UInt32 → Nat) (width : Nat) (count : UInt32) : List Range :=
  (List.range count.toNat).map fun index => ⟨place (.ofNat index), place (.ofNat index) + width⟩

theorem packed_row {place : UInt32 → Nat} {width : Nat}
    (placed : ∀ number, place number = start + number.toNat * width) (count : UInt32) :
    Packed (row place width count) start (start + count.toNat * width) := by
  have scaled {index other : Nat} (below : index < other) :
      index * width + width ≤ other * width := by
    rw [← Nat.succ_mul]
    exact Nat.mul_le_mul_right width below
  have row_eq : row place width count = (List.range count.toNat).map fun index =>
      ⟨start + index * width, start + index * width + width⟩ := by
    refine List.map_congr_left fun index inside => ?_
    have small : index < UInt32.size := Nat.lt_trans (List.mem_range.mp inside) count.toNat_lt
    rw [placed, UInt32.toNat_ofNat_of_lt' small]
  rw [row_eq]
  constructor
  · refine List.pairwise_map.mpr (List.pairwise_lt_range.imp fun below => ?_)
    have next := scaled below
    dsimp only
    omega
  · intro range member
    obtain ⟨index, inside, rfl⟩ := List.mem_map.mp member
    have last := scaled (List.mem_range.mp inside)
    dsimp only
    omega

end Media.Range

namespace Block

open Remap.Media

namespace Arena

/-! Each slot of the flog, each map entry and each data block is a region of its own, and so are the
info block and its copy. -/

def slotOffset (arena : Arena) (slot : UInt32) : Nat :=
  arena.flogStart + slot.toNat * flogSlotBytes

def regions (arena : Arena) : List Range :=
  [⟨arena.span.base, arena.span.base + infoBlockBytes⟩] ++
    Range.row arena.slotOffset flogSlotBytes arena.info.nfree ++
    Range.row arena.entryOffset mapEntryBytes arena.info.external ++
    Range.row arena.dataOffset arena.info.internalSize.toNat arena.info.internal ++
    [⟨arena.span.base + arena.info.infoOffset.toNat,
      arena.span.base + arena.info.infoOffset.toNat + infoBlockBytes⟩]

variable {arena : Arena}

theorem packed_regions (divided : arena.info.Divides arena.span) :
    Range.Packed arena.regions arena.span.base arena.span.stop := by
  have head := Range.packed_single ⟨arena.span.base, arena.span.base + infoBlockBytes⟩
  have slots := @Range.packed_row arena.flogStart arena.slotOffset _ (fun _ => rfl) arena.info.nfree
  have entries := @Range.packed_row arena.mapStart arena.entryOffset _ (fun _ => rfl)
    arena.info.external
  have blocks := @Range.packed_row arena.dataStart arena.dataOffset _ (fun _ => rfl)
    arena.info.internal
  have copy := Range.packed_single ⟨arena.span.base + arena.info.infoOffset.toNat,
    arena.span.base + arena.info.infoOffset.toNat + infoBlockBytes⟩
  have stop_eq : arena.span.base + arena.info.infoOffset.toNat + infoBlockBytes =
      arena.span.stop := by
    rw [Nat.add_assoc, divided.info_end]
    rfl
  have flogStart_le := divided.flog_start
  have flogEnd_le := divided.flog_end
  have mapEnd_le := divided.map_end
  have dataEnd_le := divided.data_end
  simp only [flogStart, mapStart, dataStart] at head slots entries blocks copy
  rw [← stop_eq]
  refine (((head.append slots ?_ ?_ ?_).append entries ?_ ?_ ?_).append blocks ?_ ?_ ?_).append
    copy ?_ ?_ ?_
  all_goals omega

end Arena

def Accepts (surveyed : Span × Expectation) (arena : Arena) : Prop :=
  arena.span = surveyed.1 ∧ ∃ info : InfoBlock, info.mismatch? surveyed.2 = none ∧
    (arena.info = info ∨ arena.info = info.withErrorFlag)

namespace Arena

variable {μ : Type} [Media μ]

theorem returns_readInfo (offset : Nat) (expected : Expectation) :
    (readInfo offset expected : Step μ _).Returns fun outcome =>
      ∀ info, outcome = .ok info → info.mismatch? expected = none := by
  rw [readInfo]
  refine Step.returns_bind (Step.returns_any _) fun bytes _ => Step.returns_pure ?_
  intro info read
  obtain ⟨found, -, read⟩ := bind_ok read
  obtain ⟨_, validated, read⟩ := bind_ok read
  cases read
  exact InfoBlock.accepted_of_validated validated

theorem returns_loadInfo (span : Span) (expected : Expectation) :
    (loadInfo span expected : Step μ _).Returns fun info => info.mismatch? expected = none := by
  rw [loadInfo]
  refine Step.returns_bind (returns_readInfo _ _) fun primary accepted => ?_
  cases primary with
  | ok info => exact Step.returns_pure (accepted info rfl)
  | error primary =>
      refine Step.returns_bind (returns_readInfo _ _) fun backup accepted => ?_
      cases backup with
      | error backup => exact Step.returns_throw
      | ok info =>
          exact Step.returns_bind (Step.returns_any _) fun _ _ =>
            Step.returns_pure (accepted info rfl)

theorem returns_load (span : Span) (expected : Expectation) :
    (load span expected : Step μ _).Returns (Accepts (span, expected)) := by
  rw [load]
  refine Step.returns_bind (returns_loadInfo span expected) fun info accepted => ?_
  split
  next => exact Step.returns_pure ⟨rfl, info, accepted, .inl rfl⟩
  next =>
    refine Step.returns_bind (Step.returns_any _) fun flog _ => ?_
    cases flog with
    | none => exact Step.returns_pure ⟨rfl, info, accepted, .inr rfl⟩
    | some flog =>
        exact Step.returns_bind (Step.returns_any _) fun _ _ =>
          Step.returns_pure ⟨rfl, info, accepted, .inl rfl⟩

theorem returns_format (span : Span) (info : InfoBlock) :
    (format span info : Step μ _).Returns fun arena => fresh span info = arena := by
  rw [format_eq]
  exact Step.returns_bind (Step.returns_any _) fun _ _ => Step.returns_pure rfl

end Arena

structure Device.Partitioned (device : Device) (totalSize : Nat) (blockSize : UInt32) : Prop where
  planned : Span.plan totalSize maxArena = .ok (device.arenas.map Arena.span)
  divided : ∀ arena ∈ device.arenas, arena.info.Divides arena.span
  size_eq : ∀ arena ∈ device.arenas, arena.info.externalSize = blockSize
  large : ∀ arena ∈ device.arenas, minInternalBlock ≤ arena.info.internalSize.toNat

namespace Device

theorem minInternalBlock_le {blockSize internalSize : UInt32}
    (sized : dataBlockSize blockSize = .ok internalSize) :
    minInternalBlock ≤ internalSize.toNat := by
  obtain ⟨rfl, positive, fits⟩ := dataBlockSize_ok sized
  generalize wide_eq : max minInternalBlock (alignUp blockSize.toNat cacheLine) = wide at *
  have least : minInternalBlock ≤ wide := wide_eq ▸ Nat.le_max_left _ _
  have bounded : wide ≤ 2 ^ 32 := by
    have rounded : alignUp blockSize.toNat (1 <<< 6) ≤ alignUp (2 ^ 32) (1 <<< 6) :=
      alignUp_shift_mono 6 (Nat.le_of_lt blockSize.toNat_lt)
    have whole : alignUp (2 ^ 32) (1 <<< 6) = 2 ^ 32 := by decide
    rw [whole] at rounded
    rw [← wide_eq]
    exact Nat.max_le.mpr ⟨by decide, rounded⟩
  have internal_eq : internalBlockSize blockSize = .ofNat wide := by
    rw [internalBlockSize, wide_eq]
  rw [internal_eq] at fits ⊢
  rcases Nat.lt_or_eq_of_le bounded with small | rfl
  · rw [UInt32.toNat_ofNat_of_lt' small]
    exact least
  · change blockSize.toNat ≤ 0 at fits
    omega

variable {μ : Type} [Media μ] {device : Device} {parent : Uuid} {totalSize size : Nat}
  {blockSize : UInt32} {surveyed : List (Span × Expectation)}

theorem partitioned_of_accepts (found : survey parent totalSize blockSize size = .ok surveyed)
    (accepts : List.Forall₂ Accepts surveyed device.arenas) :
    device.Partitioned totalSize blockSize := by
  have shapes := surveyed_of_mem found
  obtain ⟨internalSize, spans, sized, -, planned, rfl⟩ := survey_parts found
  have spans_eq : spans = device.arenas.map Arena.span := by
    rw [← expectations_spans parent blockSize internalSize spans, ← List.forall₂_eq_eq_eq,
      List.forall₂_map_left_iff, List.forall₂_map_right_iff]
    exact accepts.imp fun _ _ accept => accept.1.symm
  have shaped : ∀ arena ∈ device.arenas, arena.info.Divides arena.span ∧
      arena.info.externalSize = blockSize ∧
      minInternalBlock ≤ arena.info.internalSize.toNat := by
    intro arena member
    obtain ⟨pair, expected, span_eq, info, accepted, marked⟩ := forall₂_of_mem accepts member
    obtain ⟨-, -, external, internal⟩ := expectations_mem expected
    have checked := info.checked_of_accepted accepted
    have shape := shapes pair expected
    have divided := (info.divides_of_accepted accepted shape.arenaSize_eq shape.large shape.aligned
      shape.fits).1
    have same : arena.info.Divides arena.span ∧ arena.info.externalSize = info.externalSize ∧
        arena.info.internalSize = info.internalSize := by
      rw [span_eq]
      rcases marked with unchanged | failed
      · rw [unchanged]
        exact ⟨divided, rfl, rfl⟩
      · rw [failed]
        exact ⟨{ divided with }, rfl, rfl⟩
    refine ⟨same.1, ?_, ?_⟩
    · rw [same.2.1, checked.externalSize_eq, external]
    · rw [same.2.2, checked.internalSize_eq, internal]
      exact minInternalBlock_le sized
  exact ⟨spans_eq ▸ planned, fun arena member => (shaped arena member).1,
    fun arena member => (shaped arena member).2.1, fun arena member => (shaped arena member).2.2⟩

theorem returns_create (layout : Layout) (entropy : Entropy) :
    (create layout entropy : Step μ _).Returns fun device =>
      device.Partitioned layout.totalSize layout.blockSize := by
  rw [create]
  refine Step.returns_bind (Step.returns_any _) fun media _ => ?_
  refine Step.returns_bind (Step.returns_ofExcept fun _ => id) fun pairs planned => ?_
  refine Step.returns_bind (Step.returns_mapM fun pair _ => Arena.returns_format pair.1 pair.2)
    fun arenas formatted => ?_
  have arenas_eq : freshArenas pairs = arenas := by
    rw [freshArenas, ← List.forall₂_eq_eq_eq, List.forall₂_map_left_iff]
    exact formatted
  obtain ⟨surveyed, found, suits⟩ := (plan_founded planned).surveyed
  refine Step.returns_pure (partitioned_of_accepts found ?_)
  dsimp only
  rw [← arenas_eq]
  exact suits.imp fun _ home suit => ⟨suit.span_eq, home.info, suit.accepted, .inl rfl⟩

theorem returns_load (parent : Uuid) (totalSize : Nat) (blockSize : UInt32) :
    (load parent totalSize blockSize : Step μ _).Returns fun device =>
      device.Partitioned totalSize blockSize := by
  rw [load]
  refine Step.returns_bind (Step.returns_any _) fun media _ => ?_
  refine Step.returns_bind (Step.returns_ofExcept fun _ => id) fun surveyed found => ?_
  refine Step.returns_bind (Step.returns_mapM fun pair _ => Arena.returns_load pair.1 pair.2)
    fun arenas accepts => ?_
  exact Step.returns_pure (partitioned_of_accepts found accepts)

namespace Partitioned

variable {arena : Arena}

theorem ordered (parted : device.Partitioned totalSize blockSize) : InOrder device.arenas := by
  have apart := (Span.plan_sound parted.planned).1
  rwa [List.pairwise_map] at apart

theorem stop_le (parted : device.Partitioned totalSize blockSize) (member : arena ∈ device.arenas) :
    arena.span.stop ≤ totalSize := by
  have shape := (Span.plan_sound parted.planned).2 arena.span (List.mem_map_of_mem member)
  exact shape.2.2.2.2

/-- An arena is too small for more data blocks than a map entry can name. -/
theorem internal_le (parted : device.Partitioned totalSize blockSize)
    (member : arena ∈ device.arenas) : arena.info.internal.toNat ≤ maxInternalBlocks := by
  have shape := (Span.plan_sound parted.planned).2 arena.span (List.mem_map_of_mem member)
  have divided := parted.divided arena member
  have dataEnd_le := divided.data_end
  have info_end := divided.info_end
  have size_le := shape.2.2.2.1
  have blocks := Nat.mul_le_mul_left arena.info.internal.toNat (parted.large arena member)
  simp only [maxArena, maxInternalBlocks, minInternalBlock, Nat.reduceShiftLeft] at *
  omega

end Partitioned

/-- **The regions of a device.** Whatever the media holds and whichever accesses fail, the info
blocks, flog slots, map entries, data blocks and copies of info blocks of all arenas of a device
that was laid out or mounted lie one behind the other in the space of the device. Every data
block has a number that a map entry can hold. -/
theorem regions_apart {media after : μ}
    (returned : (∃ layout entropy, layout.totalSize = totalSize ∧
        (create layout entropy).on media = (.ok device, after)) ∨
      ∃ parent blockSize, (load parent totalSize blockSize).on media = (.ok device, after)) :
    (device.arenas.flatMap Arena.regions).Pairwise
        (fun first second => first.stop ≤ second.start) ∧
      (∀ region ∈ device.arenas.flatMap Arena.regions, region.stop ≤ totalSize) ∧
      ∀ arena ∈ device.arenas,
        arena.info.internal.toNat = arena.info.external.toNat + arena.info.nfree.toNat ∧
          arena.info.internal.toNat ≤ maxInternalBlocks ∧
          ∀ block, block < arena.info.internal → (MapEntry.normal block).block = block := by
  obtain ⟨blockSize, parted⟩ : ∃ blockSize, device.Partitioned totalSize blockSize := by
    rcases returned with ⟨layout, entropy, rfl, created⟩ | ⟨parent, blockSize, mounted⟩
    · exact ⟨layout.blockSize, returns_create layout entropy media device after created⟩
    · exact ⟨blockSize, returns_load parent totalSize blockSize media device after mounted⟩
  have packed (arena : Arena) (member : arena ∈ device.arenas) :=
    Arena.packed_regions (parted.divided arena member)
  refine ⟨?_, ?_, fun arena member => ?_⟩
  · refine List.pairwise_flatMap.mpr ⟨fun arena member => (packed arena member).ordered, ?_⟩
    refine parted.ordered.imp_of_mem fun {left right} leftMember rightMember apart => ?_
    intro first firstMember second secondMember
    have before := (packed left leftMember).inside first firstMember
    have behind := (packed right rightMember).inside second secondMember
    omega
  · intro region member
    obtain ⟨arena, arenaMember, inside⟩ := List.mem_flatMap.mp member
    exact Nat.le_trans ((packed arena arenaMember).inside region inside).2
      (parted.stop_le arenaMember)
  · have bounded := parted.internal_le member
    refine ⟨(parted.divided arena member).internal_eq, bounded, fun block inside => ?_⟩
    exact MapEntry.block_normal (Nat.lt_of_lt_of_le (UInt32.lt_iff_toNat_lt.mp inside) bounded)

theorem regions_apart_small :
    ∃ (device : Device) (created after : Simulated),
      (create smallLayout zeroEntropy).on (Simulated.blank minArena) = (.ok device, created) ∧
      (load .nil minArena 512).on created = (.ok device, after) ∧
      (device.arenas.flatMap Arena.regions).Pairwise
        (fun first second => first.stop ≤ second.start) ∧
      ∃ arena ∈ device.arenas, arena.info.internal.toNat ≤ maxInternalBlocks := by
  obtain ⟨device, created, laid, faultless, arena, member, -⟩ := small_created
  obtain ⟨after, mounted, -⟩ := load_created laid faultless rfl rfl
  obtain ⟨apart, -, -⟩ := regions_apart (.inl ⟨smallLayout, zeroEntropy, rfl, laid⟩)
  obtain ⟨-, -, numbered⟩ := regions_apart (.inr ⟨.nil, 512, mounted⟩)
  exact ⟨device, created, after, laid, mounted, apart, arena, member, (numbered arena member).2.1⟩

end Device

end Block

end Remap
