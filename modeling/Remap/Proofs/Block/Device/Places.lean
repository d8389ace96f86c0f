import Mathlib.Order.Interval.Finset.Nat
import Remap.Proofs.Block.Device.Confined
import Remap.Proofs.Block.Device.Partitioned
import Remap.Proofs.Block.Layout.Checked

/-!
# Places of blocks

The blocks of a device are those of its arenas, one arena after the other. The number of a block is
how many blocks the arenas in front of its own have, plus its number there. So the numbers below
the block count and the places, in lexicographic order, are the same but for their names. The
search adds up the blocks of the arenas that it passes. In words it overflows for no device whose
arenas have each their own addresses, and what it finds always fits the number of a block.
-/

namespace Remap.Block

/-! The search with sums that are words. It may find a place in an arena that is too far for the
number of a block, or overflow, and then has no answer. -/

inductive Search
  | found (index : Nat) (block : UInt32)
  | beyond (blocks : Nat)
  | wide
  | overflow
deriving DecidableEq, Repr

namespace Search

def run (lba : Nat) : (start index : Nat) → (arenas : List Arena) → Search
  | start, _, [] => .beyond start
  | start, index, arena :: rest =>
      match Word.add start arena.info.external.toNat with
      | none => .overflow
      | some stop =>
          if lba < stop then
            match Word.sub lba start with
            | none => .overflow
            | some offset =>
                if offset < UInt32.size then .found index (.ofNat offset) else .wide
          else run lba stop (index + 1) rest

def answer? (lba : Nat) : Search → Option (Except Error (Nat × UInt32))
  | .found index block => some (.ok (index, block))
  | .beyond blocks => some (.error (.beyondEnd lba blocks))
  | .wide | .overflow => none

end Search

namespace Device

def HasPlace (device : Device) (place : Nat × UInt32) : Prop :=
  ∃ arena, device.arenas[place.1]? = some arena ∧ place.2 < arena.info.external

/-- The arenas have no address in common, each ends at an address of 64 bits, and each has a byte
at least for each of its blocks. -/
structure Addressable (arenas : List Arena) : Prop where
  apart : arenas.Pairwise fun left right =>
    left.span.stop ≤ right.span.base ∨ right.span.stop ≤ left.span.base
  inside : ∀ arena ∈ arenas, arena.span.stop < 2 ^ 64
  room : ∀ arena ∈ arenas, arena.info.external.toNat ≤ arena.span.size

variable {device : Device} {arenas : List Arena} {lba other start index : Nat} {block : UInt32}
  {place later : Nat × UInt32}

section Places

theorem place_eq_some_iff : place? arenas lba = some (index, block) ↔
    ∃ arena, arenas[index]? = some arena ∧ block < arena.info.external ∧
      lba = countBlocks (arenas.take index) + block.toNat := by
  induction arenas generalizing lba index with
  | nil => simp [place?]
  | cons first rest induction =>
      constructor
      · intro placed
        obtain ⟨rfl, inside, block_eq⟩ | ⟨index, rfl, behind, inner⟩ := place_cases placed
        · refine ⟨first, rfl, block_lt_external placed rfl, ?_⟩
          rw [List.take_zero, countBlocks]
          omega
        · obtain ⟨arena, found, below, number⟩ := induction.mp inner
          refine ⟨arena, by simpa using found, below, ?_⟩
          rw [List.take_succ_cons, countBlocks]
          omega
      · rintro ⟨arena, found, below, rfl⟩
        rw [UInt32.lt_iff_toNat_lt] at below
        rw [place?]
        cases index with
        | zero =>
            cases found
            simp [countBlocks, below]
        | succ index =>
            have inner : place? rest (countBlocks (rest.take index) + block.toNat) =
                some (index, block) :=
              induction.mpr ⟨arena, by simpa using found, UInt32.lt_iff_toNat_lt.mpr below, rfl⟩
            have passed : countBlocks ((first :: rest).take (index + 1)) + block.toNat -
                first.info.external.toNat = countBlocks (rest.take index) + block.toNat := by
              rw [List.take_succ_cons, countBlocks]
              omega
            dsimp only
            rw [passed, inner, if_neg]
            · rfl
            · rw [List.take_succ_cons, countBlocks]
              omega

theorem countBlocks_take_le {arena : Arena} {target : Nat} (found : arenas[index]? = some arena)
    (behind : index < target) :
    countBlocks (arenas.take index) + arena.info.external.toNat ≤
      countBlocks (arenas.take target) := by
  induction arenas generalizing index target with
  | nil => cases found
  | cons first rest induction =>
      obtain ⟨target, rfl⟩ := Nat.exists_eq_add_one_of_ne_zero (Nat.ne_zero_of_lt behind)
      rw [List.take_succ_cons, countBlocks]
      cases index with
      | zero =>
          cases found
          simp [countBlocks]
      | succ index =>
          have later := induction (by simpa using found) (Nat.lt_of_succ_lt_succ behind)
          rw [List.take_succ_cons, countBlocks]
          omega

theorem lt_of_lex (placed : place? arenas lba = some place)
    (otherPlaced : place? arenas other = some later)
    (before : Prod.Lex (· < ·) (· < ·) place later) : lba < other := by
  obtain ⟨arena, found, below, rfl⟩ := place_eq_some_iff.mp placed
  obtain ⟨-, -, -, rfl⟩ := place_eq_some_iff.mp otherPlaced
  rw [UInt32.lt_iff_toNat_lt] at below
  obtain front | ⟨same, inner⟩ := Prod.lex_def.mp before
  · have passed := countBlocks_take_le found front
    omega
  · rw [UInt32.lt_iff_toNat_lt] at inner
    rw [same]
    omega

/-- Blocks are numbered in the order of their places. -/
theorem lt_iff_lex (placed : place? arenas lba = some place)
    (otherPlaced : place? arenas other = some later) :
    lba < other ↔ Prod.Lex (· < ·) (· < ·) place later := by
  refine ⟨fun before => ?_, lt_of_lex placed otherPlaced⟩
  rw [Prod.lex_def]
  obtain front | same | behind := Nat.lt_trichotomy place.1 later.1
  · exact .inl front
  · refine .inr ⟨same, ?_⟩
    obtain ⟨-, -, -, rfl⟩ := place_eq_some_iff.mp placed
    obtain ⟨-, -, -, rfl⟩ := place_eq_some_iff.mp otherPlaced
    rw [same] at before
    exact UInt32.lt_iff_toNat_lt.mpr (Nat.lt_of_add_lt_add_left before)
  · have after := lt_of_lex otherPlaced placed (Prod.lex_def.mpr (.inl behind))
    omega

theorem hasPlace_of_place (placed : place? device.arenas lba = some place) :
    device.HasPlace place := by
  obtain ⟨arena, found, below, -⟩ := place_eq_some_iff.mp placed
  exact ⟨arena, found, below⟩

theorem HasPlace.place_eq (has : device.HasPlace place) :
    place? device.arenas (countBlocks (device.arenas.take place.1) + place.2.toNat) =
      some place := by
  obtain ⟨arena, found, below⟩ := has
  exact place_eq_some_iff.mpr ⟨arena, found, below, rfl⟩

end Places

section Words

/-- What is found is never too far into its arena for the number of a block. -/
theorem run_ne_wide (behind : start ≤ lba) : Search.run lba start index arenas ≠ .wide := by
  induction arenas generalizing start index with
  | nil => simp [Search.run]
  | cons arena rest induction =>
      have small : arena.info.external.toNat < UInt32.size := arena.info.external.toNat_lt
      rw [Search.run]
      cases added : Word.add start arena.info.external.toNat with
      | none => simp
      | some stop =>
          have stop_eq := Word.add_some added
          dsimp only
          split
          next inside =>
            rw [Word.sub_eq behind]
            simp [show lba - start < UInt32.size by omega]
          next passed => exact induction (Nat.not_lt.mp passed)

/-- As long as the blocks can be counted in words, the search finds the place of the block. -/
theorem run_answers (behind : start ≤ lba) (counted : start + countBlocks arenas < Word.limit) :
    (Search.run lba start index arenas).answer? lba =
      some (match place? arenas (lba - start) with
        | some (target, block) => .ok (index + target, block)
        | none => .error (.beyondEnd lba (start + countBlocks arenas))) := by
  induction arenas generalizing start index with
  | nil => rfl
  | cons arena rest induction =>
      rw [countBlocks, ← Nat.add_assoc] at counted
      have small : arena.info.external.toNat < UInt32.size := arena.info.external.toNat_lt
      rw [Search.run, Word.add_eq (by omega), place?, countBlocks, ← Nat.add_assoc]
      dsimp only
      by_cases inside : lba < start + arena.info.external.toNat
      · rw [if_pos inside, if_pos (by omega), Word.sub_eq behind]
        dsimp only
        rw [if_pos (by omega)]
        rfl
      · rw [if_neg inside, if_neg (by omega), induction (Nat.not_lt.mp inside) counted,
          ← Nat.sub_sub]
        cases place? rest (lba - start - arena.info.external.toNat) with
        | none => rfl
        | some place =>
            obtain ⟨target, block⟩ := place
            simp [Nat.add_assoc, Nat.add_comm 1]

end Words

section Addresses

def addresses : (arenas : List Arena) → Finset Nat
  | [] => ∅
  | arena :: rest => Finset.Ico arena.span.base arena.span.stop ∪ addresses rest

theorem mem_addresses {address : Nat} : address ∈ addresses arenas ↔
    ∃ arena ∈ arenas, arena.span.base ≤ address ∧ address < arena.span.stop := by
  induction arenas with
  | nil => simp [addresses]
  | cons arena rest induction => simp [addresses, induction]

theorem countBlocks_le_card (addressable : Addressable arenas) :
    countBlocks arenas ≤ (addresses arenas).card := by
  induction arenas with
  | nil => exact Nat.zero_le _
  | cons arena rest induction =>
      obtain ⟨apart, inside, room⟩ := addressable
      rw [List.pairwise_cons] at apart
      rw [List.forall_mem_cons] at inside room
      have disjoint : Disjoint (Finset.Ico arena.span.base arena.span.stop) (addresses rest) := by
        rw [Finset.disjoint_left]
        intro address here there
        obtain ⟨other, member, low, high⟩ := mem_addresses.mp there
        rw [Finset.mem_Ico] at here
        have separate := apart.1 other member
        omega
      have own : (Finset.Ico arena.span.base arena.span.stop).card = arena.span.size := by
        rw [Nat.card_Ico, Span.stop, Nat.add_sub_cancel_left]
      rw [addresses, Finset.card_union_of_disjoint disjoint, countBlocks, own]
      exact Nat.add_le_add room.1 (induction ⟨apart.2, inside.2, room.2⟩)

/-- Arenas that have each their own addresses have fewer blocks than there are words. -/
theorem Addressable.countBlocks_lt (addressable : Addressable arenas) :
    countBlocks arenas < 2 ^ 64 := by
  have within : addresses arenas ⊆ Finset.range (2 ^ 64 - 1) := by
    intro address member
    obtain ⟨arena, member, low, high⟩ := mem_addresses.mp member
    have stop_lt := addressable.inside arena member
    rw [Finset.mem_range]
    omega
  have fewer := Finset.card_le_card within
  rw [Finset.card_range] at fewer
  have counted := countBlocks_le_card addressable
  omega

theorem Partitioned.addressable {totalSize : Nat} {blockSize : UInt32}
    (parted : device.Partitioned totalSize blockSize) (words : totalSize < 2 ^ 64) :
    Addressable device.arenas where
  apart := parted.ordered.imp .inl
  inside arena member := Nat.lt_of_le_of_lt (parted.stop_le member) words
  room arena member := by
    have divided := parted.divided arena member
    have internal_eq := divided.internal_eq
    have data_end := divided.data_end
    have info_end := divided.info_end
    have wide := parted.large arena member
    have blocks := Nat.mul_le_mul_left arena.info.internal.toNat wide
    simp only [minInternalBlock] at *
    omega

end Addresses

section Located

theorem locate_eq (device : Device) (lba : Nat) :
    device.locate lba device.externalSize.toNat =
      match place? device.arenas lba with
      | some place => .ok place
      | none => .error (.beyondEnd lba device.blockCount) :=
  if_neg (not_not.mpr rfl)

theorem locate_ok_iff : device.locate lba device.externalSize.toNat = .ok place ↔
    place? device.arenas lba = some place :=
  ⟨place_of_locate, fun placed => by rw [locate_eq, placed]⟩

theorem locate_error {cause : Error}
    (failed : device.locate lba device.externalSize.toNat = .error cause) :
    cause = .beyondEnd lba device.blockCount := by
  rw [locate_eq] at failed
  cases placed : place? device.arenas lba with
  | some place =>
      rw [placed] at failed
      cases failed
  | none =>
      rw [placed] at failed
      cases failed
      rfl

theorem Addressable.run_locates (addressable : Addressable device.arenas) (lba : Nat) :
    (Search.run lba 0 0 device.arenas).answer? lba =
      some (device.locate lba device.externalSize.toNat) := by
  have counted : 0 + countBlocks device.arenas < Word.limit := by
    rw [Nat.zero_add]
    exact addressable.countBlocks_lt
  rw [run_answers (Nat.zero_le lba) counted, locate_eq, Nat.sub_zero, Nat.zero_add]
  cases place? device.arenas lba with
  | none => rfl
  | some place => simp

end Located

/-- **Places of blocks.** For a buffer of one block, the numbers below the block count are located
and no others. Each place of a block in an arena is located for one number, and the numbers are in
the order of the places. A number beyond is an invalid parameter. What the search in words finds
always fits the number of a block, and on arenas that have each their own addresses the search
overflows nowhere and answers the same. -/
theorem locate_enumerates (device : Device) :
    let locate := fun lba => device.locate lba device.externalSize.toNat
    (∀ lba, (∃ place, locate lba = .ok place) ↔ lba < device.blockCount) ∧
    (∀ lba place, locate lba = .ok place → device.HasPlace place) ∧
    (∀ place, device.HasPlace place → ∃! lba, locate lba = .ok place) ∧
    (∀ lba other place later, locate lba = .ok place → locate other = .ok later →
      (lba < other ↔ Prod.Lex (· < ·) (· < ·) place later)) ∧
    (∀ lba cause, locate lba = .error cause →
      cause = .beyondEnd lba device.blockCount ∧ cause.kind = .invalidParameter) ∧
    (∀ lba, Search.run lba 0 0 device.arenas ≠ .wide) ∧
    (Addressable device.arenas →
      ∀ lba, (Search.run lba 0 0 device.arenas).answer? lba = some (locate lba)) := by
  refine ⟨fun lba => ?_, fun lba place found => ?_, fun place has => ?_,
    fun lba other place later found otherFound => ?_, fun lba cause failed => ?_,
    fun lba => run_ne_wide (Nat.zero_le lba), Addressable.run_locates⟩
  · constructor
    · rintro ⟨place, found⟩
      exact (place_lt (locate_ok_iff.mp found)).1
    · intro inside
      obtain ⟨index, block, arena, placed, -⟩ := place_of_lt inside
      exact ⟨(index, block), locate_ok_iff.mpr placed⟩
  · exact hasPlace_of_place (locate_ok_iff.mp found)
  · refine ⟨_, locate_ok_iff.mpr has.place_eq, fun other found => ?_⟩
    exact place_inj (locate_ok_iff.mp found) has.place_eq
  · exact lt_iff_lex (locate_ok_iff.mp found) (locate_ok_iff.mp otherFound)
  · obtain rfl := locate_error failed
    exact ⟨rfl, rfl⟩

def unevenDevice : Device where
  parent := .nil
  externalSize := 512
  internalSize := 512
  arenas := [
    { span := ⟨0, 28672⟩
      info := .ofGeometry .nil .nil 512 512 ⟨17, 18, 1, 4096, 8192, 12288, 24576⟩ 28672
      flog := []
      readOnly := false },
    { span := ⟨28672, 20480⟩
      info := .ofGeometry .nil .nil 512 512 ⟨3, 4, 1, 4096, 8192, 12288, 16384⟩ 0
      flog := []
      readOnly := false }]

/-- The block behind the last one of an arena is the first of the next arena. -/
theorem locate_enumerates_uneven : Addressable unevenDevice.arenas ∧
    (Search.run 16 0 0 unevenDevice.arenas).answer? 16 = some (.ok (0, 16)) ∧
    (Search.run 17 0 0 unevenDevice.arenas).answer? 17 = some (.ok (1, 0)) ∧
    (Search.run 20 0 0 unevenDevice.arenas).answer? 20 = some (.error (.beyondEnd 20 20)) := by
  have addressable : Addressable unevenDevice.arenas := ⟨by decide, by decide, by decide⟩
  obtain ⟨-, -, -, -, -, -, answers⟩ := locate_enumerates unevenDevice
  refine ⟨addressable, ?_, ?_, ?_⟩ <;> exact (answers addressable _).trans rfl

end Device

end Remap.Block
