import Remap.Proofs.PageTable.Entry
import Remap.Proofs.PageTable.Memory

/-!
# What a tree maps

The attribute of a page is found by walking down from an entry, one table a level.
A tree is tidy if its pointers take nothing away and lead to tables that no other
pointer of the tree leads to. What a tree maps depends on its own tables only.
-/

namespace Remap.PageTable

theorem levelSize_one : levelSize 1 = pageBytes := rfl

theorem levelSize_succ {level : Nat} (positive : level ≠ 0) :
    levelSize (level + 1) = levelSize level * tableEntries := by
  have bits : 12 + 9 * (level + 1 - 1) = 12 + 9 * (level - 1) + 9 := by omega
  rw [levelSize, levelSize, bits, Nat.one_shiftLeft, Nat.one_shiftLeft, Nat.pow_add]
  rfl

theorem levelSize_pos (level : Nat) : 0 < levelSize level := by
  rw [levelSize, Nat.one_shiftLeft]
  exact Nat.two_pow_pos _

theorem levelSize_aligned (level : Nat) : levelSize level % pageBytes = 0 := by
  rw [levelSize, Nat.one_shiftLeft, Nat.pow_add]
  exact Nat.mul_mod_right _ _

namespace Mode

theorem maxLevel_ne_zero (mode : Mode) : mode.maxLevel ≠ 0 := by
  cases mode <;> simp [maxLevel]

theorem linearLimit_eq (mode : Mode) : mode.linearLimit = levelSize (mode.maxLevel + 1) :=
  (levelSize_succ mode.maxLevel_ne_zero).symm

end Mode

def slotOf (level linear : Nat) : Fin tableEntries :=
  ⟨linear / levelSize level % tableEntries, Nat.mod_lt _ (by decide)⟩

section Slots

variable {level origin linear : Nat} {index : Fin tableEntries}

theorem slot_stop_le (positive : level ≠ 0) (origin : Nat) (index : Fin tableEntries) :
    origin + index.val * levelSize level + levelSize level ≤ origin + levelSize (level + 1) := by
  have last := Nat.mul_le_mul_right (levelSize level) (Nat.succ_le_of_lt index.isLt)
  rw [Nat.succ_mul] at last
  rw [levelSize_succ positive, Nat.mul_comm (levelSize level)]
  omega

theorem slotOf_eq (aligned : origin % levelSize (level + 1) = 0) (positive : level ≠ 0)
    (low : origin + index.val * levelSize level ≤ linear)
    (high : linear < origin + index.val * levelSize level + levelSize level) :
    slotOf level linear = index := by
  obtain ⟨count, rfl⟩ := Nat.dvd_of_mod_eq_zero aligned
  rw [levelSize_succ positive] at low high
  have size := levelSize_pos level
  have start : levelSize level * tableEntries * count + index.val * levelSize level =
      (tableEntries * count + index.val) * levelSize level := by
    rw [Nat.add_mul, Nat.mul_assoc, Nat.mul_comm (levelSize level)]
  rw [start] at low high
  have quotient : linear / levelSize level = tableEntries * count + index.val := by
    rw [Nat.div_eq_iff size]
    omega
  apply Fin.ext
  change linear / levelSize level % tableEntries = index.val
  rw [quotient, Nat.mul_add_mod]
  exact Nat.mod_eq_of_lt index.isLt

theorem slotOf_range (aligned : origin % levelSize (level + 1) = 0) (positive : level ≠ 0)
    (low : origin ≤ linear) (high : linear < origin + levelSize (level + 1)) :
    origin + (slotOf level linear).val * levelSize level ≤ linear ∧
      linear < origin + (slotOf level linear).val * levelSize level + levelSize level := by
  have size := levelSize_pos level
  obtain ⟨distance, rfl⟩ := Nat.exists_eq_add_of_le low
  have short : distance < tableEntries * levelSize level := by
    rw [levelSize_succ positive] at high
    rw [Nat.mul_comm]
    omega
  have below : distance / levelSize level < tableEntries := (Nat.div_lt_iff_lt_mul size).mpr short
  have same : slotOf level (origin + distance) = ⟨distance / levelSize level, below⟩ := by
    apply slotOf_eq aligned positive
    · have := Nat.div_mul_le_self distance (levelSize level)
      dsimp only
      omega
    · have := Nat.lt_div_mul_add (a := distance) size
      dsimp only
      omega
  rw [same]
  dsimp only
  have := Nat.div_mul_le_self distance (levelSize level)
  have := Nat.lt_div_mul_add (a := distance) size
  omega

theorem slot_aligned (aligned : origin % levelSize (level + 1) = 0) (positive : level ≠ 0)
    (index : Nat) : (origin + index * levelSize level) % levelSize level = 0 := by
  rw [Nat.add_mul_mod_self_right]
  rw [levelSize_succ positive] at aligned
  exact Nat.mod_eq_zero_of_dvd
    (Nat.dvd_trans (Nat.dvd_mul_right _ _) (Nat.dvd_of_mod_eq_zero aligned))

theorem page_of_slot {slot : Nat} (aligned : slot % levelSize level = 0) : slot % pageBytes = 0 :=
  Nat.mod_eq_zero_of_dvd (Nat.dvd_trans (Nat.dvd_of_mod_eq_zero (levelSize_aligned level))
    (Nat.dvd_of_mod_eq_zero aligned))

theorem page_of_offset {slot : Nat} (aligned : slot % levelSize level = 0)
    (page : linear % pageBytes = 0) : (linear - slot) % pageBytes = 0 := by
  have start := page_of_slot aligned
  simp only [pageBytes] at *
  omega

theorem offset_eq {slot : Nat} (aligned : slot % levelSize level = 0) (low : slot ≤ linear)
    (high : linear < slot + levelSize level) : linear % levelSize level = linear - slot := by
  obtain ⟨distance, rfl⟩ := Nat.exists_eq_add_of_le low
  rw [Nat.add_sub_cancel_left, Nat.add_mod, aligned, Nat.zero_add, Nat.mod_mod]
  exact Nat.mod_eq_of_lt (by omega)

theorem offset_split (positive : level ≠ 0) (linear : Nat) :
    linear % levelSize (level + 1) =
      (slotOf level linear).val * levelSize level + linear % levelSize level := by
  rw [levelSize_succ positive, Nat.mod_mul, Nat.add_comm, Nat.mul_comm]
  rfl

end Slots

namespace Tables

def entry (tables : Tables) (level address : Nat) (index : Fin tableEntries) : Entry :=
  .decode ((tables address).word index) level

def page (tables : Tables) : (level : Nat) → Entry → (linear : Nat) → Option Attribute
  | 0, _, _ => none
  | _ + 1, .absent, _ => none
  | level + 1, .leaf _ attr, linear => some (attr.advance (linear % levelSize (level + 1)))
  | level + 1, .table pointed _, linear =>
      page tables level (tables.entry level pointed.toNat (slotOf level linear)) linear

theorem page_absent (tables : Tables) (level linear : Nat) :
    tables.page level .absent linear = none := by
  cases level <;> rw [page]

def Uses (tables : Tables) : (level : Nat) → Entry → (address : Nat) → Prop
  | level + 1, .table pointed _, address => address = pointed.toNat ∨
      ∃ index, Uses tables level (tables.entry level pointed.toNat index) address
  | _, _, _ => False

def Tidy (tables : Tables) : (level : Nat) → Entry → Prop
  | level + 1, .table pointed attr => attr = .permissive ∧
      ∀ index, Tidy tables level (tables.entry level pointed.toNat index) ∧
        ¬Uses tables level (tables.entry level pointed.toNat index) pointed.toNat ∧
        ∀ other, other ≠ index → ∀ address,
          Uses tables level (tables.entry level pointed.toNat index) address →
            ¬Uses tables level (tables.entry level pointed.toNat other) address
  | _, _ => True

def SameBelow (before after : Tables) (level : Nat) (entry : Entry) : Prop :=
  ∀ address, before.Uses level entry address → after address = before address

namespace SameBelow

variable {before after : Tables} {level address : Nat} {entry : Entry} {pointed : UInt64}
  {attr : Attribute}

theorem entry_eq (same : SameBelow before after (level + 1) (.table pointed attr))
    (index : Fin tableEntries) :
    after.entry level pointed.toNat index = before.entry level pointed.toNat index := by
  rw [Tables.entry, same pointed.toNat (.inl rfl), Tables.entry]

theorem below (same : SameBelow before after (level + 1) (.table pointed attr))
    (index : Fin tableEntries) :
    SameBelow before after level (before.entry level pointed.toNat index) :=
  fun address uses => same address (.inr ⟨index, uses⟩)

theorem page_eq (same : SameBelow before after level entry) (linear : Nat) :
    after.page level entry linear = before.page level entry linear := by
  induction level generalizing entry with
  | zero => rw [page, page]
  | succ level induction =>
      cases entry with
      | absent => rw [page, page]
      | leaf size attr => rw [page, page]
      | table pointed attr =>
          rw [page, page, same.entry_eq]
          exact induction (same.below _)

theorem uses_iff (same : SameBelow before after level entry) :
    after.Uses level entry address ↔ before.Uses level entry address := by
  induction level generalizing entry with
  | zero => rfl
  | succ level induction =>
      cases entry with
      | absent => rfl
      | leaf size attr => rfl
      | table pointed attr =>
          simp only [Uses, same.entry_eq]
          exact or_congr_right (exists_congr fun index => induction (same.below index))

theorem tidy (same : SameBelow before after level entry) (tidy : before.Tidy level entry) :
    after.Tidy level entry := by
  induction level generalizing entry with
  | zero => exact trivial
  | succ level induction =>
      cases entry with
      | absent => exact trivial
      | leaf size attr => exact trivial
      | table pointed attr =>
          obtain ⟨permissive, inner⟩ := tidy
          refine ⟨permissive, ?_⟩
          intro index
          rw [same.entry_eq]
          obtain ⟨tidy, apart, distinct⟩ := inner index
          refine ⟨induction (same.below index) tidy, ?_, ?_⟩
          · intro uses
            exact apart ((same.below index).uses_iff.mp uses)
          · intro other different address uses otherUses
            rw [same.entry_eq] at otherUses
            exact distinct other different address ((same.below index).uses_iff.mp uses)
              ((same.below other).uses_iff.mp otherUses)

end SameBelow

end Tables

end Remap.PageTable
