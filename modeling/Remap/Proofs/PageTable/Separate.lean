import Remap.Proofs.PageTable.Commit

/-!
# Trees whose tables are used once

An edit can work on a tree if each table of it exists and is reached through one entry only,
and if none of its tables is among the unused pages of the buffer. What the tables take away
from those below does not matter here.
-/

namespace Remap.PageTable

namespace Tables

def Spans (tables : Tables) (level address target : Nat) : Prop :=
  target = address ∨ ∃ index, tables.Uses level (tables.entry level address index) target

def Separate (tables : Tables) : (level : Nat) → Entry → Prop
  | level + 1, .table pointed _ => ∀ index,
      Separate tables level (tables.entry level pointed.toNat index) ∧
        ¬tables.Uses level (tables.entry level pointed.toNat index) pointed.toNat ∧
        ∀ other, other ≠ index → ∀ address,
          tables.Uses level (tables.entry level pointed.toNat index) address →
            ¬tables.Uses level (tables.entry level pointed.toNat other) address
  | _, _ => True

def SeparateBelow (tables : Tables) (level address : Nat) : Prop := ∀ index,
  Separate tables level (tables.entry level address index) ∧
    ¬tables.Uses level (tables.entry level address index) address ∧
    ∀ other, other ≠ index → ∀ target,
      tables.Uses level (tables.entry level address index) target →
        ¬tables.Uses level (tables.entry level address other) target

variable {before after : Tables} {level : Nat} {entry : Entry}

theorem Tidy.separate (tidy : before.Tidy level entry) : before.Separate level entry := by
  induction level generalizing entry with
  | zero => exact trivial
  | succ level induction =>
      cases entry with
      | absent => exact trivial
      | leaf size attr => exact trivial
      | table pointed attr =>
          intro index
          obtain ⟨inner, self, distinct⟩ := tidy.2 index
          exact ⟨induction inner, self, distinct⟩

section Same

variable {address target : Nat}
  (same : ∀ target, before.Spans level address target → after target = before target)

include same

theorem entry_of_same (index : Fin tableEntries) :
    after.entry level address index = before.entry level address index := by
  rw [Tables.entry, same address (.inl rfl), Tables.entry]

theorem sameBelow_of_same (index : Fin tableEntries) :
    SameBelow before after level (before.entry level address index) :=
  fun target used => same target (.inr ⟨index, used⟩)

theorem spans_of_same : after.Spans level address target ↔ before.Spans level address target := by
  apply or_congr_right
  apply exists_congr
  intro index
  rw [entry_of_same same]
  exact (sameBelow_of_same same index).uses_iff

theorem SeparateBelow.of_same (separate : before.SeparateBelow level address)
    (inner : ∀ entry, SameBelow before after level entry → before.Separate level entry →
      after.Separate level entry) :
    after.SeparateBelow level address := by
  intro index
  obtain ⟨below, self, distinct⟩ := separate index
  have uses {target : Nat} (place : Fin tableEntries) :=
    ((sameBelow_of_same same place).uses_iff : _ ↔ before.Uses _ _ target)
  rw [entry_of_same same]
  refine ⟨inner _ (sameBelow_of_same same index) below, ?_, ?_⟩
  · intro used
    exact self ((uses index).mp used)
  · intro other apart target used also
    rw [entry_of_same same] at also
    exact distinct other apart target ((uses index).mp used) ((uses other).mp also)

end Same

theorem SameBelow.separate (same : SameBelow before after level entry)
    (separate : before.Separate level entry) : after.Separate level entry := by
  induction level generalizing entry with
  | zero => exact trivial
  | succ level induction =>
      cases entry with
      | absent => exact trivial
      | leaf size attr => exact trivial
      | table pointed attr =>
          have below : before.SeparateBelow level pointed.toNat := separate
          exact below.of_same same fun _ => induction

end Tables

namespace Memory

structure Lends (memory : Memory) (buffer : Buffer) : Prop where
  base_aligned : buffer.base % pageBytes = 0
  remaining_aligned : buffer.remaining % pageBytes = 0
  remaining_le : buffer.remaining ≤ buffer.size
  has : ∀ address, address % pageBytes = 0 → buffer.Spare address → memory.Has address

variable {memory after : Memory} {buffer : Buffer} {size : Nat}

theorem lends_empty : memory.Lends .empty where
  base_aligned := rfl
  remaining_aligned := rfl
  remaining_le := Nat.le_refl _
  has _ _ spare := absurd spare Buffer.not_spare_empty

theorem lends_of_reserve (reserved : memory.reserve size = .ok (buffer, after)) :
    after.Lends buffer := by
  obtain ⟨aligned, rfl, -, reserved_eq⟩ := reserve_ok reserved
  refine ⟨?_, aligned, Nat.le_refl _, ?_⟩
  · simp only [Memory.reserved, firstAddress, pageBytes]
    omega
  · rintro address page ⟨low, high⟩
    refine ⟨page, Nat.le_trans (Nat.le_add_right _ _) low, ?_⟩
    rw [reserved_eq, ← Nat.add_assoc]
    exact high

theorem Lends.of_ready {space : Workspace} (ready : space.Ready)
    (remaining_le : space.buffer.remaining ≤ space.buffer.size) : space.memory.Lends space.buffer :=
  ⟨ready.base_aligned, ready.remaining_aligned, remaining_le, ready.spare⟩

end Memory

namespace Workspace

variable {space before after : Workspace} {level address : Nat}
  {slots : List (Fin tableEntries)}

structure Owns (space : Workspace) (level address : Nat) : Prop where
  separate : space.memory.view.SeparateBelow level address
  has : ∀ target, space.memory.view.Spans level address target → space.memory.Has target
  apart : ∀ target, space.memory.view.Spans level address target → ¬space.buffer.Spare target

structure OwnsSlots (space : Workspace) (level address : Nat) (slots : List (Fin tableEntries)) :
    Prop where
  self_has : space.memory.Has address
  self_apart : ¬space.buffer.Spare address
  self_unused : ∀ index ∈ slots,
    ¬space.memory.view.Uses level (space.memory.view.entry level address index) address
  separate : ∀ index ∈ slots,
    space.memory.view.Separate level (space.memory.view.entry level address index)
  has : ∀ index ∈ slots, ∀ target,
    space.memory.view.Uses level (space.memory.view.entry level address index) target →
      space.memory.Has target
  apart : ∀ index ∈ slots, ∀ target,
    space.memory.view.Uses level (space.memory.view.entry level address index) target →
      ¬space.buffer.Spare target
  distinct : ∀ index ∈ slots, ∀ other ∈ slots, other ≠ index → ∀ target,
    space.memory.view.Uses level (space.memory.view.entry level address index) target →
      ¬space.memory.view.Uses level (space.memory.view.entry level address other) target

theorem Owns.ownsSlots (owns : space.Owns level address) (slots : List (Fin tableEntries)) :
    space.OwnsSlots level address slots where
  self_has := owns.has address (.inl rfl)
  self_apart := owns.apart address (.inl rfl)
  self_unused index _ := (owns.separate index).2.1
  separate index _ := (owns.separate index).1
  has index _ target used := owns.has target (.inr ⟨index, used⟩)
  apart index _ target used := owns.apart target (.inr ⟨index, used⟩)
  distinct index _ other _ apart := (owns.separate index).2.2 other apart

theorem OwnsSlots.owns {index : Fin tableEntries} {pointed : UInt64} {attr : Attribute}
    (owns : space.OwnsSlots (level + 1) address slots) (member : index ∈ slots)
    (found : space.memory.view.entry (level + 1) address index = .table pointed attr) :
    space.Owns level pointed.toNat := by
  have separate := owns.separate index member
  have has := owns.has index member
  have apart := owns.apart index member
  rw [found] at separate has apart
  exact ⟨separate, has, apart⟩

theorem Holds.owns {pointed : UInt64} {attr : Attribute}
    (holds : space.Holds (level + 1) (.table pointed attr)) : space.Owns level pointed.toNat :=
  ⟨holds.tidy.separate, holds.has, holds.apart⟩

end Workspace

end Remap.PageTable
