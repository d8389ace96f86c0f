import Mathlib.Data.List.Nodup
import Remap.Proofs.Block.Arena.Mount

/-!
# Replaying slots

Replaying a slot stores one word of the map, the entry of the block that the slot names. So
slots that name different blocks can be replayed in any order, each decided by the map as it
was before all of them, and replaying them again changes nothing.
-/

namespace Remap.Block

open Remap.Media

def FlogSlot.completed (slot : FlogSlot) (entry : MapEntry) : MapEntry :=
  if entry.explicit slot.active.lba = slot.active.oldMap then slot.active.newMap else entry

theorem FlogSlot.completed_completed (slot : FlogSlot) (entry : MapEntry) :
    slot.completed (slot.completed entry) = slot.completed entry := by
  unfold completed
  by_cases old : entry.explicit slot.active.lba = slot.active.oldMap
  · rw [if_pos old, ite_self]
  · rw [if_neg old, if_neg old]

namespace Arena

variable {arena : Arena} {contents : Contents} {slot other : FlogSlot}
  {slots others : List FlogSlot} {lba : UInt32}

theorem storeWord_entryAt :
    contents.storeWord (arena.entryOffset lba) (arena.entryAt contents lba).raw = contents :=
  Contents.storeWord_word

theorem replayed_eq (arena : Arena) (contents : Contents) (slot : FlogSlot) :
    arena.replayed contents slot = contents.storeWord (arena.entryOffset slot.active.lba)
      (slot.completed (arena.entryAt contents slot.active.lba)).raw := by
  rw [replayed, FlogSlot.completed]
  split
  next => rfl
  next => exact storeWord_entryAt.symm

theorem entryAt_replayed_same :
    arena.entryAt (arena.replayed contents slot) slot.active.lba =
      slot.completed (arena.entryAt contents slot.active.lba) := by
  rw [replayed_eq, entryAt_storeWord_same]

theorem entryAt_replayed_other (different : lba ≠ slot.active.lba) :
    arena.entryAt (arena.replayed contents slot) lba = arena.entryAt contents lba := by
  rw [replayed_eq, entryAt_storeWord_other different]

theorem replayed_comm (different : slot.active.lba ≠ other.active.lba) :
    arena.replayed (arena.replayed contents slot) other =
      arena.replayed (arena.replayed contents other) slot := by
  rw [replayed_eq _ (arena.replayed contents slot), entryAt_replayed_other different.symm,
    replayed_eq _ (arena.replayed contents other), entryAt_replayed_other different,
    replayed_eq, replayed_eq]
  exact Contents.storeWord_comm (arena.entry_apart different)

theorem replayed_completed (done : slot.completed (arena.entryAt contents slot.active.lba) =
    arena.entryAt contents slot.active.lba) : arena.replayed contents slot = contents := by
  rw [replayed_eq, done]
  exact storeWord_entryAt

def Distinct (slots : List FlogSlot) : Prop :=
  (slots.map fun slot => slot.active.lba).Nodup

theorem entryAt_replayAll_other (unnamed : ∀ slot ∈ slots, lba ≠ slot.active.lba) :
    arena.entryAt (slots.foldl arena.replayed contents) lba = arena.entryAt contents lba := by
  induction slots generalizing contents with
  | nil => rfl
  | cons slot rest induction =>
      rw [List.foldl_cons, induction fun later member => unnamed later (List.mem_cons_of_mem _ member)]
      exact entryAt_replayed_other (unnamed slot List.mem_cons_self)

/-- Each named entry is completed from what it was before all the slots. -/
theorem entryAt_replayAll (distinct : Distinct slots) (member : slot ∈ slots) :
    arena.entryAt (slots.foldl arena.replayed contents) slot.active.lba =
      slot.completed (arena.entryAt contents slot.active.lba) := by
  induction slots generalizing contents with
  | nil => cases member
  | cons first rest induction =>
      obtain ⟨fresh, distinct⟩ := List.nodup_cons.mp distinct
      have apart (later : FlogSlot) (member : later ∈ rest) :
          first.active.lba ≠ later.active.lba :=
        fun equal => fresh (List.mem_map.mpr ⟨later, member, equal.symm⟩)
      rw [List.foldl_cons]
      rcases List.mem_cons.mp member with rfl | later
      · rw [entryAt_replayAll_other apart, entryAt_replayed_same]
      · rw [induction distinct later, entryAt_replayed_other (apart slot later).symm]

/-- The slots can be replayed in any order. -/
theorem replayAll_perm (distinct : Distinct slots) (perm : slots.Perm others) :
    slots.foldl arena.replayed contents = others.foldl arena.replayed contents := by
  apply perm.foldl_eq'
  intro first firstMember second secondMember contents
  by_cases same : first = second
  · rw [same]
  · refine replayed_comm fun equal => same ?_
    exact List.inj_on_of_nodup_map distinct firstMember secondMember equal

theorem replayAll_completed
    (done : ∀ slot ∈ slots, slot.completed (arena.entryAt contents slot.active.lba) =
      arena.entryAt contents slot.active.lba) :
    slots.foldl arena.replayed contents = contents := by
  induction slots with
  | nil => rfl
  | cons slot rest induction =>
      rw [List.foldl_cons, replayed_completed (done slot List.mem_cons_self)]
      exact induction fun later member => done later (List.mem_cons_of_mem slot member)

theorem replayAll_changed {position : Nat}
    (changed : slots.foldl arena.replayed contents position ≠ contents position) :
    ∃ slot ∈ slots, arena.entryOffset slot.active.lba ≤ position ∧
      position < arena.entryOffset slot.active.lba + mapEntryBytes := by
  induction slots generalizing contents with
  | nil => exact absurd rfl changed
  | cons slot rest induction =>
      rw [List.foldl_cons] at changed
      by_cases first : arena.replayed contents slot position = contents position
      · rw [← first] at changed
        obtain ⟨later, member, inside⟩ := induction changed
        exact ⟨later, List.mem_cons_of_mem slot member, inside⟩
      · refine ⟨slot, List.mem_cons_self, ?_⟩
        by_contra outside
        rw [replayed_eq, Contents.storeWord, Contents.store_outside] at first
        · exact first rfl
        · rw [LittleEndian.length_encode]
          simp only [mapEntryBytes] at outside
          omega

end Arena

end Remap.Block
