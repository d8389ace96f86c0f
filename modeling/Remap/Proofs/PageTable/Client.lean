import Remap.Proofs.PageTable.Apply
import Remap.Proofs.PageTable.Extents

/-!
# Runs of edits

A caller reserves buffers and edits its tree with pages from any of them. Along every
run of edits that succeed the tree stays sound, unused pages stay apart from it and
from each other, and the tree maps the pages that the edits make one by one.
-/

namespace Remap.PageTable

structure Client where
  memory : Memory
  root : Nat
  buffers : List Buffer

def Edit.revisePages (edit : Edit) (pages : Pages) : Pages := fun number =>
  edit.revise (number * pageBytes) (pages number)

namespace Client

def start : Client := ⟨.empty, 0, []⟩

def space (client : Client) (index : Nat) : Workspace :=
  ⟨client.memory, client.root, client.buffers.getD index .empty⟩

def keep (client : Client) (index : Nat) (space : Workspace) : Client :=
  ⟨space.memory, space.root, client.buffers.set index space.buffer⟩

/-- Reservations and edits that succeed lead from nothing to `client`, with trees of
`levels` levels, and the model goes along. Tables lie in the physical address space, as
all memory does. An edit gives values to defined fields, and its mask takes the base
address whole or leaves it. -/
inductive Reaches (levels : Nat) : Client → Pages → Prop
  | start : Reaches levels .start fun _ => none
  | reserve {client : Client} {pages : Pages} {size : Nat} {buffer : Buffer} {memory : Memory}
      (reached : Reaches levels client pages)
      (reserved : client.memory.reserve size = .ok (buffer, memory))
      (small : Memory.firstAddress + memory.reserved ≤ spaceSize) :
      Reaches levels ⟨memory, client.root, client.buffers ++ [buffer]⟩ pages
  | map {client : Client} {pages : Pages} (index : Nat) (edit : Edit) (outcome : Outcome)
      (reached : Reaches levels client pages) (height : edit.mode.maxLevel = levels)
      (defined : edit.requested.Defined) (whole : edit.mask.Whole)
      (mapped : (edit.apply (client.space index)).1 = .ok outcome) :
      Reaches levels (client.keep index (edit.apply (client.space index)).2)
        (edit.revisePages pages)

structure Sound (client : Client) (levels : Nat) (pages : Pages) : Prop where
  spaces : ∀ index, (client.space index).Sound levels
  distinct : ∀ first second, first ≠ second → ∀ address, address % pageBytes = 0 →
    (client.space first).buffer.Spare address → ¬(client.space second).buffer.Spare address
  inside : ∀ number, number * pageBytes < levelSize (levels + 1) →
    pages number = (client.space 0).page levels (number * pageBytes)
  outside : ∀ number, levelSize (levels + 1) ≤ number * pageBytes → pages number = none

variable {client : Client} {levels : Nat} {pages : Pages}

theorem sound_start : start.Sound levels fun _ => none where
  spaces := by
    intro index
    have small : Memory.firstAddress + Memory.empty.reserved ≤ spaceSize := by decide
    refine ⟨⟨rfl, rfl, ?_, small⟩, rfl, fun rooted => absurd rfl rooted⟩
    intro address _ spare
    exact absurd spare Buffer.not_spare_empty
  distinct _ _ _ _ _ spare := absurd spare Buffer.not_spare_empty
  inside _ _ := rfl
  outside _ _ := rfl

section Keep

variable {index : Nat} {edit : Edit} {after : Workspace}

theorem keep_buffer (client : Client) (index : Nat) (after : Workspace) (place : Nat) :
    (place ≠ index ∧ ((client.keep index after).space place).buffer = (client.space place).buffer) ∨
      (place = index ∧ ((client.keep index after).space place).buffer = after.buffer) ∨
      ((client.keep index after).space place).buffer = .empty := by
  simp only [space, keep, List.getD_eq_getElem?_getD]
  by_cases here : place = index
  · subst here
    by_cases listed : place < client.buffers.length
    · refine .inr (.inl ⟨rfl, ?_⟩)
      rw [List.getElem?_set_self listed, Option.getD_some]
    · refine .inr (.inr ?_)
      rw [List.getElem?_eq_none (by rw [List.length_set]; omega), Option.getD_none]
  · refine .inl ⟨here, ?_⟩
    rw [List.getElem?_set_ne (Ne.symm here)]

theorem page_space (first second linear : Nat) :
    (client.space first).page levels linear = (client.space second).page levels linear := by
  rw [Workspace.page, Workspace.page, space, space]

section

variable (sound : client.Sound levels pages)
  (reshaped : Workspace.Reshaped levels (client.space index) after)

include reshaped

theorem keep_spare {place address : Nat}
    (spare : ((client.keep index after).space place).buffer.Spare address) :
    (client.space place).buffer.Spare address ∧ (place = index → after.buffer.Spare address) := by
  rcases keep_buffer client index after place with ⟨apart, same⟩ | ⟨rfl, same⟩ | none
  · rw [same] at spare
    exact ⟨spare, fun here => absurd here apart⟩
  · rw [same] at spare
    exact ⟨reshaped.follows.spare spare, fun _ => spare⟩
  · rw [none] at spare
    exact absurd spare Buffer.not_spare_empty

include sound

theorem keep_ready (place : Nat) : ((client.keep index after).space place).Ready := by
  have ready := reshaped.follows.ready (sound.spaces index).ready
  have old := (sound.spaces place).ready
  constructor
  · rcases keep_buffer client index after place with ⟨apart, same⟩ | ⟨rfl, same⟩ | none
    · rw [same]
      exact old.base_aligned
    · rw [same]
      exact ready.base_aligned
    · rw [none]
      rfl
  · rcases keep_buffer client index after place with ⟨apart, same⟩ | ⟨rfl, same⟩ | none
    · rw [same]
      exact old.remaining_aligned
    · rw [same]
      exact ready.remaining_aligned
    · rw [none]
      rfl
  · intro address aligned spare
    exact (old.spare address aligned (keep_spare reshaped spare).1).of_size_eq
      reshaped.follows.size_eq
  · exact ready.small

theorem keep_holds (place : Nat) (rooted : after.root ≠ 0) :
    ((client.keep index after).space place).Holds (levels + 1) (.pointer after.root) := by
  refine ⟨reshaped.tidy rooted, ?_, ?_⟩
  · intro address used
    rcases reshaped.uses address ⟨rooted, used⟩ with ⟨old, used⟩ | took
    · exact (((sound.spaces index).holds old).has address used).of_size_eq
        reshaped.follows.size_eq
    · exact ((sound.spaces index).ready.spare address took.1 took.2.1).of_size_eq
        reshaped.follows.size_eq
  · intro address used spare
    have kept := keep_spare reshaped spare
    rcases reshaped.uses address ⟨rooted, used⟩ with ⟨old, used⟩ | took
    · exact ((sound.spaces place).holds old).apart address used kept.1
    · by_cases here : place = index
      · exact took.2.2 (kept.2 here)
      · exact sound.distinct place index here address took.1 kept.1 took.2.1

theorem keep_sound (place : Nat) : ((client.keep index after).space place).Sound levels :=
  ⟨keep_ready sound reshaped place, reshaped.number, keep_holds sound reshaped place⟩

theorem keep_distinct (first second : Nat) (apart : first ≠ second) (address : Nat)
    (aligned : address % pageBytes = 0)
    (spare : ((client.keep index after).space first).buffer.Spare address) :
    ¬((client.keep index after).space second).buffer.Spare address := by
  intro also
  exact sound.distinct first second apart address aligned (keep_spare reshaped spare).1
    (keep_spare reshaped also).1

end

theorem sound_keep (sound : client.Sound levels pages)
    (edited : Workspace.Edited edit levels (client.space index) after)
    (bounded : edit.length ≠ 0 → edit.stop ≤ levelSize (levels + 1)) :
    (client.keep index after).Sound levels (edit.revisePages pages) where
  spaces := keep_sound sound edited.toReshaped
  distinct := keep_distinct sound edited.toReshaped
  inside := by
    intro number inside
    have aligned : number * pageBytes % pageBytes = 0 := Nat.mul_mod_left _ _
    have revised := edited.page (number * pageBytes) inside aligned
    rw [page_space index 0, ← sound.inside number inside] at revised
    exact revised.symm
  outside := by
    intro number outside
    rw [Edit.revisePages, sound.outside number outside]
    apply Edit.revise_outside
    intro within
    by_cases empty : edit.length = 0
    · rw [Edit.stop, empty] at within
      omega
    · have := bounded empty
      omega

end Keep

section Reserve

variable {size : Nat} {buffer : Buffer} {memory : Memory}

theorem reserve_buffer (place : Nat) :
    ((⟨memory, client.root, client.buffers ++ [buffer]⟩ : Client).space place).buffer =
      if place = client.buffers.length then buffer else (client.space place).buffer := by
  simp only [space, List.getD_eq_getElem?_getD]
  split
  next here =>
    rw [here, List.getElem?_append_right (Nat.le_refl _), Nat.sub_self]
    rfl
  next apart =>
    by_cases listed : place < client.buffers.length
    · rw [List.getElem?_append_left listed]
    · rw [List.getElem?_eq_none (by rw [List.length_append, List.length_singleton]; omega),
        List.getElem?_eq_none (by omega)]

section

variable (sound : client.Sound levels pages)
  (reserved : client.memory.reserve size = .ok (buffer, memory))

include reserved

theorem reserve_spare {place address : Nat}
    (spare : ((⟨memory, client.root, client.buffers ++ [buffer]⟩ : Client).space place).buffer.Spare
      address) :
    (place = client.buffers.length ∧ Memory.firstAddress + client.memory.reserved ≤ address ∧
        address < Memory.firstAddress + memory.reserved) ∨
      (place ≠ client.buffers.length ∧ (client.space place).buffer.Spare address) := by
  obtain ⟨-, rfl, -, grown⟩ := Memory.reserve_ok reserved
  rw [reserve_buffer] at spare
  by_cases here : place = client.buffers.length
  · rw [if_pos here, Buffer.Spare] at spare
    dsimp only at spare
    refine .inl ⟨here, spare.1, ?_⟩
    omega
  · rw [if_neg here] at spare
    exact .inr ⟨here, spare⟩

theorem reserve_apart {place address : Nat} (has : client.memory.Has address)
    (apart : place ≠ client.buffers.length → ¬(client.space place).buffer.Spare address) :
    ¬((⟨memory, client.root, client.buffers ++ [buffer]⟩ : Client).space place).buffer.Spare
      address := by
  intro spare
  rcases reserve_spare reserved spare with ⟨-, low, -⟩ | ⟨here, old⟩
  · have := has.2.2
    omega
  · exact apart here old

include sound

theorem reserve_same (rooted : client.root ≠ 0) :
    Tables.SameBelow client.memory.view memory.view (levels + 1) (.pointer client.root) := by
  intro address used
  exact (Memory.extends_of_reserve reserved).view_eq
    (((sound.spaces 0).holds rooted).has address used)

theorem reserve_page (linear : Nat) :
    (space ⟨memory, client.root, client.buffers ++ [buffer]⟩ 0).page levels linear =
      (client.space 0).page levels linear := by
  by_cases rooted : client.root = 0
  · rw [Workspace.page, Workspace.page, space, space, if_pos rooted, if_pos rooted]
  · rw [Workspace.page, Workspace.page, space, space, if_neg rooted, if_neg rooted]
    exact (reserve_same sound reserved rooted).page_eq linear

theorem reserve_ready (small : Memory.firstAddress + memory.reserved ≤ spaceSize) (place : Nat) :
    ((⟨memory, client.root, client.buffers ++ [buffer]⟩ : Client).space place).Ready := by
  obtain ⟨aligned, buffer_eq, -, grown⟩ := Memory.reserve_ok reserved
  have base : buffer.base = Memory.firstAddress + client.memory.reserved :=
    congrArg Buffer.base buffer_eq
  have remaining : buffer.remaining = size := congrArg Buffer.remaining buffer_eq
  have old := (sound.spaces place).ready
  have whole : (Memory.firstAddress + client.memory.reserved) % pageBytes = 0 := by
    rw [Memory.reserved, Memory.firstAddress]
    simp only [pageBytes]
    omega
  constructor
  · rw [reserve_buffer]
    split
    next => rw [base, whole]
    next => exact old.base_aligned
  · rw [reserve_buffer]
    split
    next => rw [remaining, aligned]
    next => exact old.remaining_aligned
  · intro address page spare
    rcases reserve_spare reserved spare with ⟨-, low, high⟩ | ⟨-, spare⟩
    · exact ⟨page, Nat.le_trans (Nat.le_add_right _ _) low, high⟩
    · exact (Memory.extends_of_reserve reserved).has (old.spare address page spare)
  · exact small

theorem sound_reserve (small : Memory.firstAddress + memory.reserved ≤ spaceSize) :
    (⟨memory, client.root, client.buffers ++ [buffer]⟩ : Client).Sound levels pages where
  spaces := by
    intro place
    refine ⟨reserve_ready sound reserved small place, (sound.spaces 0).number, ?_⟩
    intro rooted
    have same := reserve_same sound reserved rooted
    have holds := (sound.spaces place).holds rooted
    refine ⟨same.tidy holds.tidy, ?_, ?_⟩
    · intro address used
      exact (Memory.extends_of_reserve reserved).has (holds.has address (same.uses_iff.mp used))
    · intro address used
      have old := same.uses_iff.mp used
      exact reserve_apart reserved (holds.has address old) fun _ => holds.apart address old
  distinct := by
    intro first second apart address aligned firstSpare secondSpare
    rcases reserve_spare reserved firstSpare with ⟨here, low, -⟩ | ⟨-, firstOld⟩
    · rcases reserve_spare reserved secondSpare with ⟨there, -⟩ | ⟨-, secondOld⟩
      · exact apart (here.trans there.symm)
      · have := ((sound.spaces second).ready.spare address aligned secondOld).2.2
        change address < Memory.firstAddress + client.memory.reserved at this
        omega
    · refine reserve_apart reserved ((sound.spaces first).ready.spare address aligned firstOld)
        (fun _ => ?_) secondSpare
      exact sound.distinct first second apart address aligned firstOld
  inside := by
    intro number inside
    rw [reserve_page sound reserved]
    exact sound.inside number inside
  outside := sound.outside

end

end Reserve

theorem Reaches.sound (reached : Reaches levels client pages) : client.Sound levels pages := by
  induction reached with
  | start => exact sound_start
  | reserve reached reserved small induction => exact sound_reserve induction reserved small
  | map index edit outcome reached height defined whole mapped induction =>
      subst height
      have applied : edit.apply (_ : Workspace) = (.ok outcome, _) := Prod.ext mapped rfl
      obtain ⟨edited, bounded⟩ := Edit.apply_edited defined whole (induction.spaces index) applied
      exact sound_keep induction edited bounded

end Client

end Remap.PageTable
