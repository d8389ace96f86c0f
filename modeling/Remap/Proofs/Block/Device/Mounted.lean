import Remap.Proofs.Block.Arena.Format
import Remap.Proofs.Block.Arena.Load

/-!
# The arenas of a device together

The blocks of a device are numbered through its arenas, whose spans do not overlap. What
one arena does leaves the others alone, so the contents of a media hold a device if they
hold each of its arenas.
-/

namespace Remap.Block

open Remap.Media

def InOrder (homes : List Arena) : Prop :=
  homes.Pairwise fun first second => first.span.stop ≤ second.span.base

def AgreeApart (homes : List Arena) (after before : Contents) : Prop :=
  ∀ position, (∀ home ∈ homes, position < home.span.base ∨ home.span.stop ≤ position) →
    after position = before position

/-- The contents hold every arena; `value` numbers the blocks through all of them. -/
def AllKept : List Arena → (Nat → List UInt8) → Contents → Prop
  | [], _, _ => True
  | home :: rest, value, contents =>
      home.Kept (fun lba => value lba.toNat) contents ∧
        AllKept rest (fun lba => value (home.info.external.toNat + lba)) contents

def Mounted : List Arena → List Arena → (Nat → List UInt8) → Contents → Prop
  | [], [], _, _ => True
  | home :: homes, arena :: arenas, value, contents =>
      home.Holds arena (fun lba => value lba.toNat) contents ∧
        Mounted homes arenas (fun lba => value (home.info.external.toNat + lba)) contents
  | _, _, _, _ => False

variable {homes arenas : List Arena} {home : Arena} {value other : Nat → List UInt8}
  {contents before after : Contents}

theorem AgreeApart.agreeOn (agree : AgreeApart homes after before)
    (ordered : InOrder (home :: homes)) :
    before.AgreeOn after home.span.base home.span.stop := by
  intro position lower upper
  refine (agree position fun later member => ?_).symm
  have behind := (List.pairwise_cons.mp ordered).1 later member
  omega

theorem AgreeApart.cons (agree : AgreeApart homes after before) :
    AgreeApart (home :: homes) after before :=
  fun position apart => agree position fun later member =>
    apart later (List.mem_cons_of_mem home member)

theorem agreeApart_of_outside
    (agree : after.AgreeOutside before home.span.base home.span.stop) :
    AgreeApart (home :: homes) after before :=
  fun position apart => agree position (apart home List.mem_cons_self)

theorem AgreeApart.trans {middle : Contents} (first : AgreeApart homes middle before)
    (second : AgreeApart homes after middle) : AgreeApart homes after before :=
  fun position apart => (second position apart).trans (first position apart)

theorem AllKept.congr (kept : AllKept homes value before)
    (agree : ∀ home ∈ homes, before.AgreeOn after home.span.base home.span.stop) :
    AllKept homes value after := by
  induction homes generalizing value with
  | nil => trivial
  | cons home rest induction =>
      constructor
      · exact kept.1.congr (agree home List.mem_cons_self)
      · exact induction kept.2 fun later member => agree later (List.mem_cons_of_mem home member)

theorem Mounted.congr (mounted : Mounted homes arenas value before)
    (agree : ∀ home ∈ homes, before.AgreeOn after home.span.base home.span.stop) :
    Mounted homes arenas value after := by
  fun_induction Mounted homes arenas value before with
  | case1 => trivial
  | case2 home homes arena arenas value before induction =>
      constructor
      · exact mounted.1.congr (agree home List.mem_cons_self)
      · exact induction mounted.2 fun later member => agree later (List.mem_cons_of_mem home member)
  | case3 => exact mounted.elim

theorem Mounted.allKept (mounted : Mounted homes arenas value contents) :
    AllKept homes value contents := by
  fun_induction Mounted homes arenas value contents with
  | case1 => trivial
  | case2 home homes arena arenas value contents induction =>
      exact ⟨mounted.1.kept, induction mounted.2⟩
  | case3 => exact mounted.elim

theorem agreeOn_of_outside (agree : after.AgreeOutside before home.span.base home.span.stop)
    (ordered : InOrder (home :: homes)) :
    ∀ later ∈ homes, before.AgreeOn after later.span.base later.span.stop := by
  intro later member
  exact (agree.agreeOn (.inr ((List.pairwise_cons.mp ordered).1 later member))).symm

theorem Arena.Holds.external_eq {arena : Arena} {value : UInt32 → List UInt8}
    (holds : home.Holds arena value contents) : arena.info.external = home.info.external := by
  obtain ⟨target, head, others, durable, same, -⟩ := holds
  exact same

theorem Device.place_cases {arena : Arena} {arenas : List Arena} {lba index : Nat} {block : UInt32}
    (placed : Device.place? (arena :: arenas) lba = some (index, block)) :
    (index = 0 ∧ lba < arena.info.external.toNat ∧ block.toNat = lba) ∨
      ∃ later, index = later + 1 ∧ arena.info.external.toNat ≤ lba ∧
        Device.place? arenas (lba - arena.info.external.toNat) = some (later, block) := by
  rw [Device.place?] at placed
  dsimp only at placed
  split at placed
  next inside =>
    cases placed
    left
    refine ⟨rfl, inside, ?_⟩
    rw [UInt32.toNat_ofNat']
    exact Nat.mod_eq_of_lt (Nat.lt_trans inside arena.info.external.toNat_lt)
  next outside =>
    right
    obtain ⟨⟨later, found⟩, inner, equal⟩ := Option.map_eq_some_iff.mp placed
    cases equal
    exact ⟨later, rfl, Nat.not_lt.mp outside, inner⟩

section Numbers

variable {lba count : Nat} {bytes : List UInt8}

theorem shift_update (later : count ≤ lba) :
    (fun number => Function.update value lba bytes (count + number)) =
      Function.update (fun number => value (count + number)) (lba - count) bytes := by
  obtain ⟨place, rfl⟩ := Nat.exists_eq_add_of_le later
  rw [Nat.add_sub_cancel_left]
  exact Function.update_comp_eq_of_injective' value (fun _ _ => Nat.add_left_cancel) place bytes

theorem shift_update_of_lt (earlier : lba < count) :
    (fun number => Function.update value lba bytes (count + number)) =
      fun number => value (count + number) :=
  Function.update_comp_eq_of_forall_ne' value bytes fun number => by omega

theorem update_toNat {block : UInt32} (block_eq : block.toNat = lba) (other : UInt32) :
    Function.update (fun block : UInt32 => value block.toNat) block bytes other =
      Function.update value lba bytes other.toNat := by
  subst block_eq
  exact (Function.update_apply_of_injective value (fun _ _ => UInt32.toNat_inj.mp) block bytes
    other).symm

end Numbers

variable {μ : Type} [Media μ] [Atomic μ] {size : Nat} {sound : Prop} {arena : Arena}
  {lba index : Nat} {block blockSize : UInt32} {bytes : List UInt8}

/-- A write to the arena of a block replaces that block, if its sequence number is stored, and
no other. -/
theorem Mounted.write {media : μ} (mounted : Mounted homes arenas value before)
    (ordered : InOrder homes) (room : ∀ home ∈ homes, home.span.stop ≤ size)
    (sizes : ∀ home ∈ homes, home.info.externalSize = blockSize)
    (placed : Device.place? arenas lba = some (index, block))
    (found : arenas[index]? = some arena) (width : bytes.length = blockSize.toNat)
    (shown : Shows media size sound before) :
    ∃ after, Shows (arena.write block bytes media).2 size sound after ∧
      AgreeApart homes after before ∧
      Mounted homes (arenas.set index (arena.write block bytes media).1.2)
        (Function.update value lba
          (if arena.lands block bytes media then bytes else value lba)) after ∧
      (sound → arena.readOnly = false →
        (arena.write block bytes media).1.1 = .ok () ∧ arena.lands block bytes media = true ∧
          (arena.write block bytes media).1.2.readOnly = false) := by
  fun_induction Mounted homes arenas value before generalizing lba index with
  | case1 => simp [Device.place?] at placed
  | case2 home homes first arenas value before induction =>
      obtain ⟨holds, rest⟩ := mounted
      have external_eq := holds.external_eq
      rcases Device.place_cases placed with ⟨rfl, inside, block_eq⟩ | ⟨later, rfl, behind, inner⟩
      · cases found
        rw [external_eq] at inside
        have blockInside : block < home.info.external := by
          rw [UInt32.lt_iff_toNat_lt, block_eq]
          exact inside
        obtain ⟨after, shownAfter, outside, held, fine⟩ :=
          Arena.write_holds holds shown (room home List.mem_cons_self) blockInside
            (sizes home List.mem_cons_self ▸ width)
        refine ⟨after, shownAfter, agreeApart_of_outside outside, ⟨?_, ?_⟩, fine⟩
        · apply held.value_congr
          intro other _
          split
          next => exact update_toNat block_eq other
          next => rw [Function.update_eq_self]
        · rw [shift_update_of_lt inside]
          exact rest.congr (agreeOn_of_outside outside ordered)
      · rw [external_eq] at behind inner
        have orderedRest := (List.pairwise_cons.mp ordered).2
        obtain ⟨after, shownAfter, outside, held, fine⟩ := induction rest orderedRest
          (fun later member => room later (List.mem_cons_of_mem home member))
          (fun later member => sizes later (List.mem_cons_of_mem home member))
          inner (by simpa using found) shown
        have same : home.info.external.toNat + (lba - home.info.external.toNat) = lba := by omega
        dsimp only at held
        rw [same] at held
        refine ⟨after, shownAfter, outside.cons, ⟨?_, ?_⟩, fine⟩
        · apply (holds.congr (outside.agreeOn ordered)).value_congr
          intro other inside
          have numbers : other.toNat ≠ lba := by
            have below := UInt32.lt_iff_toNat_lt.mp inside
            omega
          exact (Function.update_of_ne numbers _ value).symm
        · rw [shift_update behind]
          exact held
  | case3 => exact mounted.elim

theorem Mounted.read (mounted : Mounted homes arenas value before)
    (room : ∀ home ∈ homes, home.span.stop ≤ size)
    (sizes : ∀ home ∈ homes, home.info.externalSize = blockSize)
    (placed : Device.place? arenas lba = some (index, block))
    (found : arenas[index]? = some arena) :
    (arena.read block blockSize.toNat : Step μ _).Meets size sound before
      (fun bytes after => after = before ∧ (arena.readOnly = false → bytes = value lba))
      (fun _ after => after = before ∧ (arena.readOnly = false → ¬ sound)) := by
  fun_induction Mounted homes arenas value before generalizing lba index with
  | case1 => simp [Device.place?] at placed
  | case2 home homes first arenas value before induction =>
      obtain ⟨holds, rest⟩ := mounted
      have external_eq := holds.external_eq
      rcases Device.place_cases placed with ⟨rfl, inside, block_eq⟩ | ⟨later, rfl, behind, inner⟩
      · cases found
        rw [external_eq] at inside
        have blockInside : block < home.info.external := by
          rw [UInt32.lt_iff_toNat_lt, block_eq]
          exact inside
        have result : (arena.read block home.info.externalSize.toNat : Step μ _).Meets size sound
            before _ _ := Arena.read_holds holds (room home List.mem_cons_self) blockInside
        rw [sizes home List.mem_cons_self] at result
        rwa [block_eq] at result
      · rw [external_eq] at behind inner
        have result := induction rest
          (fun later member => room later (List.mem_cons_of_mem home member))
          (fun later member => sizes later (List.mem_cons_of_mem home member))
          inner (by simpa using found)
        have same : home.info.external.toNat + (lba - home.info.external.toNat) = lba := by omega
        dsimp only at result
        rwa [same] at result
  | case3 => exact mounted.elim

theorem Device.place_of_lt {arenas : List Arena} {lba : Nat}
    (inside : lba < Device.countBlocks arenas) :
    ∃ index block arena, Device.place? arenas lba = some (index, block) ∧
      arenas[index]? = some arena := by
  induction arenas generalizing lba with
  | nil => exact absurd inside (Nat.not_lt_zero lba)
  | cons arena rest induction =>
      rw [Device.countBlocks] at inside
      rw [Device.place?]
      dsimp only
      by_cases here : lba < arena.info.external.toNat
      · rw [if_pos here]
        exact ⟨0, _, arena, rfl, rfl⟩
      · rw [if_neg here]
        have below : lba - arena.info.external.toNat < Device.countBlocks rest := by omega
        obtain ⟨index, block, later, placed, found⟩ := induction below
        rw [placed]
        exact ⟨index + 1, block, later, rfl, by simpa using found⟩

theorem Device.place_lt {arenas : List Arena} {lba index : Nat} {block : UInt32}
    (placed : Device.place? arenas lba = some (index, block)) :
    lba < Device.countBlocks arenas ∧ ∃ arena, arenas[index]? = some arena := by
  induction arenas generalizing lba index with
  | nil => simp [Device.place?] at placed
  | cons arena rest induction =>
      rw [Device.countBlocks]
      rcases Device.place_cases placed with ⟨rfl, inside, -⟩ | ⟨later, rfl, behind, inner⟩
      · exact ⟨by omega, arena, rfl⟩
      · obtain ⟨below, other, found⟩ := induction inner
        exact ⟨by omega, other, by simpa using found⟩

theorem Device.place_inj {arenas : List Arena} {left right index : Nat} {block : UInt32}
    (leftPlaced : Device.place? arenas left = some (index, block))
    (rightPlaced : Device.place? arenas right = some (index, block)) : left = right := by
  induction arenas generalizing left right index with
  | nil => simp [Device.place?] at leftPlaced
  | cons arena rest induction =>
      rcases Device.place_cases leftPlaced with ⟨rfl, -, leftBlock⟩ | ⟨later, rfl, behind, inner⟩
      · rcases Device.place_cases rightPlaced with ⟨-, -, rightBlock⟩ | ⟨_, impossible, -⟩
        · exact leftBlock.symm.trans rightBlock
        · cases impossible
      · rcases Device.place_cases rightPlaced with ⟨impossible, -⟩ | ⟨_, same, rightBehind, other⟩
        · cases impossible
        · cases same
          have shifted := induction inner other
          omega

theorem Mounted.countBlocks_eq (mounted : Mounted homes arenas value contents) :
    Device.countBlocks arenas = Device.countBlocks homes := by
  fun_induction Mounted homes arenas value contents with
  | case1 => rfl
  | case2 home homes arena arenas value contents induction =>
      rw [Device.countBlocks, Device.countBlocks, induction mounted.2, mounted.1.external_eq]
  | case3 => exact mounted.elim

end Remap.Block
