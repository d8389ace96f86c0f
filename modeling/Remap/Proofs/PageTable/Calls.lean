import Remap.PageTable.Tree
import Remap.Proofs.PageTable.Guarded
import Remap.Proofs.PageTable.ReadBack
import Remap.Proofs.PageTable.Refusal
import Remap.Proofs.PageTable.Reshape

/-!
# Runs of calls

A caller reserves buffers and edits its tree, whatever masks it uses and whether or not the
calls succeed. Along every such run the tree stays sound, so a commit never fails: a call
either succeeds or leaves everything as it was, and none of the checks that a walk makes on
its way fails. A tree that reserves its own pages is such a caller, and what it reserves
suffices.
-/

namespace Remap.PageTable

namespace Workspace

variable {space : Workspace} {levels : Nat}

theorem Sound.owns (sound : space.Sound levels) (rooted : space.root ≠ 0) :
    space.Owns levels space.root := by
  have owns := (sound.holds rooted).owns
  rwa [sound.number] at owns

theorem Sound.proper {mode : Mode} (sound : space.Sound mode.maxLevel) (rooted : space.root ≠ 0) :
    space.memory.Proper mode space.root :=
  ⟨(sound.owns rooted).has, (sound.owns rooted).separate⟩

end Workspace

namespace Edit

open Workspace

variable {edit : Edit} {space : Workspace}

inductive Settles (edit : Edit) (space : Workspace) : Prop
  | failed (cause : Error) (ran : edit.apply space = (.error cause, space))
  | done (outcome : Outcome) (after : Workspace) (ran : edit.apply space = (.ok outcome, after))
      (reshaped : Reshaped edit.mode.maxLevel space after) (lends : after.memory.Lends after.buffer)

section Sound

variable (sound : space.Sound edit.mode.maxLevel) (lends : space.memory.Lends space.buffer)

include sound lends

theorem apply_settles : edit.Settles space := by
  by_cases passes : edit.mode.isSupported = true ∧ edit.length ≠ 0 ∧ edit.checkRange = .ok ()
  · obtain ⟨supported, length, checked⟩ := passes
    obtain ⟨start_aligned, length_aligned, -⟩ := checkRange_ok checked
    have ran : edit.apply space = _ := apply_eq supported length checked
    cases counted : edit.demand space.memory space.root with
    | error cause =>
        rw [counted] at ran
        exact .failed cause ran
    | ok pages =>
        rw [counted] at ran
        dsimp only at ran
        split at ran
        next => exact .failed _ ran
        next room =>
          obtain ⟨outcome, after, committed, -, -, lent, -⟩ :=
            commit_spends space lends sound.owns counted (Nat.le_of_not_lt room)
          exact .done outcome after (ran.trans committed)
            (commit_reshaped start_aligned length_aligned sound committed) lent
  · rcases apply_refused passes with ⟨cause, -, refused⟩ | idle
    · exact .failed cause (refused space)
    · exact .done .none space (idle space) (.refl sound) lends

variable (supported : edit.mode.isSupported = true) (length : edit.length ≠ 0)
  (checked : edit.checkRange = .ok ())

include supported length checked

/-- An edit that passes the checks of its arguments is refused just if it leaves fields of a
new page undefined. Otherwise it succeeds, or the buffer is too small. -/
theorem apply_refused_iff :
    (edit.LeavesUndefined space.memory space.root ∧
      (edit.apply space).1 = .error (.invalidParameter .incompleteMask)) ∨
    (¬edit.LeavesUndefined space.memory space.root ∧
      ((∃ required, (edit.apply space).1 = .error (.tooSmall required)) ∨
        ∃ outcome, (edit.apply space).1 = .ok outcome)) := by
  have resolves (rooted : space.root ≠ 0) :
      Resolves space.memory edit.mode.maxLevel (.stored space.root) := by
    intro address stored
    cases stored
    exact (sound.owns rooted).has
  have ran : edit.apply space = _ := apply_eq supported length checked
  cases counted : edit.demand space.memory space.root with
  | error cause =>
      obtain ⟨rfl, undefined⟩ := (demand_error_iff checked length resolves).mp counted
      rw [counted] at ran
      exact .inl ⟨undefined, congrArg Prod.fst ran⟩
  | ok pages =>
      refine .inr ⟨fun undefined => ?_, ?_⟩
      · rw [(demand_error_iff checked length resolves).mpr ⟨rfl, undefined⟩] at counted
        cases counted
      · rw [counted] at ran
        dsimp only at ran
        split at ran
        next => exact .inl ⟨_, congrArg Prod.fst ran⟩
        next room =>
          obtain ⟨outcome, after, committed, -⟩ :=
            commit_spends space lends sound.owns counted (Nat.le_of_not_lt room)
          exact .inr ⟨outcome, congrArg Prod.fst (ran.trans committed)⟩

end Sound

/-- What a call without a buffer asks for suffices it. -/
theorem apply_granted {memory grown : Memory} {root required : Nat} {buffer : Buffer}
    (proper : root ≠ 0 → memory.Proper edit.mode root)
    (failed : (edit.apply ⟨memory, root, .empty⟩).1 = .error (.tooSmall required))
    (reserved : memory.reserve required = .ok (buffer, grown)) :
    ∃ outcome after, edit.apply ⟨grown, root, buffer⟩ = (.ok outcome, after) ∧
      after.memory.tables.size = grown.tables.size := by
  obtain ⟨supported, length, checked, pages, counted, rfl⟩ := apply_tooSmall proper failed
  obtain ⟨-, buffer_eq, extends_, -⟩ := Memory.reserve_ok reserved
  have base : buffer.base = Memory.firstAddress + memory.reserved :=
    congrArg Buffer.base buffer_eq
  have remaining : buffer.remaining = pages * pageBytes := congrArg Buffer.remaining buffer_eq
  have recounted : edit.demand grown root = .ok pages :=
    (demand_extends extends_ proper).trans counted
  have apart (rooted : root ≠ 0) (target : Nat)
      (spanned : memory.view.Spans edit.mode.maxLevel root target) : ¬buffer.Spare target := by
    intro spare
    have high := ((proper rooted).resolves target spanned).2.2
    have low := spare.1
    omega
  obtain ⟨outcome, after, committed, -, -, -, size_eq⟩ :=
    commit_spends ⟨grown, root, buffer⟩ (Memory.lends_of_reserve reserved)
      (fun rooted => (proper rooted).owns extends_ (apart rooted)) recounted
      (Nat.le_of_eq remaining.symm)
  refine ⟨outcome, after, ?_, size_eq⟩
  rw [apply_eq supported length checked]
  dsimp only
  rw [recounted]
  dsimp only
  rw [remaining, if_neg (Nat.lt_irrefl _), committed]

end Edit

namespace Client

/-- Reservations and calls lead from nothing to `client`, with trees of `levels` levels,
whatever the calls return. Tables lie in the physical address space, as all memory does. -/
inductive Calls (levels : Nat) : Client → Prop
  | start : Calls levels .start
  | reserve {client : Client} {size : Nat} {buffer : Buffer} {memory : Memory}
      (calls : Calls levels client) (reserved : client.memory.reserve size = .ok (buffer, memory))
      (small : Memory.firstAddress + memory.reserved ≤ spaceSize) :
      Calls levels ⟨memory, client.root, client.buffers ++ [buffer]⟩
  | map {client : Client} (index : Nat) (edit : Edit) (calls : Calls levels client)
      (height : edit.mode.maxLevel = levels) :
      Calls levels (client.keep index (edit.apply (client.space index)).2)

variable {client : Client} {levels : Nat}

theorem sound_of_spaces (spaces : ∀ index, (client.space index).Sound levels)
    (distinct : ∀ first second, first ≠ second → ∀ address, address % pageBytes = 0 →
      (client.space first).buffer.Spare address → ¬(client.space second).buffer.Spare address) :
    ∃ pages, client.Sound levels pages :=
  ⟨fun number => if number * pageBytes < levelSize (levels + 1) then
      (client.space 0).page levels (number * pageBytes) else none,
    spaces, distinct, fun _ inside => if_pos inside,
    fun _ outside => if_neg (Nat.not_lt.mpr outside)⟩

theorem space_length (memory : Memory) (root : Nat) (buffers : List Buffer) :
    (⟨memory, root, buffers⟩ : Client).space buffers.length = ⟨memory, root, .empty⟩ := by
  rw [space, List.getD_eq_getElem?_getD, List.getElem?_eq_none (Nat.le_refl _)]
  rfl

theorem space_appended (memory : Memory) (root : Nat) (buffers : List Buffer) (buffer : Buffer) :
    (⟨memory, root, buffers ++ [buffer]⟩ : Client).space buffers.length =
      ⟨memory, root, buffer⟩ := by
  rw [space, List.getD_eq_getElem?_getD, List.getElem?_concat_length]
  rfl

structure Orderly (client : Client) (levels : Nat) : Prop where
  sound : ∃ pages, client.Sound levels pages
  remaining_le : ∀ index,
    (client.space index).buffer.remaining ≤ (client.space index).buffer.size

theorem Orderly.space (orderly : client.Orderly levels) (index : Nat) :
    (client.space index).Sound levels ∧
      (client.space index).memory.Lends (client.space index).buffer := by
  obtain ⟨pages, sound⟩ := orderly.sound
  exact ⟨sound.spaces index,
    .of_ready (sound.spaces index).ready (orderly.remaining_le index)⟩

theorem orderly_start : start.Orderly levels where
  sound := ⟨_, sound_start⟩
  remaining_le _ := Nat.le_refl _

theorem Orderly.reserve {size : Nat} {buffer : Buffer} {memory : Memory}
    (orderly : client.Orderly levels) (reserved : client.memory.reserve size = .ok (buffer, memory))
    (small : Memory.firstAddress + memory.reserved ≤ spaceSize) :
    Orderly ⟨memory, client.root, client.buffers ++ [buffer]⟩ levels where
  sound := by
    obtain ⟨pages, sound⟩ := orderly.sound
    exact ⟨pages, sound_reserve sound reserved small⟩
  remaining_le := by
    intro place
    rw [reserve_buffer]
    split
    next => exact (Memory.lends_of_reserve reserved).remaining_le
    next => exact orderly.remaining_le place

theorem Orderly.keep {index : Nat} {after : Workspace} (orderly : client.Orderly levels)
    (reshaped : Workspace.Reshaped levels (client.space index) after)
    (remaining_le : after.buffer.remaining ≤ after.buffer.size) :
    (client.keep index after).Orderly levels where
  sound := by
    obtain ⟨pages, sound⟩ := orderly.sound
    exact sound_of_spaces (keep_sound sound reshaped) (keep_distinct sound reshaped)
  remaining_le := by
    intro place
    rcases keep_buffer client index after place with ⟨-, same⟩ | ⟨-, same⟩ | none
    · rw [same]
      exact orderly.remaining_le place
    · rw [same]
      exact remaining_le
    · rw [none]
      exact Nat.le_refl _

theorem Orderly.settles {edit : Edit} (orderly : client.Orderly levels) (index : Nat)
    (height : edit.mode.maxLevel = levels) : edit.Settles (client.space index) := by
  subst height
  obtain ⟨sound, lends⟩ := orderly.space index
  exact Edit.apply_settles sound lends

theorem Orderly.map {edit : Edit} (orderly : client.Orderly levels) (index : Nat)
    (height : edit.mode.maxLevel = levels) :
    (client.keep index (edit.apply (client.space index)).2).Orderly levels := by
  obtain ⟨sound, lends⟩ := orderly.space index
  rcases orderly.settles index height with ⟨cause, ran⟩ | ⟨outcome, after, ran, reshaped, lent⟩
  · rw [ran]
    exact orderly.keep (.refl sound) lends.remaining_le
  · subst height
    rw [ran]
    exact orderly.keep reshaped lent.remaining_le

theorem Calls.orderly (calls : client.Calls levels) : client.Orderly levels := by
  induction calls with
  | start => exact orderly_start
  | reserve calls reserved small induction => exact induction.reserve reserved small
  | map index edit calls height induction => exact induction.map index height

end Client

namespace Tree

variable {tree : Tree} {start length required : Nat} {requested mask : Attribute}
  {cause : Error} {after : Workspace} {outcome : Outcome}

inductive Built : Tree → Prop
  | new {mode : Mode} {tree : Tree} (made : ofMode mode = .ok tree) : Built tree
  | map {tree : Tree} (built : Built tree) (start length : Nat) (requested mask : Attribute)
      (small : Memory.firstAddress + (tree.map start length requested mask).2.memory.reserved ≤
        spaceSize) :
      Built (tree.map start length requested mask).2

theorem map_cases
    (settles : Edit.Settles ⟨tree.mode, start, length, requested, mask⟩
      ⟨tree.memory, tree.root, .empty⟩) :
    (∃ cause, (∀ required, cause ≠ .tooSmall required) ∧
      tree.map start length requested mask = (.error cause, tree)) ∨
    (∃ outcome after, Edit.apply ⟨tree.mode, start, length, requested, mask⟩
        ⟨tree.memory, tree.root, .empty⟩ = (.ok outcome, after) ∧
      tree.map start length requested mask = (.ok outcome, ofWorkspace tree.mode after)) ∨
    ∃ required buffer grown, (Edit.apply ⟨tree.mode, start, length, requested, mask⟩
        ⟨tree.memory, tree.root, .empty⟩).1 = .error (.tooSmall required) ∧
      tree.memory.reserve required = .ok (buffer, grown) ∧
      tree.map start length requested mask =
        ((Edit.apply ⟨tree.mode, start, length, requested, mask⟩ ⟨grown, tree.root, buffer⟩).1,
          ofWorkspace tree.mode (Edit.apply ⟨tree.mode, start, length, requested, mask⟩
            ⟨grown, tree.root, buffer⟩).2) := by
  rw [map]
  rcases settles with ⟨cause, ran⟩ | ⟨outcome, after, ran, -, -⟩
  · rw [ran]
    cases cause with
    | unsupported mode => exact .inl ⟨_, fun _ => Error.noConfusion, rfl⟩
    | invalidParameter misuse => exact .inl ⟨_, fun _ => Error.noConfusion, rfl⟩
    | tooSmall required =>
        dsimp only
        cases reserved : tree.memory.reserve required with
        | error cause =>
            refine .inl ⟨cause, ?_, rfl⟩
            rintro other rfl
            rw [Memory.reserve] at reserved
            split at reserved <;> cases reserved
        | ok pair =>
            obtain ⟨buffer, grown⟩ := pair
            exact .inr (.inr ⟨required, buffer, grown, rfl, reserved, rfl⟩)
  · rw [ran]
    exact .inr (.inl ⟨outcome, after, rfl, rfl⟩)

theorem settles_of_calls {buffers : List Buffer}
    (calls : Client.Calls tree.mode.maxLevel ⟨tree.memory, tree.root, buffers⟩) :
    Edit.Settles ⟨tree.mode, start, length, requested, mask⟩ ⟨tree.memory, tree.root, .empty⟩ := by
  obtain ⟨sound, lends⟩ := calls.orderly.space buffers.length
  rw [Client.space_length] at sound lends
  exact Edit.apply_settles sound lends

theorem proper_of_calls {buffers : List Buffer}
    (calls : Client.Calls tree.mode.maxLevel ⟨tree.memory, tree.root, buffers⟩)
    (rooted : tree.root ≠ 0) : tree.memory.Proper tree.mode tree.root :=
  (calls.orderly.space 0).1.proper rooted

theorem ofMode_ok {mode : Mode} (made : ofMode mode = .ok tree) : tree = ⟨mode, .empty, 0⟩ := by
  rw [ofMode] at made
  cases checked : mode.check with
  | error cause =>
      rw [checked] at made
      cases made
  | ok =>
      rw [checked] at made
      cases made
      rfl

theorem Built.calls (built : tree.Built) :
    ∃ buffers, Client.Calls tree.mode.maxLevel ⟨tree.memory, tree.root, buffers⟩ := by
  induction built with
  | @new mode tree made =>
      cases ofMode_ok made
      exact ⟨[], .start⟩
  | @map tree built start length requested mask small induction =>
      obtain ⟨buffers, calls⟩ := induction
      let edit : Edit := ⟨tree.mode, start, length, requested, mask⟩
      rcases map_cases (settles_of_calls calls) with
        ⟨cause, -, map_eq⟩ | ⟨outcome, after, ran, map_eq⟩ |
          ⟨required, buffer, grown, failed, reserved, map_eq⟩
      · rw [map_eq]
        exact ⟨buffers, calls⟩
      · have next := calls.map buffers.length edit rfl
        rw [Client.space_length, ran] at next
        rw [map_eq]
        exact ⟨_, next⟩
      · obtain ⟨outcome, after, ran, size_eq⟩ :=
          Edit.apply_granted (proper_of_calls calls) failed reserved
        rw [map_eq, ran] at small ⊢
        have fits : Memory.firstAddress + grown.reserved ≤ spaceSize := by
          rw [Memory.reserved, ← size_eq]
          exact small
        have next := (calls.reserve reserved fits).map buffers.length edit rfl
        rw [Client.space_appended, ran] at next
        exact ⟨_, next⟩

theorem map_ne_tooSmall (built : tree.Built) :
    (tree.map start length requested mask).1 ≠ .error (.tooSmall required) := by
  obtain ⟨buffers, calls⟩ := built.calls
  rcases map_cases (settles_of_calls calls) with
    ⟨cause, other, map_eq⟩ | ⟨outcome, after, ran, map_eq⟩ |
      ⟨_, buffer, grown, failed, reserved, map_eq⟩
  · rw [map_eq]
    exact fun failed => other required (Except.error.inj failed)
  · rw [map_eq]
    intro failed
    cases failed
  · obtain ⟨outcome, after, ran, -⟩ := Edit.apply_granted (proper_of_calls calls) failed reserved
    rw [map_eq, ran]
    intro failed
    cases failed

end Tree

namespace Client

variable {client : Client} {levels : Nat}

section Call

variable (calls : client.Calls levels) (index : Nat) {edit : Edit}
  (height : edit.mode.maxLevel = levels)

include calls height

theorem Calls.settles : edit.Settles (client.space index) :=
  calls.orderly.settles index height

theorem Calls.unchanged {cause : Error}
    (failed : (edit.apply (client.space index)).1 = .error cause) :
    (edit.apply (client.space index)).2 = client.space index := by
  rcases calls.settles index height with ⟨other, ran⟩ | ⟨outcome, after, ran, -, -⟩
  · rw [ran]
  · rw [ran] at failed
    cases failed

theorem Calls.refused_iff (supported : edit.mode.isSupported = true) (length : edit.length ≠ 0)
    (checked : edit.checkRange = .ok ()) :
    ((∃ misuse, (edit.apply (client.space index)).1 = .error (.invalidParameter misuse)) ↔
        edit.LeavesUndefined client.memory client.root) ∧
      ((∃ misuse, (edit.apply (client.space index)).1 = .error (.invalidParameter misuse)) ∨
        (∃ required, (edit.apply (client.space index)).1 = .error (.tooSmall required)) ∨
        ∃ outcome, (edit.apply (client.space index)).1 = .ok outcome) := by
  subst height
  obtain ⟨sound, lends⟩ := calls.orderly.space index
  rcases Edit.apply_refused_iff sound lends supported length checked with
    ⟨undefined, ran⟩ | ⟨defined, ran⟩
  · exact ⟨iff_of_true ⟨_, ran⟩ undefined, .inl ⟨_, ran⟩⟩
  · refine ⟨iff_of_false ?_ defined, .inr ran⟩
    rintro ⟨misuse, refused⟩
    rcases ran with ⟨required, ran⟩ | ⟨outcome, ran⟩
    · rw [refused] at ran
      cases ran
    · rw [refused] at ran
      cases ran

end Call

/-- Whatever was called before, a call that fails leaves the memory, the root and the buffer as
they were. Where its arguments pass the checks, it is refused as invalid if and only if it would
leave fields of a new page undefined. No check of the walk itself fails, and a tree that reserves
its own pages never lacks any. -/
theorem calls_settle :
    (∀ (levels : Nat) (client : Client), client.Calls levels →
      ∀ (index : Nat) (edit : Edit), edit.mode.maxLevel = levels →
        (∀ cause, (edit.apply (client.space index)).1 = .error cause →
          (edit.apply (client.space index)).2 = client.space index) ∧
        (edit.mode.isSupported = true → edit.length ≠ 0 → edit.checkRange = .ok () →
          ((∃ misuse, (edit.apply (client.space index)).1 = .error (.invalidParameter misuse)) ↔
              edit.LeavesUndefined client.memory client.root) ∧
            ((∃ misuse, (edit.apply (client.space index)).1 =
                .error (.invalidParameter misuse)) ∨
              (∃ required, (edit.apply (client.space index)).1 = .error (.tooSmall required)) ∨
              ∃ outcome, (edit.apply (client.space index)).1 = .ok outcome))) ∧
    (∀ (edit : Edit) (space : Workspace), edit.applyGuarded space =
      ((edit.apply space).1.mapError .refused, (edit.apply space).2)) ∧
    ∀ tree : Tree, tree.Built → ∀ start length requested mask required,
      (tree.map start length requested mask).1 ≠ .error (.tooSmall required) := by
  refine ⟨?_, fun _ => Edit.applyGuarded_eq, fun tree built _ _ _ _ _ => Tree.map_ne_tooSmall built⟩
  intro levels client calls index edit height
  exact ⟨fun _ => calls.unchanged index height, calls.refused_iff index height⟩

def partialEdit : Edit := ⟨.fourLevel .page1G, 0x1000, 0x2000, ⟨3⟩, ⟨3⟩⟩

def reservedClient : Client := ⟨smallMemory, 0, [smallBuffer]⟩

def smallClient : Client := reservedClient.keep 0 (smallEdit.apply (reservedClient.space 0)).2

theorem smallClient_calls : smallClient.Calls 4 := by
  have taken : start.memory.reserve 0x4000 = .ok (smallBuffer, smallMemory) := rfl
  exact .map 0 smallEdit (.reserve .start taken (by decide)) rfl

theorem partialEdit_leavesUndefined :
    partialEdit.LeavesUndefined smallClient.memory smallClient.root :=
  ⟨rfl, rfl, 0x2000, by decide, by decide, by decide, by decide +kernel⟩

def smallTree : Tree := (Tree.map ⟨.fourLevel .page1G, .empty, 0⟩ 0x1000 0x1000 ⟨0x5007⟩ .all).2

theorem calls_settle_small :
    smallClient.Calls 4 ∧
      (∃ misuse, (partialEdit.apply (smallClient.space 0)).1 =
        .error (.invalidParameter misuse)) ∧
      (partialEdit.apply (smallClient.space 0)).2 = smallClient.space 0 ∧
      smallTree.Built ∧ ∀ required,
        (smallTree.map 0x2000 0x1000 ⟨0x6007⟩ .all).1 ≠ .error (.tooSmall required) := by
  have taken : start.memory.reserve 0x4000 = .ok (smallBuffer, smallMemory) := rfl
  have reserved : reservedClient.Calls 4 := .reserve .start taken (by decide)
  have calls : smallClient.Calls 4 := .map 0 smallEdit reserved rfl
  have checked : partialEdit.checkRange = .ok () := ok_of_toOption (by decide)
  obtain ⟨settles, -, enough⟩ := calls_settle
  obtain ⟨unchanged, refused⟩ := settles 4 smallClient calls 0 partialEdit rfl
  have invalid := (refused rfl (by decide) checked).1.mpr partialEdit_leavesUndefined
  have made : Tree.ofMode (.fourLevel .page1G) = .ok ⟨.fourLevel .page1G, .empty, 0⟩ := rfl
  have built : smallTree.Built := .map (.new made) 0x1000 0x1000 ⟨0x5007⟩ .all (by decide +kernel)
  refine ⟨calls, invalid, ?_, built, fun _ => enough _ built _ _ _ _ _⟩
  obtain ⟨misuse, ran⟩ := invalid
  exact unchanged _ ran

end Client

end Remap.PageTable
