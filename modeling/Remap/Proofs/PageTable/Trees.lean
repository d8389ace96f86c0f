import Remap.Proofs.PageTable.Again
import Remap.Proofs.PageTable.WellBuilt

/-!
# Trees that reserve their own pages

A call on a tree is made without a buffer first. If it needs pages, they are reserved and it is
made once more, so a call that is not refused succeeds. What it makes of the tree is what the call
makes of the memory that the tree has then.
-/

namespace Remap.PageTable

theorem Memory.reserve_pages (memory : Memory) {pages : Nat} (positive : pages ≠ 0) :
    ∃ buffer grown, memory.reserve (pages * pageBytes) = .ok (buffer, grown) := by
  have fine : ¬(pages * pageBytes = 0 ∨ pages * pageBytes % pageBytes ≠ 0) := by
    rw [Nat.mul_mod_left]
    simp only [pageBytes]
    omega
  rw [reserve, if_neg fine]
  exact ⟨_, _, rfl⟩

namespace Edit

variable {edit : Edit} {space : Workspace}

theorem apply_accepted (sound : space.Sound edit.mode.maxLevel)
    (lends : space.memory.Lends space.buffer) (supported : edit.mode.isSupported = true)
    (checked : edit.length ≠ 0 → edit.checkRange = .ok ())
    (defined : ¬edit.LeavesUndefined space.memory space.root) :
    (∃ required, edit.apply space = (.error (.tooSmall required), space)) ∨
      ∃ outcome after, edit.apply space = (.ok outcome, after) := by
  rcases apply_settles sound lends with ⟨cause, ran⟩ | ⟨outcome, after, ran, -, -⟩
  · refine .inl ?_
    by_cases length : edit.length = 0
    · rw [apply_empty supported length] at ran
      cases ran
    · rcases apply_refused_iff sound lends supported length (checked length) with
        ⟨undefined, -⟩ | ⟨-, ⟨required, failed⟩ | ⟨outcome, succeeded⟩⟩
      · exact absurd undefined defined
      · rw [ran] at failed
        cases failed
        exact ⟨required, ran⟩
      · rw [ran] at succeeded
        cases succeeded
  · exact .inr ⟨outcome, after, ran⟩

end Edit

namespace Tree

abbrev edit (tree : Tree) (start length : Nat) (requested mask : Attribute) : Edit :=
  ⟨tree.mode, start, length, requested, mask⟩

variable {tree : Tree} {start length linear : Nat} {requested mask : Attribute}
  {outcome : Outcome} {space after : Workspace}

theorem map_of_ok (ran : (tree.edit start length requested mask).apply
      ⟨tree.memory, tree.root, .empty⟩ = (.ok outcome, after)) :
    tree.map start length requested mask = (.ok outcome, ofWorkspace tree.mode after) := by
  rw [Tree.map, ran]

theorem map_mode (built : tree.Built) :
    (tree.map start length requested mask).2.mode = tree.mode := by
  obtain ⟨buffers, calls⟩ := built.calls
  rcases map_cases (settles_of_calls calls) with
    ⟨cause, -, map_eq⟩ | ⟨outcome, after, -, map_eq⟩ | ⟨required, buffer, grown, -, -, map_eq⟩
  · rw [map_eq]
  · rw [map_eq]
    rfl
  · rw [map_eq]
    rfl

theorem Built.supported (built : tree.Built) : tree.mode.isSupported = true := by
  induction built with
  | @new mode tree made =>
      rw [ofMode, Mode.check] at made
      cases supported : mode.isSupported with
      | true =>
          rw [supported] at made
          cases made
          exact supported
      | false =>
          rw [supported] at made
          cases made
  | map built start length requested mask small supported =>
      rw [map_mode built]
      exact supported

theorem Built.proper (built : tree.Built) (rooted : tree.root ≠ 0) :
    tree.memory.Proper tree.mode tree.root := by
  obtain ⟨buffers, calls⟩ := built.calls
  exact proper_of_calls calls rooted

theorem Built.map_refused {misuse : Misuse} (built : tree.Built) (nonempty : length ≠ 0)
    (checked : (tree.edit start length requested mask).checkRange =
      .error (.invalidParameter misuse)) :
    tree.map start length requested mask = (.error (.invalidParameter misuse), tree) := by
  have ran : (tree.edit start length requested mask).apply ⟨tree.memory, tree.root, .empty⟩ =
      (.error (.invalidParameter misuse), ⟨tree.memory, tree.root, .empty⟩) :=
    Edit.apply_invalid built.supported nonempty checked
  rw [Tree.map, ran]
  rfl

structure Remade (edit : Edit) (tree : Tree) (outcome : Outcome) (space after : Workspace) :
    Prop where
  extends_ : space.memory.Extends tree.memory
  root : space.root = tree.root
  has : ∀ target, space.Spans edit.mode.maxLevel target → space.memory.Has target
  remakes : edit.Remakes space outcome after

section Remade

variable (remade : Remade (tree.edit start length requested mask) tree outcome space after)
  (built : tree.Built)

include remade built

theorem Remade.translate_outside (startAligned : start % pageBytes = 0)
    (lengthAligned : length % pageBytes = 0) (limit : linear < tree.mode.linearLimit)
    (outside : ¬(start ≤ linear ∧ linear < start + length)) :
    after.memory.translate tree.mode after.root linear =
      tree.memory.translate tree.mode tree.root linear := by
  have same : after.memory.translate tree.mode after.root linear =
      space.memory.translate tree.mode space.root linear :=
    remade.remakes.translate_eq remade.has limit
      (Edit.pageStart_outside startAligned lengthAligned outside)
  rw [same, remade.root]
  exact remade.extends_.translate_eq built.proper linear

theorem Remade.map_again
    (checked : length ≠ 0 → (tree.edit start length requested mask).checkRange = .ok ()) :
    (ofWorkspace tree.mode after).map start length requested mask =
      (.ok .none, ofWorkspace tree.mode after) := by
  have again : (tree.edit start length requested mask).apply ⟨after.memory, after.root, .empty⟩ =
      (.ok .none, ⟨after.memory, after.root, .empty⟩) :=
    remade.remakes.again .empty ⟨built.supported, checked⟩
  have mapped : (ofWorkspace tree.mode after).map start length requested mask =
      (.ok .none, ofWorkspace tree.mode ⟨after.memory, after.root, .empty⟩) := map_of_ok again
  exact mapped

end Remade

theorem Built.map_remade (built : tree.Built)
    (small : Memory.firstAddress + (tree.map start length requested mask).2.memory.reserved ≤
      spaceSize)
    (checked : length ≠ 0 → (tree.edit start length requested mask).checkRange = .ok ())
    (defined : ¬(tree.edit start length requested mask).LeavesUndefined tree.memory tree.root) :
    ∃ outcome space after,
      tree.map start length requested mask = (.ok outcome, ofWorkspace tree.mode after) ∧
      Remade (tree.edit start length requested mask) tree outcome space after := by
  obtain ⟨buffers, calls⟩ := built.calls
  have accepted : (∃ required, (tree.edit start length requested mask).apply
        ⟨tree.memory, tree.root, .empty⟩ =
          (.error (.tooSmall required), ⟨tree.memory, tree.root, .empty⟩)) ∨
      ∃ outcome after, (tree.edit start length requested mask).apply
        ⟨tree.memory, tree.root, .empty⟩ = (.ok outcome, after) := by
    obtain ⟨sound, lends⟩ := calls.orderly.space buffers.length
    rw [Client.space_length] at sound lends
    exact Edit.apply_accepted sound lends built.supported checked defined
  rcases accepted with ⟨required, failed⟩ | ⟨outcome, after, ran⟩
  · have proper := proper_of_calls calls
    obtain ⟨-, -, -, pages, needed, -, rfl⟩ := Edit.apply_needs proper (congrArg Prod.fst failed)
    obtain ⟨buffer, grown, reserved⟩ := tree.memory.reserve_pages needed
    obtain ⟨outcome, after, ran, size_eq⟩ :=
      Edit.apply_granted proper (congrArg Prod.fst failed) reserved
    have map_eq : tree.map start length requested mask =
        (.ok outcome, ofWorkspace tree.mode after) := by
      rw [Tree.map, failed]
      dsimp only
      rw [reserved]
      dsimp only
      rw [ran]
    have fits : Memory.firstAddress + grown.reserved ≤ spaceSize := by
      rw [map_eq] at small
      rw [Memory.reserved, ← size_eq]
      exact small
    have lent : (tree.edit start length requested mask).apply
        (Client.space ⟨grown, tree.root, buffers ++ [buffer]⟩ buffers.length) =
          (.ok outcome, after) := by
      rw [Client.space_appended, ran]
    obtain ⟨remakes, has⟩ := (calls.reserve reserved fits).remakes buffers.length rfl lent
    rw [Client.space_appended] at remakes has
    exact ⟨outcome, _, after, map_eq, Memory.extends_of_reserve reserved, rfl, has, remakes⟩
  · have lent : (tree.edit start length requested mask).apply
        (Client.space ⟨tree.memory, tree.root, buffers⟩ buffers.length) =
          (.ok outcome, after) := by
      rw [Client.space_length, ran]
    obtain ⟨remakes, has⟩ := calls.remakes buffers.length rfl lent
    rw [Client.space_length] at remakes has
    exact ⟨outcome, _, after, map_of_ok ran, Memory.extends_self, rfl, has, remakes⟩

end Tree

end Remap.PageTable
