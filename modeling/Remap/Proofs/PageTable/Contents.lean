import Remap.Proofs.PageTable.Fill
import Remap.Proofs.PageTable.Trees

/-!
# What trees hold

The extents that are read from a tree are the maximal runs of the pages that it holds, so trees
with the same pages are read back alike. A call that succeeds makes of each page of a tree what its
edit makes of that page, and takes just the pages that were counted for it.
-/

namespace Remap.PageTable

namespace Memory

variable {memory : Memory} {level address linear : Nat} {parent attr : Attribute}

theorem grants_of_pageBelow (grants : parent.Grants)
    (found : memory.pageBelow level address parent linear = some attr) : attr.Grants := by
  induction level generalizing address parent with
  | zero => cases found
  | succ level induction =>
      cases held : memory.table address with
      | error cause =>
          rw [pageBelow, held] at found
          cases found
      | ok table =>
          rw [pageBelow_eq held] at found
          generalize read : Entry.decode (table.word (slotOf (level + 1) linear)) (level + 1) =
            entry at found
          cases entry with
          | absent => cases found
          | table child below =>
              exact induction ((Entry.decode_table_grants read).inherit grants) found
          | leaf size leaf =>
              have fits := (Entry.decode_leaf read).2.inherit grants
              cases found
              exact ⟨fits.defined.advance _, (Attribute.has_advance _ _).trans fits.present⟩

theorem grants_of_pages {mode : Mode} {root number : Nat}
    (found : memory.pages mode root number = some attr) : attr.Grants := by
  rw [pages] at found
  split at found
  next => exact grants_of_pageBelow Attribute.grants_permissive found
  next => cases found

end Memory

theorem Memory.Extends.nodes_eq {memory grown : Memory} {mode : Mode} {root : Nat}
    {first second : Buffer} (extends_ : grown.Extends memory)
    (proper : root ≠ 0 → memory.Proper mode root) :
    Workspace.nodes ⟨grown, root, first⟩ mode.maxLevel =
      Workspace.nodes ⟨memory, root, second⟩ mode.maxLevel := by
  by_cases rooted : root = 0
  · rw [Workspace.nodes_unrooted rooted, Workspace.nodes_unrooted rooted]
  · rw [Workspace.nodes_rooted rooted, Workspace.nodes_rooted rooted]
    exact Tables.nodes_of_same fun target spanned =>
      extends_.view_eq ((proper rooted).resolves target spanned)

theorem Client.Calls.ran {client : Client} {levels : Nat} (calls : client.Calls levels) :
    ∃ edits, client.Ran levels edits := by
  induction calls with
  | start => exact ⟨[], .start⟩
  | reserve calls reserved small induction =>
      obtain ⟨edits, ran⟩ := induction
      exact ⟨edits, .reserve ran reserved small⟩
  | map index edit calls height induction =>
      obtain ⟨edits, ran⟩ := induction
      exact ⟨edit :: edits, .map index edit ran height⟩

theorem Client.Sound.pages_applied {client : Client} {pages : Pages} {index : Nat}
    {outcome : Outcome} {after : Workspace} (edit : Edit)
    (sound : client.Sound edit.mode.maxLevel pages) (defined : edit.requested.Defined)
    (whole : edit.mask.Whole) (ran : edit.apply (client.space index) = (.ok outcome, after)) :
    after.memory.pages edit.mode after.root = edit.revisePages pages := by
  obtain ⟨edited, bounded⟩ := Edit.apply_edited defined whole (sound.spaces index) ran
  exact Client.pages_eq (Client.sound_keep sound edited bounded) rfl

theorem Mode.slotOf_root (mode : Mode) {linear : Nat} {index : Fin tableEntries}
    (low : index.val * levelSize mode.maxLevel ≤ linear)
    (high : linear < index.val * levelSize mode.maxLevel + levelSize mode.maxLevel) :
    slotOf mode.maxLevel linear = index := by
  apply slotOf_eq (Nat.zero_mod _) mode.maxLevel_ne_zero
  · rwa [Nat.zero_add]
  · rwa [Nat.zero_add]

namespace Tree

def pages (tree : Tree) : Pages := tree.memory.pages tree.mode tree.root

abbrev space (tree : Tree) : Workspace := ⟨tree.memory, tree.root, .empty⟩

variable {tree next : Tree} {start length linear count : Nat} {requested mask : Attribute}
  {outcome : Outcome} {extents : List Extent}

theorem Built.has (built : tree.Built) (target : Nat)
    (spanned : tree.space.Spans tree.mode.maxLevel target) : tree.memory.Has target :=
  (built.proper spanned.1).resolves target spanned.2

theorem Built.pages_eq_nodes (built : tree.Built) (limit : linear < tree.mode.linearLimit)
    (aligned : linear % pageBytes = 0) : tree.pages (linear / pageBytes) =
      (tree.space.nodes tree.mode.maxLevel (slotOf tree.mode.maxLevel linear)).page
        tree.mode.maxLevel .permissive linear := by
  rw [pages, Memory.pages, Nat.div_mul_cancel (Nat.dvd_of_mod_eq_zero aligned)]
  by_cases unrooted : tree.root = 0
  · have blank : (Node.plain 0).entry tree.mode.maxLevel = .absent := Entry.decode_zero
    rw [if_neg fun both => both.1 unrooted, Workspace.nodes_unrooted unrooted,
      Node.page_absent blank]
  · rw [if_pos ⟨unrooted, limit⟩, Workspace.nodes_rooted unrooted,
      Memory.pageBelow_eq_nodes tree.mode.maxLevel_ne_zero (built.proper unrooted).resolves]

theorem Built.regular (built : tree.Built) : ∃ limit, ∀ index,
    (tree.space.nodes tree.mode.maxLevel index).Regular limit tree.mode.maxLevel := by
  obtain ⟨buffers, calls⟩ := built.calls
  obtain ⟨edits, ran⟩ := calls.ran
  exact ⟨_, ran.furnished.regular⟩

theorem Built.sturdy (built : tree.Built) : ¬tree.memory.Broken tree.mode tree.root := by
  obtain ⟨buffers, calls⟩ := built.calls
  obtain ⟨pages, sound⟩ := calls.orderly.sound
  exact Client.not_broken sound rfl

theorem extents_full (supported : tree.mode.isSupported = true)
    (passes : (tree.memory.scan tree.mode tree.root).failure = none) :
    tree.extents = .ok (Extent.merge (tree.memory.scan tree.mode tree.root).found) := by
  have report (output : List Extent) : tree.memory.report tree.mode tree.root output = _ :=
    Memory.report_passed supported passes
  generalize Extent.merge (tree.memory.scan tree.mode tree.root).found = extents at report ⊢
  dsimp only at report
  rw [Tree.extents, report, List.length_nil]
  by_cases none : extents = []
  · rw [none]
    rfl
  · rw [if_pos (List.length_pos_iff.mpr none)]
    dsimp only
    rw [report, List.length_replicate, if_neg (Nat.lt_irrefl _)]
    dsimp only
    rw [List.take_left]

theorem Built.passes (built : tree.Built) :
    (tree.memory.scan tree.mode tree.root).failure = none :=
  Memory.scan_passes_iff.mpr built.sturdy

/-- Reading a tree reports the maximal runs of its pages. -/
theorem Built.extents_eq (built : tree.Built) (compacts : Compacts tree.pages extents) :
    tree.extents = .ok extents := by
  rw [extents_full built.supported built.passes,
    (Memory.scan_compacts built.passes).unique compacts]

theorem Built.compacts (built : tree.Built) : ∃ extents, Compacts tree.pages extents :=
  ⟨_, Memory.scan_compacts built.passes⟩

theorem Built.small (built : tree.Built) :
    Memory.firstAddress + tree.memory.reserved ≤ spaceSize := by
  obtain ⟨buffers, calls⟩ := built.calls
  exact (calls.orderly.space 0).1.ready.small

theorem Built.map_next {result : Except Error Outcome} (built : tree.Built)
    (small : Memory.firstAddress + next.memory.reserved ≤ spaceSize)
    (mapped : tree.map start length requested mask = (result, next)) : next.Built := by
  have same : (tree.map start length requested mask).2 = next := congrArg Prod.snd mapped
  rw [← same] at small ⊢
  exact .map built start length requested mask small

theorem Built.map_pages (built : tree.Built)
    (small : Memory.firstAddress + next.memory.reserved ≤ spaceSize)
    (defined : requested.Defined) (whole : mask.Whole)
    (mapped : tree.map start length requested mask = (.ok outcome, next)) :
    next.pages = (tree.edit start length requested mask).revisePages tree.pages := by
  obtain ⟨buffers, calls⟩ := built.calls
  obtain ⟨pages, sound⟩ := calls.orderly.sound
  rw [show tree.pages = pages from Client.pages_eq sound rfl]
  rcases map_cases (settles_of_calls calls) with
    ⟨cause, -, map_eq⟩ | ⟨done, after, ran, map_eq⟩ |
      ⟨required, buffer, grown, failed, reserved, map_eq⟩
  · rw [map_eq] at mapped
    cases mapped
  · rw [map_eq] at mapped
    cases mapped
    rw [← Client.space_length tree.memory tree.root buffers] at ran
    exact sound.pages_applied (tree.edit start length requested mask) defined whole ran
  · obtain ⟨done, after, ran, size_eq⟩ :=
      Edit.apply_granted (proper_of_calls calls) failed reserved
    rw [map_eq, ran] at mapped
    cases mapped
    have fits : Memory.firstAddress + grown.reserved ≤ spaceSize := by
      rw [Memory.reserved, ← size_eq]
      exact small
    rw [← Client.space_appended grown tree.root buffers buffer] at ran
    have wider := Client.sound_reserve sound reserved fits
    exact wider.pages_applied (tree.edit start length requested mask) defined whole ran

section Counted

variable (built : tree.Built) (nonempty : length ≠ 0)
  (checked : (tree.edit start length requested mask).checkRange = .ok ())

include built nonempty checked

theorem Built.map_unpaid
    (counted : (tree.edit start length requested mask).demand tree.memory tree.root = .ok 0) :
    ∃ outcome next, tree.map start length requested mask = (.ok outcome, next) ∧
      outcome.pages = 0 ∧ next.mode = tree.mode ∧
      next.memory.tables.size = tree.memory.tables.size := by
  have owns (rooted : tree.root ≠ 0) :=
    (built.proper rooted).owns Memory.extends_self fun _ _ => Buffer.not_spare_empty
  obtain ⟨outcome, after, ran, pages_eq, -, -, size_eq⟩ :=
    Edit.commit_spends tree.space Memory.lends_empty owns counted (Nat.zero_le _)
  have applied : (tree.edit start length requested mask).apply tree.space = _ :=
    Edit.apply_eq built.supported nonempty checked
  rw [counted] at applied
  dsimp only at applied
  rw [Nat.zero_mul, if_neg (Nat.not_lt_zero _), ran] at applied
  exact ⟨outcome, _, map_of_ok applied, pages_eq, rfl, size_eq⟩

theorem Built.map_paid (counted : (tree.edit start length requested mask).demand tree.memory
      tree.root = .ok count) :
    ∃ outcome next, tree.map start length requested mask = (.ok outcome, next) ∧
      next.mode = tree.mode ∧
      next.memory.tables.size = tree.memory.tables.size + count := by
  by_cases unpaid : count = 0
  · subst unpaid
    obtain ⟨outcome, next, map_eq, -, mode_eq, size_eq⟩ :=
      built.map_unpaid nonempty checked counted
    exact ⟨outcome, next, map_eq, mode_eq, size_eq⟩
  · have failed : (tree.edit start length requested mask).apply tree.space = _ :=
      Edit.apply_eq built.supported nonempty checked
    have needed : tree.space.buffer.remaining < count * pageBytes :=
      Nat.mul_pos (Nat.pos_of_ne_zero unpaid) (by decide)
    rw [counted] at failed
    dsimp only at failed
    rw [if_pos needed] at failed
    obtain ⟨buffer, grown, reserved⟩ := tree.memory.reserve_pages unpaid
    obtain ⟨outcome, after, ran, size_eq⟩ := Edit.apply_granted
      (fun rooted => built.proper rooted) (congrArg Prod.fst failed) reserved
    have grown_eq := (Memory.reserve_ok reserved).2.2.2
    refine ⟨outcome, ofWorkspace tree.mode after, ?_, rfl, ?_⟩
    · rw [Tree.map, failed]
      dsimp only
      rw [reserved]
      dsimp only
      rw [ran]
    · rw [Memory.reserved, Memory.reserved, ← Nat.add_mul] at grown_eq
      exact size_eq.trans (Nat.eq_of_mul_eq_mul_right (by decide) grown_eq)

end Counted

end Tree

end Remap.PageTable
