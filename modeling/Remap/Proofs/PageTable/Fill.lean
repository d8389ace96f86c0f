import Remap.Proofs.PageTable.LeafLevel
import Remap.Proofs.PageTable.Tables

/-!
# Edits of unmapped ranges

An edit that maps a range where nothing was mapped takes a page only for a table that has a page of
the range then. So the pages that were taken for trees that such edits build are no more than the
tables with a page that is mapped.
-/

namespace Remap.PageTable

namespace Node

def Occupied (node : Node) (level slot : Nat) : Prop :=
  ∃ linear, slot ≤ linear ∧ linear < slot + levelSize level ∧
    (node.leafLevel level linear).isSome = true

open Classical in
noncomputable def occupied : Node → (level slot : Nat) → Nat
  | plain _, _, _ => 0
  | table marks entries, level, slot =>
      (if (table marks entries).Occupied level slot then 1 else 0) +
        ∑ index, (entries index).occupied (level - 1) (slot + index.val * levelSize (level - 1))

variable {level slot linear : Nat} {parent : Attribute} {node : Node} {marks : UInt64}
  {entries : Fin tableEntries → Node}

theorem isSome_leafLevel (parent : Attribute) : (node.leafLevel level linear).isSome =
    (node.page level parent (pageStart linear)).isSome := by
  induction node generalizing level parent with
  | plain word =>
      rw [leafLevel, page]
      cases Entry.decode word level <;> rfl
  | table marks entries induction =>
      rw [leafLevel, page, slotOf_pageStart]
      cases Entry.decode marks level with
      | absent | leaf => rfl
      | table pointed attr => exact induction _ _

theorem occupied_le_tables : node.occupied level slot ≤ node.tables := by
  induction node generalizing level slot with
  | plain word => exact Nat.le_refl 0
  | table marks entries induction =>
      rw [occupied, tables]
      have below := Finset.sum_le_sum fun index (_ : index ∈ Finset.univ) =>
        @induction index (level - 1) (slot + index.val * levelSize (level - 1))
      split <;> omega

theorem occupied_table (found : (table marks entries).Occupied (level + 1) slot) :
    (table marks entries).occupied (level + 1) slot = 1 + ∑ index,
      (entries index).occupied level (slot + index.val * levelSize level) := by
  rw [occupied, if_pos found]
  rfl

theorem occupied_table_of_not (missing : ¬(table marks entries).Occupied (level + 1) slot) :
    (table marks entries).occupied (level + 1) slot = ∑ index,
      (entries index).occupied level (slot + index.val * levelSize level) := by
  rw [occupied, if_neg missing, Nat.zero_add]
  rfl

theorem sum_le_occupied (marks : UInt64) (entries : Fin tableEntries → Node) (level slot : Nat) :
    ∑ index, (entries index).occupied level (slot + index.val * levelSize level) ≤
      (table marks entries).occupied (level + 1) slot := by
  rw [occupied]
  exact Nat.le_add_left _ _

theorem occupied_le_of_sums {others : Fin tableEntries → Node} {count : Nat}
    (kept : (table marks entries).Occupied (level + 1) slot →
      (table marks others).Occupied (level + 1) slot)
    (sums : count + ∑ index, (entries index).occupied level (slot + index.val * levelSize level) ≤
      ∑ index, (others index).occupied level (slot + index.val * levelSize level)) :
    count + (table marks entries).occupied (level + 1) slot ≤
      (table marks others).occupied (level + 1) slot := by
  by_cases here : (table marks entries).Occupied (level + 1) slot
  · rw [occupied_table here, occupied_table (kept here)]
    omega
  · have more := sum_le_occupied marks others level slot
    rw [occupied_table_of_not here]
    omega

theorem leafLevel_child (formed : (table marks entries).Formed (level + 1))
    (aligned : slot % levelSize (level + 1) = 0) (positive : level ≠ 0) {index : Fin tableEntries}
    (low : slot + index.val * levelSize level ≤ linear)
    (high : linear < slot + index.val * levelSize level + levelSize level) :
    (table marks entries).leafLevel (level + 1) linear =
      (entries index).leafLevel level linear := by
  cases formed with
  | table found inner => rw [leafLevel_table found, slotOf_eq aligned positive low high]

theorem occupied_eq_zero (formed : node.Formed level) (aligned : slot % levelSize level = 0)
    (missing : ¬node.Occupied level slot) : node.occupied level slot = 0 := by
  induction formed generalizing slot with
  | plain => rfl
  | @table level marks pointed attr entries found inner induction =>
      have positive : level ≠ 0 := by
        have := Entry.decode_table found
        omega
      rw [occupied_table_of_not missing]
      refine Finset.sum_eq_zero fun index _ => induction index (slot_aligned aligned positive _) ?_
      rintro ⟨linear, low, high, mapped⟩
      refine missing ⟨linear, Nat.le_trans (Nat.le_add_right _ _) low,
        Nat.lt_of_lt_of_le high (slot_stop_le positive _ index), ?_⟩
      rwa [leafLevel_child (.table found inner) aligned positive low high]

end Node

namespace Edit

structure Maps (edit : Edit) : Prop where
  start : edit.start % pageBytes = 0
  length : edit.length % pageBytes = 0
  complete : edit.mask.isComplete = true
  creates : edit.creates = true

def Clear (edit : Edit) (level slot : Nat) (node : Node) : Prop :=
  ∀ linear, edit.start ≤ linear → linear < edit.stop → slot ≤ linear →
    linear < slot + levelSize level → node.leafLevel level linear = none

variable {edit : Edit} {level slot linear : Nat} {parent : Attribute} {before after node : Node}
  {marks word : UInt64} {entries : Fin tableEntries → Node}

theorem Clear.child (clear : edit.Clear (level + 1) slot (.table marks entries))
    (formed : (Node.table marks entries).Formed (level + 1))
    (aligned : slot % levelSize (level + 1) = 0) (positive : level ≠ 0)
    (index : Fin tableEntries) :
    edit.Clear level (slot + index.val * levelSize level) (entries index) := by
  intro linear starts stops low high
  rw [← Node.leafLevel_child formed aligned positive low high]
  exact clear linear starts stops (Nat.le_trans (Nat.le_add_right _ _) low)
    (Nat.lt_of_lt_of_le high (slot_stop_le positive _ index))

theorem clear_blank : edit.Clear level slot (.plain 0) := by
  have blank : (Node.plain 0).entry level = .absent := Entry.decode_zero
  exact fun _ _ _ _ _ => Node.leafLevel_absent blank

theorem Rewrites.isSome_outside (rewrites : edit.Rewrites level parent slot before after)
    (maps : edit.Maps) (above : Above level slot linear parent) (formed : before.Formed level)
    (outside : ¬(edit.start ≤ linear ∧ linear < edit.stop)) :
    (after.leafLevel level linear).isSome = (before.leafLevel level linear).isSome := by
  have low : slot ≤ pageStart linear := by
    have slotAligned := page_of_slot above.aligned
    have := above.low
    have := lt_pageStart_add linear
    have := pageStart_aligned linear
    simp only [pageBytes] at *
    omega
  have high := Nat.lt_of_le_of_lt (pageStart_le linear) above.high
  rw [Node.isSome_leafLevel parent, Node.isSome_leafLevel parent,
    rewrites.page_outside ⟨above.positive, above.aligned, low, high, above.grants⟩ formed
      (pageStart_aligned linear) (pageStart_outside maps.start maps.length outside)]

theorem Rewrites.isSome_inside (rewrites : edit.Rewrites level parent slot before after)
    (maps : edit.Maps) (above : Above level slot linear parent) (formed : before.Formed level)
    (starts : edit.start ≤ linear) (stops : linear < edit.stop) :
    (after.leafLevel level linear).isSome = true := by
  obtain ⟨low, high⟩ := (pageStart_inside_iff maps.start maps.length).mpr ⟨starts, stops⟩
  have suits : edit.Suits 1 (pageStart linear) := by
    have lengthAligned := maps.length
    have startAligned := maps.start
    have pageAligned := pageStart_aligned linear
    have baseAligned := Attribute.base_aligned edit.requested
    have whole : pageStart linear + levelSize 1 ≤ edit.stop := by
      simp only [stop, levelSize_one, pageBytes] at *
      omega
    constructor
    case positive => exact Nat.le_refl 1
    case low => exact maxLeafLevel_pos edit.mode
    case aligned => exact pageAligned
    case covered => simp only [covers, low, whole, decide_true, Bool.and_self]
    case assigned =>
      simp only [physical, levelSize_one, pageBytes] at *
      omega
  obtain ⟨reached, found, -⟩ := rewrites.leafLevel above formed suits maps.complete maps.creates
    (pageStart_le linear) (lt_pageStart_add linear) (Nat.pos_of_ne_zero above.positive)
  rw [found]
  rfl

theorem Rewrites.occupied_of_met (rewrites : edit.Rewrites level parent slot before after)
    (maps : edit.Maps) (positive : level ≠ 0) (aligned : slot % levelSize level = 0)
    (grants : parent.Grants) (formed : before.Formed level)
    (met : edit.meets slot (levelSize level) = true) : after.Occupied level slot := by
  rw [meets_iff] at met
  have high : max edit.start slot < slot + levelSize level := by omega
  have stops : max edit.start slot < edit.stop := by omega
  refine ⟨max edit.start slot, Nat.le_max_right _ _, high, ?_⟩
  exact rewrites.isSome_inside maps ⟨positive, aligned, Nat.le_max_right _ _, high, grants⟩ formed
    (Nat.le_max_left _ _) stops

theorem Rewrites.occupied_of_occupied (rewrites : edit.Rewrites level parent slot before after)
    (maps : edit.Maps) (positive : level ≠ 0) (aligned : slot % levelSize level = 0)
    (grants : parent.Grants) (formed : before.Formed level)
    (clear : edit.Clear level slot before) (occupied : before.Occupied level slot) :
    after.Occupied level slot := by
  obtain ⟨linear, low, high, mapped⟩ := occupied
  refine ⟨linear, low, high, ?_⟩
  rw [rewrites.isSome_outside maps ⟨positive, aligned, low, high, grants⟩ formed, mapped]
  rintro ⟨starts, stops⟩
  rw [clear linear starts stops low high] at mapped
  cases mapped

/-- What an edit of a range takes below a node where the range is unmapped is no more than the
tables that have a page afterwards and had none before. -/
theorem Rewrites.occupied_le (rewrites : edit.Rewrites level parent slot before after)
    (maps : edit.Maps) (positive : level ≠ 0) (aligned : slot % levelSize level = 0)
    (grants : parent.Grants) (formed : before.Formed level)
    (clear : edit.Clear level slot before) :
    edit.nodeDemand level parent slot before + before.occupied level slot ≤
      after.occupied level slot := by
  induction rewrites with
  | @apart level parent slot node unmet =>
      obtain ⟨lower, rfl⟩ := Nat.exists_eq_succ_of_ne_zero positive
      rw [nodeDemand_unmet unmet, Nat.zero_add]
  | @keep level parent slot node acted =>
      obtain ⟨lower, rfl⟩ := Nat.exists_eq_succ_of_ne_zero positive
      rw [nodeDemand_idle acted rfl, Nat.zero_add]
  | @store level parent slot node entry acted =>
      obtain ⟨lower, rfl⟩ := Nat.exists_eq_succ_of_ne_zero positive
      have writes := writes_of_writesLeaf (store_cases acted).1
      -- the slot lies in the range, so nothing was mapped that the leaf takes the place of
      have missing : ¬node.Occupied (lower + 1) slot := by
        rintro ⟨linear, low, high, mapped⟩
        obtain ⟨starts, stops⟩ := writes.inside low high
        rw [clear linear starts stops low high] at mapped
        cases mapped
      rw [nodeDemand_idle acted rfl, Node.occupied_eq_zero formed aligned missing]
      exact Nat.zero_le _
  | @enter level parent below slot address marks entries others acted inner induction =>
      have lower := inner_of_enter acted
      obtain ⟨pointed, attr, found, -, rfl⟩ := enter_cases acted
      have sums := Finset.sum_le_sum fun index (_ : index ∈ Finset.univ) =>
        induction index lower (slot_aligned aligned lower _)
          ((Entry.decode_table_grants found).inherit grants) (formed.of_table index)
          (clear.child formed aligned lower index)
      rw [Finset.sum_add_distrib] at sums
      have counted : edit.nodeDemand (level + 1) parent slot (.table marks entries) ≤
          ∑ index : Fin tableEntries, edit.nodeDemand level (attr.inherit parent)
            (slot + index.val * levelSize level) (entries index) := by
        cases met : edit.meets slot (levelSize (level + 1)) with
        | false =>
            rw [nodeDemand_unmet met]
            exact Nat.zero_le _
        | true => exact Nat.le_of_eq (nodeDemand_enter met acted)
      have below := Node.occupied_le_of_sums
        (Rewrites.occupied_of_occupied (.enter acted inner) maps positive aligned grants formed
          clear) sums
      omega
  | @grow level parent below slot word entries lower acted rewritten induction =>
      cases met : edit.meets slot (levelSize (level + 1)) with
      | false =>
          rw [nodeDemand_unmet met]
          exact Nat.zero_le _
      | true =>
          obtain ⟨-, rfl⟩ := grow_cases acted
          have sums := Finset.sum_le_sum fun index (_ : index ∈ Finset.univ) =>
            induction index lower (slot_aligned aligned lower _)
              (Attribute.grants_permissive.inherit grants) .plain clear_blank
          rw [Finset.sum_add_distrib] at sums
          have filled := Rewrites.occupied_of_met (.grow lower acted rewritten) maps positive
            aligned grants formed met
          rw [nodeDemand_grow met acted, Node.occupied_table filled, Node.occupied]
          omega
  | @split level parent leaf below slot word entries lower acted rewritten induction =>
      cases met : edit.meets slot (levelSize (level + 1)) with
      | false =>
          rw [nodeDemand_unmet met]
          exact Nat.zero_le _
      | true =>
          obtain ⟨size, attr, found, -, -⟩ := split_cases acted
          rw [meets_iff] at met
          -- a leaf that the range meets would map a part of it
          have missing := clear (max edit.start slot) (Nat.le_max_left _ _) (by omega)
            (Nat.le_max_right _ _) (by omega)
          rw [Node.leafLevel_leaf found] at missing
          cases missing

end Edit

noncomputable def Workspace.occupied (space : Workspace) (level : Nat) : Nat :=
  if space.root = 0 then 0
  else 1 + ∑ index, (space.nodes level index).occupied level (index.val * levelSize level)

theorem Mode.capacity_small (mode : Mode) : Memory.firstAddress +
    (1 + ∑ _index : Fin tableEntries, Node.capacity mode.maxLevel) * pageBytes ≤ spaceSize := by
  rw [← Node.capacity_succ mode.maxLevel_ne_zero]
  have four : Memory.firstAddress + Node.capacity 5 * pageBytes ≤ spaceSize := by decide
  have five : Memory.firstAddress + Node.capacity 6 * pageBytes ≤ spaceSize := by decide
  cases mode with
  | legacy | pae => decide
  | fourLevel largest => exact four
  | fiveLevel largest => exact five

namespace Edit

variable {edit : Edit} {space after : Workspace} {outcome : Outcome} {count : Nat}

section Counted

variable (maps : edit.Maps)
  (has : ∀ target, space.Spans edit.mode.maxLevel target → space.memory.Has target)
  (counted : edit.demand space.memory space.root = .ok count)

include maps has counted

theorem demand_le_capacity : count + space.occupied edit.mode.maxLevel ≤
    1 + ∑ _index : Fin tableEntries, Node.capacity edit.mode.maxLevel := by
  have below := Finset.sum_le_sum fun (index : Fin tableEntries) (_ : index ∈ Finset.univ) =>
    nodeDemand_le_capacity maps.start maps.length .permissive
      (Nat.mul_mod_left index.val (levelSize edit.mode.maxLevel))
      (space.nodes_formed edit.mode.maxLevel index)
  have tables := Finset.sum_le_sum fun (index : Fin tableEntries) (_ : index ∈ Finset.univ) =>
    (Node.occupied_le_tables : (space.nodes edit.mode.maxLevel index).occupied
      edit.mode.maxLevel (index.val * levelSize edit.mode.maxLevel) ≤ _)
  rw [Finset.sum_add_distrib] at below
  rw [demand_eq_nodes maps.creates has counted, Workspace.occupied]
  split <;> omega

theorem Remakes.occupied_le (remakes : edit.Remakes space outcome after)
    (nonempty : edit.length ≠ 0)
    (clear : ∀ index : Fin tableEntries, edit.Clear edit.mode.maxLevel
      (index.val * levelSize edit.mode.maxLevel) (space.nodes edit.mode.maxLevel index)) :
    count + space.occupied edit.mode.maxLevel ≤ after.occupied edit.mode.maxLevel := by
  have rooted := remakes.rooted maps.creates nonempty
  have below := Finset.sum_le_sum fun (index : Fin tableEntries) (_ : index ∈ Finset.univ) =>
    (remakes.rewrites index).occupied_le maps edit.mode.maxLevel_ne_zero (Nat.mul_mod_left _ _)
      Attribute.grants_permissive (space.nodes_formed _ _) (clear index)
  rw [Finset.sum_add_distrib] at below
  rw [demand_eq_nodes maps.creates has counted, Workspace.occupied, Workspace.occupied,
    if_neg rooted]
  split <;> omega

end Counted

end Edit

end Remap.PageTable
