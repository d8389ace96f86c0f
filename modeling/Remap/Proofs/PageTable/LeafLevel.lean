import Remap.Proofs.PageTable.Bystanders
import Remap.Proofs.PageTable.WellBuilt

/-!
# Sizes of leaves

An edit that maps its range, with every field selected, uses leaves as large as the mode and the
alignment of both addresses allow. The pages that are aligned together then have a leaf of their
size, or a larger one that already agreed, whatever mapped them before: tables give way to the leaf,
a smaller leaf is replaced, and a larger one is split no further than needed.
-/

namespace Remap.PageTable

namespace Memory

def leafLevelBelow (memory : Memory) : (level address : Nat) → (linear : Nat) → Option Nat
  | 0, _, _ => none
  | level + 1, address, linear =>
      match memory.table address with
      | .error _ => none
      | .ok table =>
          match Entry.decode (table.word (slotOf (level + 1) linear)) (level + 1) with
          | .absent => none
          | .table child _ => leafLevelBelow memory level child.toNat linear
          | .leaf _ _ => some (level + 1)

def leafLevel (memory : Memory) (mode : Mode) (root linear : Nat) : Option Nat :=
  if root = 0 then none else memory.leafLevelBelow mode.maxLevel root linear

end Memory

namespace Node

def leafLevel : Node → (level linear : Nat) → Option Nat
  | plain word, level, _ =>
      match Entry.decode word level with
      | .leaf _ _ => some level
      | .absent | .table _ _ => none
  | table marks entries, level, linear =>
      match Entry.decode marks level with
      | .table _ _ => (entries (slotOf (level - 1) linear)).leafLevel (level - 1) linear
      | .absent | .leaf _ _ => none

variable {level linear : Nat} {attr : Attribute} {word marks pointed : UInt64}
  {entries : Fin tableEntries → Node} {size : LeafSize} {node : Node}

theorem leafLevel_absent (found : node.entry level = .absent) :
    node.leafLevel level linear = none := by
  cases node with
  | plain word =>
      have found : Entry.decode word level = .absent := found
      rw [leafLevel, found]
  | table marks entries =>
      have found : Entry.decode marks level = .absent := found
      rw [leafLevel, found]

theorem leafLevel_leaf (found : Entry.decode word level = .leaf size attr) :
    (plain word).leafLevel level linear = some level := by
  rw [leafLevel, found]

theorem leafLevel_table (found : Entry.decode marks (level + 1) = .table pointed attr) :
    (table marks entries).leafLevel (level + 1) linear =
      (entries (slotOf level linear)).leafLevel level linear := by
  rw [leafLevel, found]
  rfl

end Node

namespace Memory

variable {memory : Memory} {level address linear : Nat} {table : Table}

def leafLevelAt (memory : Memory) (level : Nat) (entry : Entry) (linear : Nat) : Option Nat :=
  match entry with
  | .absent => none
  | .table child _ => memory.leafLevelBelow level child.toNat linear
  | .leaf _ _ => some (level + 1)

theorem leafLevelBelow_eq (found : memory.table address = .ok table) :
    memory.leafLevelBelow (level + 1) address linear = memory.leafLevelAt level
      (.decode (table.word (slotOf (level + 1) linear)) (level + 1)) linear := by
  rw [leafLevelBelow, found]
  rfl

theorem isSome_leafLevelBelow {parent : Attribute} :
    (memory.leafLevelBelow level address linear).isSome =
      (memory.translateBelow level address parent linear).isSome := by
  induction level generalizing address parent with
  | zero => rfl
  | succ level induction =>
      rw [leafLevelBelow, translateBelow]
      cases memory.table address with
      | error cause => rfl
      | ok table =>
          dsimp only
          cases Entry.decode (table.word (slotOf (level + 1) linear)) (level + 1) with
          | absent => rfl
          | table child attr => exact induction
          | leaf size attr => rfl

theorem isSome_leafLevel {mode : Mode} {root : Nat} :
    (memory.leafLevel mode root linear).isSome = (memory.translate mode root linear).isSome := by
  rw [leafLevel, translate]
  split
  · rfl
  · exact isSome_leafLevelBelow

theorem leafLevelBelow_eq_nodes (positive : level ≠ 0)
    (has : ∀ target, memory.view.Spans level address target → memory.Has target) :
    memory.leafLevelBelow level address linear =
      (memory.view.nodes level address (slotOf level linear)).leafLevel level linear := by
  induction level generalizing address with
  | zero => exact absurd rfl positive
  | succ level induction =>
      rw [leafLevelBelow_eq (has address (.inl rfl)).table_eq, Tables.nodes]
      have below (target : Nat) (used : memory.view.Uses (level + 1) (memory.view.entry (level + 1)
          address (slotOf (level + 1) linear)) target) : memory.Has target :=
        has target (.inr ⟨_, used⟩)
      rw [Tables.entry] at below
      generalize (memory.view address).word (slotOf (level + 1) linear) = word at below
      generalize found : Entry.decode word (level + 1) = entry at below
      cases entry with
      | absent =>
          rw [leafLevelAt, Node.leafLevel_absent]
          rw [Tables.entry_node, found]
          rfl
      | leaf size attr =>
          rw [leafLevelAt, Tables.node_plain (Workspace.plain_of_leaf found),
            Node.leafLevel_leaf found]
      | table pointed attr =>
          have inner : level ≠ 0 := by
            have := Entry.decode_table found
            omega
          rw [leafLevelAt, Tables.node_table found,
            Node.leafLevel_table (Entry.decode_marks found)]
          exact induction inner below

end Memory

theorem Workspace.leafLevel_eq_nodes {space : Workspace} {mode : Mode} (rooted : space.root ≠ 0)
    (has : ∀ target, space.Spans mode.maxLevel target → space.memory.Has target) (linear : Nat) :
    space.memory.leafLevel mode space.root linear =
      (space.nodes mode.maxLevel (slotOf mode.maxLevel linear)).leafLevel mode.maxLevel linear := by
  rw [Memory.leafLevel, if_neg rooted, Workspace.nodes_rooted rooted]
  exact Memory.leafLevelBelow_eq_nodes mode.maxLevel_ne_zero fun target spanned =>
    has target ⟨rooted, spanned⟩

namespace Edit

variable {edit : Edit} {level slot linear : Nat} {parent : Attribute} {current : Entry}

structure Suits (edit : Edit) (size base : Nat) : Prop where
  positive : 1 ≤ size
  low : size ≤ edit.mode.maxLeafLevel
  aligned : base % levelSize size = 0
  covered : edit.covers base (levelSize size) = true
  assigned : edit.physical base % levelSize size = 0

theorem slot_eq {size first second : Nat} (firstAligned : first % levelSize size = 0)
    (secondAligned : second % levelSize size = 0) (firstLow : first ≤ linear)
    (firstHigh : linear < first + levelSize size) (secondLow : second ≤ linear)
    (secondHigh : linear < second + levelSize size) : first = second := by
  have left := offset_eq firstAligned firstLow firstHigh
  have right := offset_eq secondAligned secondLow secondHigh
  omega

theorem Suits.writesLeaf {base : Nat} (suits : edit.Suits level base)
    (complete : edit.mask.isComplete = true) (current : Entry) :
    edit.writesLeaf level base current = true := by
  have aligned : (edit.physical base % levelSize level == 0) = true := beq_iff_eq.mpr suits.assigned
  have low : decide (level ≤ edit.mode.maxLeafLevel) = true := decide_eq_true suits.low
  cases current <;> simp only [Edit.writesLeaf, suits.covered, low, aligned, complete, Bool.or_true,
    Bool.and_true]

theorem leaf_of_keep (creates : edit.creates = true)
    (acted : edit.action level slot parent current = .ok .keep) :
    ∃ size attr, current = .leaf size attr := by
  rcases keep_cases acted with rfl | ⟨size, attr, -, rfl, -⟩
  · rw [action_absent, creates, if_pos rfl] at acted
    split at acted
    next => split at acted <;> cases acted
    next => cases acted
  · exact ⟨size, attr, rfl⟩

theorem leaf_of_store {entry : Entry} (positive : level ≠ 0) (creates : edit.creates = true)
    (acted : edit.action level slot parent current = .ok (.store entry)) :
    ∃ size attr, Entry.decode entry.encode level = .leaf size attr := by
  obtain ⟨writes, rfl⟩ := store_cases acted
  obtain ⟨selected, granted⟩ := selected_of_creates creates
  have present : (edit.updated (current.leafAttribute?.getD .empty) slot).has .present = true := by
    rw [updated, Attribute.has_update selected,
      Attribute.has_congr (Attribute.rights_withBase _), granted]
  exact ⟨_, _, Entry.decode_encode_stored (Nat.pos_of_ne_zero positive)
    (writes_of_writesLeaf writes).low present⟩

/-- Above the level of a suitable slot, the edit goes on where it neither keeps nor stores. -/
theorem Suits.lower {size base : Nat} {action : Action} {next : Nat × Source × Attribute}
    (suits : edit.Suits size base) (complete : edit.mask.isComplete = true)
    (above : Above (level + 1) slot linear parent) (low : base ≤ linear)
    (high : linear < base + levelSize size)
    (acted : edit.action (level + 1) slot parent current = .ok action)
    (onward : action.onward = some next) (within : size ≤ level + 1) : size ≤ level := by
  apply Nat.le_of_lt_succ
  apply Nat.lt_of_le_of_ne within
  rintro rfl
  have here := slot_eq above.aligned suits.aligned above.low above.high low high
  have writes := suits.writesLeaf complete current
  rw [← here, not_writesLeaf_of_onward acted onward] at writes
  cases writes

theorem Rewrites.leafLevel {before after : Node} {size base : Nat}
    (rewrites : edit.Rewrites level parent slot before after)
    (above : Above level slot linear parent) (formed : before.Formed level)
    (suits : edit.Suits size base) (complete : edit.mask.isComplete = true)
    (creates : edit.creates = true) (low : base ≤ linear) (high : linear < base + levelSize size)
    (within : size ≤ level) :
    ∃ reached, after.leafLevel level linear = some reached ∧ size ≤ reached := by
  induction rewrites with
  | apart unmet =>
      have covered := suits.covered
      simp only [covers, Bool.and_eq_true, decide_eq_true_eq] at covered
      exact absurd ⟨by omega, by omega⟩ (outside_of_unmet unmet above.low above.high)
  | keep acted =>
      obtain ⟨leafSize, attr, leaf⟩ := leaf_of_keep creates acted
      obtain ⟨word, rfl, found⟩ := formed.of_leaf leaf
      exact ⟨_, Node.leafLevel_leaf found, within⟩
  | store acted =>
      obtain ⟨leafSize, attr, found⟩ := leaf_of_store above.positive creates acted
      exact ⟨_, Node.leafLevel_leaf found, within⟩
  | enter acted inner induction =>
      have positive := inner_of_enter acted
      obtain ⟨pointed, attr, found, -, rfl⟩ := enter_cases acted
      have grants := (Entry.decode_table_grants found).inherit above.grants
      rw [Node.leafLevel_table found]
      exact induction _ (above.entered positive grants) (formed.of_table _)
        (suits.lower complete above low high acted rfl within)
  | grow positive acted inner induction =>
      obtain ⟨-, rfl⟩ := grow_cases acted
      have grants := Attribute.grants_permissive.inherit above.grants
      rw [Node.leafLevel_table (decode_grant positive)]
      exact induction _ (above.entered positive grants) .plain
        (suits.lower complete above low high acted rfl within)
  | split positive acted inner induction =>
      obtain ⟨leafSize, attr, -, rfl, rfl⟩ := split_cases acted
      have grants := Attribute.grants_permissive.inherit above.grants
      rw [Node.leafLevel_table (decode_grant positive)]
      exact induction _ (above.entered positive grants) .plain
        (suits.lower complete above low high acted rfl within)

end Edit

theorem Mode.maxLeafLevel_le (mode : Mode) : mode.maxLeafLevel ≤ mode.maxLevel := by
  rcases mode with _ | _ | size | size
  · decide
  · decide
  all_goals cases size <;> decide

namespace Client

/-- A call that maps its range with every field selected uses the largest leaves allowed: wherever
it gives an aligned piece of the size of a leaf an aligned physical address, the walk of each
address of the piece then ends at a leaf of that size or a larger one. -/
theorem leaves_largest (levels : Nat) (client : Client) (calls : client.Calls levels)
    (index : Nat) (edit : Edit) (height : edit.mode.maxLevel = levels) (outcome : Outcome)
    (after : Workspace) (ran : edit.apply (client.space index) = (.ok outcome, after))
    (present : edit.requested.has .present = true) (complete : edit.mask.isComplete = true)
    (level slot : Nat) (positive : 1 ≤ level) (allowed : level ≤ edit.mode.maxLeafLevel)
    (aligned : slot % levelSize level = 0) (starts : edit.start ≤ slot)
    (stops : slot + levelSize level ≤ edit.stop)
    (assigned : edit.physical slot % levelSize level = 0)
    (linear : Nat) (low : slot ≤ linear) (high : linear < slot + levelSize level) :
    ∃ reached, after.memory.leafLevel edit.mode after.root linear = some reached ∧
      level ≤ reached := by
  obtain ⟨remakes, -⟩ := calls.remakes index height ran
  have creates : edit.creates = true := by
    rw [Edit.creates, (Edit.of_isComplete complete).2, present]
    rfl
  have covered : edit.covers slot (levelSize level) = true := by
    simp only [Edit.covers, starts, stops, decide_true, Bool.and_self]
  have suits : edit.Suits level slot := ⟨positive, allowed, aligned, covered, assigned⟩
  have length : edit.length ≠ 0 := by
    have := levelSize_pos level
    rw [Edit.stop] at stops
    omega
  have checked : edit.checkRange = .ok () := by
    rcases (Edit.apply_ok ran).2 with ⟨empty, -⟩ | ⟨-, checked, -⟩
    · exact absurd empty length
    · exact checked
  have limit := (Edit.checkRange_ok checked).2.2
  rw [Mode.linearLimit_eq] at limit
  have rooted := remakes.rooted creates length
  have top := edit.mode.maxLevel_ne_zero
  obtain ⟨slot_le, lt_slot⟩ := slotOf_range (Nat.zero_mod _) top (Nat.zero_le linear)
    (show linear < 0 + levelSize (edit.mode.maxLevel + 1) by omega)
  rw [Nat.zero_add] at slot_le lt_slot
  rw [Workspace.leafLevel_eq_nodes rooted remakes.has]
  exact (remakes.rewrites _).leafLevel
    ⟨top, Nat.mul_mod_left _ _, slot_le, lt_slot, Attribute.grants_permissive⟩
    (Workspace.nodes_formed _ _ _) suits complete creates low high
    (Nat.le_trans allowed edit.mode.maxLeafLevel_le)

def mergeEdit : Edit := ⟨.fourLevel .page1G, 0, 0x200000, ⟨0x40000007⟩, .all⟩

/-- The table of single pages gives way to one leaf. -/
theorem leaves_largest_merge :
    smallClient.memory.leafLevel mergeEdit.mode smallClient.root 0x1234 = some 1 ∧
      ∃ after, mergeEdit.apply (smallClient.space 0) = (.ok ⟨0, true⟩, after) ∧
        ∃ reached, after.memory.leafLevel mergeEdit.mode after.root 0x1234 = some reached ∧
          2 ≤ reached := by
  have evaluated : smallClient.memory.leafLevel mergeEdit.mode smallClient.root 0x1234 = some 1 ∧
      (mergeEdit.apply (smallClient.space 0)).1.toOption = some ⟨0, true⟩ := by
    decide +kernel
  have ran := ran_of_toOption evaluated.2
  exact ⟨evaluated.1, _, ran, leaves_largest 4 smallClient smallClient_calls 0 mergeEdit rfl _ _ ran
    (by decide) (by decide) 2 0 (by decide) (by decide) (by decide) (by decide) (by decide)
    (by decide) 0x1234 (by decide) (by decide)⟩

end Client

end Remap.PageTable
