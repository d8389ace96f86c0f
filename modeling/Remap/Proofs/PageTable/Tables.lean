import Mathlib.Algebra.BigOperators.Fin
import Mathlib.Algebra.Order.BigOperators.Group.Finset
import Remap.Proofs.PageTable.Refusal
import Remap.Proofs.PageTable.Remake

/-!
# Tables of a tree

The pages that an edit takes can be counted on the nodes of a tree, without the memory. A tree has
no more tables than there are places for them, and an edit takes no more than the free places.
-/

namespace Remap.PageTable

namespace Node

def tables : Node → Nat
  | plain _ => 0
  | table _ entries => 1 + ∑ index, (entries index).tables

def child : Node → Fin tableEntries → Node
  | plain _, _ => plain 0
  | table _ entries, index => entries index

def capacity : (level : Nat) → Nat
  | 0 | 1 => 0
  | level + 2 => 1 + tableEntries * capacity (level + 1)

variable {level : Nat} {node : Node}

theorem capacity_succ (positive : level ≠ 0) :
    capacity (level + 1) = 1 + ∑ _index : Fin tableEntries, capacity level := by
  obtain ⟨lower, rfl⟩ := Nat.exists_eq_succ_of_ne_zero positive
  rw [capacity, Finset.sum_const, Finset.card_univ, Fintype.card_fin, smul_eq_mul]

theorem tables_le_capacity (formed : node.Formed level) : node.tables ≤ capacity level := by
  induction formed with
  | plain => exact Nat.zero_le _
  | table found inner induction =>
      have positive := Entry.decode_table found
      rw [tables, capacity_succ (by omega)]
      exact Nat.add_le_add_left (Finset.sum_le_sum fun index _ => induction index) 1

theorem tables_le_child (node : Node) : node.tables ≤ 1 + ∑ index, (node.child index).tables := by
  cases node with
  | plain word => exact Nat.zero_le _
  | table marks entries => exact Nat.le_refl _

theorem Formed.child (formed : node.Formed (level + 1)) (index : Fin tableEntries) :
    (node.child index).Formed level := by
  cases formed with
  | plain => exact .plain
  | table found inner => exact inner index

theorem Formed.inner {pointed : UInt64} {attr : Attribute} (formed : node.Formed level)
    (read : node.entry level = .table pointed attr) : level ≠ 1 := by
  cases formed with
  | plain => exact Entry.decode_table read
  | table found inner => exact Entry.decode_table found

theorem Formed.tables_eq (formed : node.Formed level) (plain : Workspace.Plain (node.entry level)) :
    node.tables = 0 := by
  cases formed with
  | plain => rfl
  | table found inner => exact absurd found (plain _ _)

end Node

theorem total_filter {α ε : Type} {cost : α → Except ε Nat} {keep : α → Bool} {weight : α → Nat}
    {values : List α} {sum : Nat} (counted : total cost (values.filter keep) = .ok sum)
    (kept : ∀ value count, keep value = true → cost value = .ok count → count = weight value)
    (left : ∀ value, keep value = false → weight value = 0) : sum = (values.map weight).sum := by
  induction values generalizing sum with
  | nil =>
      cases counted
      rfl
  | cons value rest induction =>
      rw [List.map_cons, List.sum_cons]
      rw [List.filter_cons] at counted
      cases here : keep value with
      | true =>
          rw [here, if_pos rfl] at counted
          obtain ⟨first, others, paid, later, rfl⟩ := total_cons_ok counted
          rw [kept value first here paid, induction later]
      | false =>
          rw [here, if_neg Bool.false_ne_true] at counted
          rw [left value here, Nat.zero_add, induction counted]

theorem add_map_ok {ε : Type} {first sum : Nat} {counted : Except ε Nat}
    (added : (first + ·) <$> counted = .ok sum) :
    ∃ others, counted = .ok others ∧ sum = first + others := by
  cases counted with
  | error cause => cases added
  | ok others => exact ⟨others, rfl, (Except.ok.inj added).symm⟩

def Source.node (source : Source) (memory : Memory) (level : Nat) (index : Fin tableEntries) :
    Node :=
  match source with
  | stored address => memory.view.nodes level address index
  | blank => .plain 0
  | parts leaf => .plain (Edit.splitEntry leaf level index).encode

namespace Edit

def nodeDemand (edit : Edit) :
    (level : Nat) → (parent : Attribute) → (slot : Nat) → (node : Node) → Nat
  | 0, _, _, _ => 0
  | level + 1, parent, slot, node =>
      if edit.meets slot (levelSize (level + 1)) then
        match edit.action (level + 1) slot parent (node.entry (level + 1)) with
        | .ok (.enter _ below) =>
            ∑ index, nodeDemand edit level below (slot + index.val * levelSize level)
              (node.child index)
        | .ok (.grow below) =>
            1 + ∑ index : Fin tableEntries,
              nodeDemand edit level below (slot + index.val * levelSize level) (.plain 0)
        | .ok (.split leaf below) =>
            1 + ∑ index : Fin tableEntries,
              nodeDemand edit level below (slot + index.val * levelSize level)
                (.plain (splitEntry leaf level index).encode)
        | .ok .keep | .ok (.store _) | .error _ => 0
      else 0

variable {edit : Edit} {memory : Memory} {level slot origin count address : Nat}
  {parent below leaf : Attribute} {source : Source} {node : Node} {current : Entry}
  {index : Fin tableEntries} {action : Action}

section NodeDemand

theorem nodeDemand_unmet (unmet : edit.meets slot (levelSize (level + 1)) = false) :
    edit.nodeDemand (level + 1) parent slot node = 0 := by
  rw [nodeDemand, unmet, if_neg Bool.false_ne_true]

theorem nodeDemand_idle (acted : edit.action (level + 1) slot parent (node.entry (level + 1)) =
    .ok action) (idle : action.onward = none) :
    edit.nodeDemand (level + 1) parent slot node = 0 := by
  rw [nodeDemand, acted]
  cases action with
  | keep | store => exact ite_self 0
  | enter | grow | split => cases idle

theorem nodeDemand_error {cause : Error}
    (acted : edit.action (level + 1) slot parent (node.entry (level + 1)) = .error cause) :
    edit.nodeDemand (level + 1) parent slot node = 0 := by
  rw [nodeDemand, acted]
  exact ite_self 0

variable (met : edit.meets slot (levelSize (level + 1)) = true)

include met

theorem nodeDemand_enter (acted : edit.action (level + 1) slot parent (node.entry (level + 1)) =
    .ok (.enter address below)) : edit.nodeDemand (level + 1) parent slot node =
      ∑ index, edit.nodeDemand level below (slot + index.val * levelSize level)
        (node.child index) := by
  rw [nodeDemand, met, if_pos rfl, acted]

theorem nodeDemand_grow (acted : edit.action (level + 1) slot parent (node.entry (level + 1)) =
    .ok (.grow below)) : edit.nodeDemand (level + 1) parent slot node =
      1 + ∑ index : Fin tableEntries,
        edit.nodeDemand level below (slot + index.val * levelSize level) (.plain 0) := by
  rw [nodeDemand, met, if_pos rfl, acted]

theorem nodeDemand_split (acted : edit.action (level + 1) slot parent (node.entry (level + 1)) =
    .ok (.split leaf below)) : edit.nodeDemand (level + 1) parent slot node =
      1 + ∑ index : Fin tableEntries,
        edit.nodeDemand level below (slot + index.val * levelSize level)
          (.plain (splitEntry leaf level index).encode) := by
  rw [nodeDemand, met, if_pos rfl, acted]

end NodeDemand

structure Pictures (memory : Memory) (level : Nat) (current : Entry) (node : Node) : Prop where
  entry : node.entry (level + 1) = current.unplaced
  child : ∀ pointed attr, current = .table pointed attr → attr.Grants ∧
    ∀ index, node.child index = memory.view.nodes level pointed.toNat index
  fits : ∀ size attr, current = .leaf size attr → Entry.Fits (level + 1) attr

theorem pictures_stored (memory : Memory) (level : Nat) (word : UInt64) :
    Pictures memory level (.decode word (level + 1)) (memory.view.node (level + 1) word) where
  entry := Tables.entry_node
  child pointed attr found := by
    rw [Tables.node_table found]
    exact ⟨Entry.decode_table_grants found, fun _ => rfl⟩
  fits _ _ found := (Entry.decode_leaf found).2

theorem pictures_source (resolves : Resolves memory (level + 1) source)
    (fits : ∀ leaf, source = .parts leaf → Entry.Fits (level + 2) leaf)
    (found : source.entry memory (level + 1) index = .ok current) :
    Pictures memory level current (source.node memory (level + 1) index) := by
  cases source with
  | stored address =>
      rw [Source.entry_stored (resolves address rfl address (.inl rfl))] at found
      cases found
      exact pictures_stored memory level _
  | blank =>
      cases found
      exact ⟨Entry.decode_zero, fun _ _ => Entry.noConfusion, fun _ _ => Entry.noConfusion⟩
  | parts leaf =>
      cases found
      have part : Entry.Fits (level + 1) (leaf.advance (index.val * levelSize (level + 1))) :=
        splitEntry_fits (Nat.succ_pos level) (fits leaf rfl)
      refine ⟨Entry.decode_encode_leaf part, fun _ _ => Entry.noConfusion, ?_⟩
      rintro size attr same
      cases same
      exact part

theorem entryDemand_eq_node
    (lower : ∀ (source : Source) (below : Attribute) (count : Nat), below.Grants →
      Resolves memory level source →
      (∀ leaf, source = .parts leaf → Entry.Fits (level + 1) leaf) →
      edit.demandBelow memory level source below slot = .ok count →
      count = ∑ index, edit.nodeDemand level below (slot + index.val * levelSize level)
        (source.node memory level index))
    (grants : parent.Grants) (met : edit.meets slot (levelSize (level + 1)) = true)
    (pictures : Pictures memory level current node)
    (onward : ∀ {action pages next below}, edit.action (level + 1) slot parent current =
      .ok action → action.onward = some (pages, next, below) → Resolves memory level next)
    (counted : edit.entryDemand memory level parent slot current = .ok count) :
    count = edit.nodeDemand (level + 1) parent slot node := by
  have new : (Attribute.permissive.inherit parent).Grants :=
    Attribute.grants_permissive.inherit grants
  rw [entryDemand] at counted
  cases acted : edit.action (level + 1) slot parent current with
  | error cause =>
      rw [acted] at counted
      cases counted
  | ok action =>
      rw [acted] at counted
      have same : edit.action (level + 1) slot parent (node.entry (level + 1)) =
          .ok action.unplaced := by
        rw [pictures.entry, action_unplaced, acted]
        rfl
      have resolves {pages : Nat} {next : Source} {below : Attribute} :
          action.onward = some (pages, next, below) → Resolves memory level next := onward acted
      dsimp only at counted
      cases action with
      | keep =>
          cases counted
          exact (nodeDemand_idle same rfl).symm
      | store entry =>
          cases counted
          exact (nodeDemand_idle same rfl).symm
      | enter address below =>
          obtain ⟨pointed, attr, rfl, rfl, rfl⟩ := enter_cases acted
          obtain ⟨more, paid, rfl⟩ := add_map_ok counted
          obtain ⟨pointer, children⟩ := pictures.child pointed attr rfl
          rw [nodeDemand_enter met same, lower _ _ _ (pointer.inherit grants) (resolves rfl)
            (fun _ => Source.noConfusion) paid, Nat.zero_add]
          simp only [children]
          rfl
      | grow below =>
          obtain ⟨-, rfl⟩ := grow_cases acted
          obtain ⟨more, paid, rfl⟩ := add_map_ok counted
          rw [nodeDemand_grow met same, lower _ _ _ new (resolves rfl)
            (fun _ => Source.noConfusion) paid]
          rfl
      | split leaf below =>
          obtain ⟨size, attr, rfl, rfl, rfl⟩ := split_cases acted
          obtain ⟨more, paid, rfl⟩ := add_map_ok counted
          have fits := (pictures.fits size attr rfl).inherit grants
          rw [nodeDemand_split met same, lower _ _ _ new (resolves rfl)
            (fun _ other => (Source.parts.inj other) ▸ fits) paid]
          rfl

theorem demandBelow_eq_nodes (grants : parent.Grants) (resolves : Resolves memory level source)
    (fits : ∀ leaf, source = .parts leaf → Entry.Fits (level + 1) leaf)
    (counted : edit.demandBelow memory level source parent origin = .ok count) :
    count = ∑ index, edit.nodeDemand level parent (origin + index.val * levelSize level)
      (source.node memory level index) := by
  induction level generalizing source parent origin count with
  | zero =>
      cases counted
      exact (Finset.sum_const_zero).symm
  | succ level induction =>
      rw [demandBelow_eq, slots] at counted
      rw [Fin.sum_univ_def]
      refine total_filter counted ?_ fun index unmet => nodeDemand_unmet unmet
      intro index paid met counted
      rw [slotDemand] at counted
      cases found : source.entry memory (level + 1) index with
      | error cause =>
          rw [found] at counted
          cases counted
      | ok current =>
          rw [found] at counted
          exact entryDemand_eq_node (fun _ _ _ => induction) grants met
            (pictures_source resolves fits found) (resolves.onward found) counted

theorem demand_eq_nodes {space : Workspace} (creates : edit.creates = true)
    (has : ∀ target, space.Spans edit.mode.maxLevel target → space.memory.Has target)
    (counted : edit.demand space.memory space.root = .ok count) :
    count = (if space.root = 0 then 1 else 0) + ∑ index : Fin tableEntries,
      edit.nodeDemand edit.mode.maxLevel .permissive (index.val * levelSize edit.mode.maxLevel)
        (space.nodes edit.mode.maxLevel index) := by
  by_cases unrooted : space.root = 0
  · rw [unrooted] at counted
    obtain ⟨more, lower, rfl⟩ := demand_unrooted_ok counted creates
    rw [demandBelow_eq_nodes Attribute.grants_permissive (fun _ => Source.noConfusion)
      (fun _ => Source.noConfusion) lower, if_pos unrooted, Workspace.nodes_unrooted unrooted]
    simp only [Nat.zero_add]
    rfl
  · have resolves : Resolves space.memory edit.mode.maxLevel (.stored space.root) := by
      intro address stored target spanned
      cases stored
      exact has target ⟨unrooted, spanned⟩
    rw [demand_rooted unrooted] at counted
    rw [demandBelow_eq_nodes Attribute.grants_permissive resolves
      (fun _ => Source.noConfusion) counted, if_neg unrooted, Workspace.nodes_rooted unrooted]
    simp only [Nat.zero_add]
    rfl

section Capacity

variable (start : edit.start % pageBytes = 0) (length : edit.length % pageBytes = 0)

include start length

theorem inner_of_onward_node {next : Nat × Source × Attribute}
    (aligned : slot % levelSize (level + 1) = 0) (formed : node.Formed (level + 1))
    (met : edit.meets slot (levelSize (level + 1)) = true)
    (acted : edit.action (level + 1) slot parent (node.entry (level + 1)) = .ok action)
    (onward : action.onward = some next) : level ≠ 0 := by
  generalize read : node.entry (level + 1) = current at acted
  cases current with
  | absent =>
      exact inner_of_onward start length (page_of_slot aligned) met
        (Workspace.plain_of_absent rfl) acted onward
  | leaf size attr =>
      exact inner_of_onward start length (page_of_slot aligned) met
        (Workspace.plain_of_leaf rfl) acted onward
  | table pointed attr =>
      have inner := formed.inner read
      omega

/-- The edit takes no more tables than there are free places. -/
theorem nodeDemand_le_capacity (parent : Attribute) (aligned : slot % levelSize level = 0)
    (formed : node.Formed level) :
    edit.nodeDemand level parent slot node + node.tables ≤ Node.capacity level := by
  induction level generalizing parent slot node with
  | zero =>
      cases formed
      exact Nat.le_refl 0
  | succ level induction =>
      have free := Node.tables_le_capacity formed
      cases met : edit.meets slot (levelSize (level + 1)) with
      | false => rwa [nodeDemand_unmet met, Nat.zero_add]
      | true =>
          have places (below : Attribute) (others : Fin tableEntries → Node) (positive : level ≠ 0)
              (formed : ∀ index, (others index).Formed level) :
              (∑ index, edit.nodeDemand level below (slot + index.val * levelSize level)
                (others index)) + ∑ index, (others index).tables ≤
                ∑ _index : Fin tableEntries, Node.capacity level := by
            rw [← Finset.sum_add_distrib]
            exact Finset.sum_le_sum fun index _ =>
              induction below (slot_aligned aligned positive _) (formed index)
          have inner {action : Action} {next : Nat × Source × Attribute} :
              edit.action (level + 1) slot parent (node.entry (level + 1)) = .ok action →
                action.onward = some next → level ≠ 0 :=
            inner_of_onward_node start length aligned formed met
          cases acted : edit.action (level + 1) slot parent (node.entry (level + 1)) with
          | error cause => rwa [nodeDemand_error acted, Nat.zero_add]
          | ok action =>
              cases action with
              | keep => rwa [nodeDemand_idle acted rfl, Nat.zero_add]
              | store entry => rwa [nodeDemand_idle acted rfl, Nat.zero_add]
              | enter address below =>
                  have positive := inner acted rfl
                  have children := node.tables_le_child
                  have lower := places below node.child positive formed.child
                  rw [nodeDemand_enter met acted, Node.capacity_succ positive]
                  omega
              | grow below =>
                  -- the new table takes the one place that is not below it
                  have positive := inner acted rfl
                  have none := formed.tables_eq (Workspace.plain_of_absent (grow_cases acted).1)
                  have lower := places below (fun _ => .plain 0) positive fun _ => .plain
                  rw [nodeDemand_grow met acted, Node.capacity_succ positive]
                  omega
              | split leaf below =>
                  have positive := inner acted rfl
                  obtain ⟨size, attr, found, -⟩ := split_cases acted
                  have none := formed.tables_eq (Workspace.plain_of_leaf found)
                  have lower := places below
                    (fun index => .plain (splitEntry leaf level index).encode) positive
                    fun _ => .plain
                  rw [nodeDemand_split met acted, Node.capacity_succ positive]
                  omega

end Capacity

end Edit

end Remap.PageTable
