import Remap.Proofs.PageTable.Refers
import Remap.Proofs.PageTable.Rewrites

/-!
# Nodes that edits write

A node that edits made has permissive pointers, no leaf above the highest level that one of the
edits may write leaves at, and no large leaf with bits of its base address out of place.
-/

namespace Remap.PageTable

namespace Node

inductive Regular (limit : Nat) : (level : Nat) → Node → Prop
  | plain {level : Nat} {word : UInt64}
      (leaf : ∀ size attr, Entry.decode word level = .leaf size attr →
        level ≤ limit ∧ (level ≠ 1 → word = (Entry.leafAt level attr).encode)) :
      Regular limit level (.plain word)
  | table {level : Nat} {entries : Fin tableEntries → Node}
      (inner : ∀ index, Regular limit level (entries index)) :
      Regular limit (level + 1) (.table Attribute.grantMask entries)

variable {limit more level lower address target : Nat} {node : Node}

theorem Regular.mono (regular : node.Regular limit level) (wider : limit ≤ more) :
    node.Regular more level := by
  induction regular with
  | plain leaf =>
      refine .plain fun size attr found => ?_
      exact (leaf size attr found).imp_left fun low => Nat.le_trans low wider
  | table inner induction => exact .table induction

theorem Regular.of_table {marks : UInt64} {entries : Fin tableEntries → Node}
    (regular : (Node.table marks entries).Regular limit (level + 1)) :
    marks = Attribute.grantMask ∧ ∀ index, (entries index).Regular limit level := by
  cases regular with
  | table inner => exact ⟨rfl, inner⟩

theorem regular_zero : (plain 0).Regular limit level := by
  refine .plain fun size attr found => ?_
  rw [Entry.decode_zero] at found
  cases found

theorem regular_leafAt {attr : Attribute} (positive : 1 ≤ level) (low : level ≤ 3)
    (within : level ≤ limit) : (plain (Entry.leafAt level attr).encode).Regular limit level := by
  refine .plain fun size read found => ⟨within, fun large => ?_⟩
  cases present : attr.has .present with
  | false =>
      rw [Entry.decode_encode_absent positive low present] at found
      cases found
  | true =>
      rw [Entry.decode_encode_stored positive low present] at found
      cases found
      have large : level = 2 ∨ level = 3 := by omega
      rw [Entry.encode_leafAt large, Entry.encode_leafAt large, Entry.encodeLarge_stored large]

end Node

namespace Edit

variable {edit : Edit} {limit level slot : Nat} {parent : Attribute} {before after : Node}

theorem writesLeaf_level {current : Entry} (writes : edit.writesLeaf level slot current = true) :
    level ≤ edit.mode.maxLeafLevel := by
  simp only [writesLeaf, Bool.and_eq_true, decide_eq_true_eq] at writes
  exact writes.1.1.2

theorem Rewrites.regular (rewrites : edit.Rewrites level parent slot before after)
    (positive : level ≠ 0) (within : edit.mode.maxLeafLevel ≤ limit)
    (regular : before.Regular limit level) : after.Regular limit level := by
  induction rewrites with
  | apart => exact regular
  | keep => exact regular
  | store acted =>
      obtain ⟨writes, rfl⟩ := store_cases acted
      have low := writesLeaf_level writes
      exact Node.regular_leafAt (Nat.pos_of_ne_zero positive) (writes_of_writesLeaf writes).low
        (Nat.le_trans low within)
  | enter acted inner induction =>
      obtain ⟨rfl, entries⟩ := regular.of_table
      exact .table fun index => induction index (inner_of_enter acted) (entries index)
  | grow inner acted rewritten induction =>
      exact .table fun index => induction index inner Node.regular_zero
  | @split level parent leaf below slot word entries inner acted rewritten induction =>
      obtain ⟨size, attr, found, -, -⟩ := split_cases acted
      cases regular with
      | plain leaf =>
          have low := (leaf size attr found).1
          have fits := (Entry.decode_leaf found).2.low
          refine .table fun index => induction index inner ?_
          exact Node.regular_leafAt (Nat.pos_of_ne_zero inner) (by omega) (by omega)

end Edit

namespace Memory

variable {memory : Memory} {limit level lower address target : Nat} {index : Fin tableEntries}
  {child : UInt64} {attr : Attribute} {size : LeafSize}

theorem Leads.regular (leads : memory.Leads level address lower target)
    (regular : ∀ index, (memory.view.nodes level address index).Regular limit level)
    (index : Fin tableEntries) : (memory.view.nodes lower target index).Regular limit lower := by
  induction leads with
  | self => exact regular index
  | @step level address lower target table place child attr found pointer onward induction =>
      obtain ⟨-, rfl⟩ := table_ok found
      apply induction
      have here := regular place
      rw [Tables.nodes, Tables.node_table pointer] at here
      exact here.of_table.2

end Memory

namespace Tables

variable {tables : Tables} {limit level address : Nat} {index : Fin tableEntries}
  {child : UInt64} {attr : Attribute} {size : LeafSize}

theorem marks_of_regular
    (regular : (tables.nodes (level + 1) address index).Regular limit (level + 1))
    (found : tables.entry (level + 1) address index = .table child attr) :
    Entry.marks ((tables address).word index) = Attribute.grantMask := by
  rw [Tables.entry] at found
  rw [Tables.nodes, Tables.node_table found] at regular
  exact regular.of_table.1

theorem leaf_of_regular (regular : (tables.nodes level address index).Regular limit level)
    (found : tables.entry level address index = .leaf size attr) :
    level ≤ limit ∧
      (level ≠ 1 → (tables address).word index = (Entry.leafAt level attr).encode) := by
  rw [Tables.entry] at found
  rw [Tables.nodes, Tables.node_plain (Workspace.plain_of_leaf found)] at regular
  cases regular with
  | plain leaf => exact leaf size attr found

end Tables

end Remap.PageTable
