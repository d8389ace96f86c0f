import Remap.Proofs.PageTable.Scan
import Remap.Proofs.PageTable.Separate

/-!
# Trees apart from their places

What a tree says does not depend on where its tables are. A word of a table is a node, and
so is a pointer with the nodes of the table that it leads to, the address left out. Walking
down the nodes gives the effective attributes that a walk in the memory gives.
-/

namespace Remap.PageTable

inductive Node
  | plain (word : UInt64)
  | table (marks : UInt64) (entries : Fin tableEntries → Node)

namespace Entry

def unplaced : Entry → Entry
  | table _ attr => table 0 attr
  | entry => entry

def marks (word : UInt64) : UInt64 := word &&& ~~~Attribute.baseMask

variable {word pointed : UInt64} {level : Nat} {attr : Attribute}

theorem marks_and (mask : UInt64) (apart : mask &&& Attribute.baseMask = 0) :
    marks word &&& mask = word &&& mask := by
  rw [marks, UInt64.and_assoc, UInt64.and_comm _ mask, and_not_of_apart apart]

theorem decode_marks (found : decode word level = .table pointed attr) :
    decode (marks word) level = .table 0 attr := by
  have base : marks word &&& Attribute.baseMask = 0 := by
    rw [marks, UInt64.and_assoc, UInt64.not_and_self, UInt64.and_zero]
  rw [decode] at found ⊢
  rw [marks_and Flag.present.mask (by decide), marks_and pageSizeBit (by decide),
    marks_and tableMask (by decide), base]
  split at found
  next => cases found
  next present =>
    rw [if_neg present]
    split at found
    next => cases found
    next inner =>
      rw [if_neg inner]
      split at found
      next => cases found
      next pointer =>
        rw [if_neg pointer]
        cases found
        rfl

theorem marks_pointer (address : Nat) :
    marks (pointer address).encode = Attribute.grantMask := by
  have rights : Attribute.grantMask &&& tableMask &&& ~~~Attribute.baseMask =
      Attribute.grantMask := by decide
  change ((UInt64.ofNat address &&& Attribute.baseMask) |||
    (Attribute.grantMask &&& tableMask)) &&& ~~~Attribute.baseMask = _
  rw [or_and_distrib, rights, UInt64.and_assoc, UInt64.and_not_self, UInt64.and_zero,
    UInt64.zero_or]

end Entry

namespace Node

def entry (level : Nat) : Node → Entry
  | plain word => .decode word level
  | table marks _ => .decode marks level

def page : Node → (level : Nat) → (parent : Attribute) → (linear : Nat) → Option Attribute
  | plain word, level, parent, linear =>
      match Entry.decode word level with
      | .leaf _ attr => some ((attr.inherit parent).advance (linear % levelSize level))
      | .absent | .table _ _ => none
  | table marks entries, level, parent, linear =>
      match Entry.decode marks level with
      | .table _ attr =>
          (entries (slotOf (level - 1) linear)).page (level - 1) (attr.inherit parent) linear
      | .absent | .leaf _ _ => none

inductive Formed : (level : Nat) → Node → Prop
  | plain {level : Nat} {word : UInt64} : Formed level (.plain word)
  | table {level : Nat} {marks pointed : UInt64} {attr : Attribute}
      {entries : Fin tableEntries → Node}
      (found : Entry.decode marks (level + 1) = .table pointed attr)
      (inner : ∀ index, Formed level (entries index)) : Formed (level + 1) (.table marks entries)

variable {level linear : Nat} {parent attr : Attribute} {word marks pointed : UInt64}
  {entries : Fin tableEntries → Node} {size : LeafSize} {node : Node}

theorem Formed.of_table (formed : (Node.table marks entries).Formed (level + 1))
    (index : Fin tableEntries) : (entries index).Formed level := by
  cases formed with
  | table found inner => exact inner index

theorem Formed.of_leaf (formed : node.Formed level) (found : node.entry level = .leaf size attr) :
    ∃ word, node = Node.plain word ∧ Entry.decode word level = .leaf size attr := by
  cases formed with
  | @plain level word => exact ⟨word, rfl, found⟩
  | table pointer inner => cases pointer.symm.trans found

theorem page_absent (found : node.entry level = .absent) :
    node.page level parent linear = none := by
  cases node with
  | plain word =>
      have found : Entry.decode word level = .absent := found
      rw [page, found]
  | table marks entries =>
      have found : Entry.decode marks level = .absent := found
      rw [page, found]

theorem page_leaf (found : Entry.decode word level = .leaf size attr) :
    (plain word).page level parent linear =
      some ((attr.inherit parent).advance (linear % levelSize level)) := by
  rw [page, found]

theorem page_leafAt (positive : 1 ≤ level) (low : level ≤ 3) :
    (plain (Entry.leafAt level attr).encode).page level parent linear =
      if attr.has .present then
        some (((Entry.stored level attr).inherit parent).advance (linear % levelSize level))
      else none := by
  cases present : attr.has .present with
  | false => exact page_absent (Entry.decode_encode_absent positive low present)
  | true => exact page_leaf (Entry.decode_encode_stored positive low present)

theorem page_table (found : Entry.decode marks (level + 1) = .table pointed attr) :
    (table marks entries).page (level + 1) parent linear =
      (entries (slotOf level linear)).page level (attr.inherit parent) linear := by
  rw [page, found]
  rfl

end Node

namespace Tables

def node (tables : Tables) : (level : Nat) → (word : UInt64) → Node
  | 0, word => .plain word
  | level + 1, word =>
      match Entry.decode word (level + 1) with
      | .table pointed _ => .table (Entry.marks word) fun index =>
          tables.node level ((tables pointed.toNat).word index)
      | .absent | .leaf _ _ => .plain word

def nodes (tables : Tables) (level address : Nat) (index : Fin tableEntries) : Node :=
  tables.node level ((tables address).word index)

variable {tables before after : Tables} {level address linear : Nat} {word pointed : UInt64}
  {attr parent : Attribute} {index : Fin tableEntries}

theorem node_table (found : Entry.decode word (level + 1) = .table pointed attr) :
    tables.node (level + 1) word =
      .table (Entry.marks word) (tables.nodes level pointed.toNat) := by
  rw [node, found]
  rfl

theorem node_plain (plain : Workspace.Plain (.decode word level)) :
    tables.node level word = .plain word := by
  cases level with
  | zero => rfl
  | succ level =>
      rw [node]
      split
      next pointed attr found => exact absurd found (plain pointed attr)
      next => rfl
      next => rfl

theorem node_cases (tables : Tables) (level : Nat) (word : UInt64) :
    (∃ pointed attr, Entry.decode word (level + 1) = .table pointed attr ∧
        tables.node (level + 1) word =
          .table (Entry.marks word) (tables.nodes level pointed.toNat)) ∨
      (Workspace.Plain (.decode word (level + 1)) ∧
        tables.node (level + 1) word = .plain word) := by
  generalize found : Entry.decode word (level + 1) = entry
  cases entry with
  | table pointed attr => exact .inl ⟨pointed, attr, rfl, node_table found⟩
  | absent =>
      exact .inr ⟨Workspace.plain_of_absent rfl, node_plain (Workspace.plain_of_absent found)⟩
  | leaf size attr =>
      exact .inr ⟨Workspace.plain_of_leaf rfl, node_plain (Workspace.plain_of_leaf found)⟩

theorem node_formed : (tables.node level word).Formed level := by
  induction level generalizing word with
  | zero => exact .plain
  | succ level induction =>
      rcases tables.node_cases level word with ⟨pointed, attr, found, node_eq⟩ | ⟨-, node_eq⟩
      · rw [node_eq]
        exact .table (Entry.decode_marks found) fun index => induction
      · rw [node_eq]
        exact .plain

theorem entry_node : (tables.node (level + 1) word).entry (level + 1) =
    (Entry.decode word (level + 1)).unplaced := by
  rcases tables.node_cases level word with ⟨pointed, attr, found, node_eq⟩ | ⟨plain, node_eq⟩
  · rw [node_eq, found]
    exact Entry.decode_marks found
  · rw [node_eq, Node.entry]
    generalize Entry.decode word (level + 1) = entry at plain
    cases entry with
    | table pointed attr => exact absurd rfl (plain pointed attr)
    | absent => rfl
    | leaf size attr => rfl

theorem SameBelow.node_eq (same : SameBelow before after level (.decode word level)) :
    after.node level word = before.node level word := by
  induction level generalizing word with
  | zero => rfl
  | succ level induction =>
      rw [node, node]
      generalize Entry.decode word (level + 1) = entry at same
      cases entry with
      | absent => rfl
      | leaf size attr => rfl
      | table pointed attr =>
          dsimp only
          congr 1
          funext index
          rw [same pointed.toNat (.inl rfl)]
          exact induction (same.below index)

theorem nodes_of_same (same : ∀ target, before.Spans level address target →
    after target = before target) : after.nodes level address = before.nodes level address := by
  funext index
  rw [nodes, nodes, same address (.inl rfl)]
  exact (sameBelow_of_same same index).node_eq

end Tables

namespace Memory

variable {memory : Memory} {level address linear : Nat} {parent : Attribute}

/-- Where all tables exist, the walk in the memory finds what the nodes give. -/
theorem pageBelow_eq_nodes (positive : level ≠ 0)
    (has : ∀ target, memory.view.Spans level address target → memory.Has target) :
    memory.pageBelow level address parent linear =
      (memory.view.nodes level address (slotOf level linear)).page level parent linear := by
  induction level generalizing address parent with
  | zero => exact absurd rfl positive
  | succ level induction =>
      rw [pageBelow_eq (has address (.inl rfl)).table_eq, Tables.nodes]
      have below (target : Nat) (used : memory.view.Uses (level + 1) (memory.view.entry (level + 1)
          address (slotOf (level + 1) linear)) target) : memory.Has target :=
        has target (.inr ⟨_, used⟩)
      rw [Tables.entry] at below
      generalize (memory.view address).word (slotOf (level + 1) linear) = word at below
      generalize found : Entry.decode word (level + 1) = entry at below
      cases entry with
      | absent =>
          rw [pageAt, Node.page_absent]
          rw [Tables.entry_node, found]
          rfl
      | leaf size attr =>
          rw [pageAt, Tables.node_plain (Workspace.plain_of_leaf found), Node.page_leaf found]
      | table pointed attr =>
          have inner : level ≠ 0 := by
            have := Entry.decode_table found
            omega
          rw [pageAt, Tables.node_table found, Node.page_table (Entry.decode_marks found)]
          exact induction inner below

end Memory

end Remap.PageTable
