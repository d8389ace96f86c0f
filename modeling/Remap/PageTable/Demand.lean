import Remap.PageTable.Edit

/-!
# Pages that an edit needs

Counting walks the tables as they are, without changing them. Where the edit
would put a new table, the walk goes on in a table that is only imagined: a blank
one, or the leaves that a larger leaf is split into.
-/

namespace Remap.PageTable

inductive Source
  | stored (address : Nat)
  | blank
  | parts (leaf : Attribute)
deriving DecidableEq, Repr

namespace Source

def entry (source : Source) (memory : Memory) (level : Nat)
    (index : Fin tableEntries) : Except Error Entry :=
  match source with
  | stored address => do
      let table ← memory.table address
      return .decode (table.word index) level
  | blank => return .absent
  | parts leaf => return Edit.splitEntry leaf level index

end Source

namespace Edit

def demandBelow (edit : Edit) (memory : Memory) :
    (level : Nat) → Source → (parent : Attribute) → (origin : Nat) → Except Error Nat
  | 0, _, _, _ => return 0
  | level + 1, source, parent, origin =>
      (edit.slots (level + 1) origin).foldlM (fun count index => do
        let slot := origin + index.val * levelSize (level + 1)
        let current ← source.entry memory (level + 1) index
        match ← edit.action (level + 1) slot parent current with
        | .keep | .store _ => return count
        | .enter address below =>
            return count + (← demandBelow edit memory level (.stored address) below slot)
        | .grow below =>
            return count + 1 + (← demandBelow edit memory level .blank below slot)
        | .split leaf below =>
            return count + 1 + (← demandBelow edit memory level (.parts leaf) below slot)) 0

def demand (edit : Edit) (memory : Memory) (root : Nat) : Except Error Nat := do
  let level := edit.mode.maxLevel
  if root ≠ 0 then
    edit.demandBelow memory level (.stored root) .permissive 0
  else if edit.creates then
    edit.checkMask
    return 1 + (← edit.demandBelow memory level .blank .permissive 0)
  else
    return 0

end Edit

end Remap.PageTable
