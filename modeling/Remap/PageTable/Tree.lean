import Remap.PageTable.Commit
import Remap.PageTable.Extent

/-!
# Page-table trees

A tree with its own memory reserves for every edit just the pages that it needs,
and reads itself back into as many extents as there are.
-/

namespace Remap.PageTable

structure Tree where
  mode : Mode
  memory : Memory
  root : Nat
deriving DecidableEq

namespace Tree

def ofMode (mode : Mode) : Except Error Tree := do
  mode.check
  return { mode, memory := .empty, root := 0 }

def ofWorkspace (mode : Mode) (space : Workspace) : Tree :=
  { mode, memory := space.memory, root := space.root }

def map (tree : Tree) (start length : Nat) (requested mask : Attribute) :
    Except Error Outcome × Tree :=
  let edit : Edit := { mode := tree.mode, start, length, requested, mask }
  let (outcome, space) := edit.apply ⟨tree.memory, tree.root, .empty⟩
  match outcome with
  | .error (.tooSmall required) =>
      match space.memory.reserve required with
      | .error cause => (.error cause, ofWorkspace tree.mode space)
      | .ok (buffer, memory) =>
          let (outcome, space) := edit.apply { space with memory, buffer }
          (outcome, ofWorkspace tree.mode space)
  | outcome => (outcome, ofWorkspace tree.mode space)

def extents (tree : Tree) : Except Error (List Extent) :=
  match (tree.memory.report tree.mode tree.root []).1 with
  | .error (.tooSmall count) =>
      let output := List.replicate count Extent.empty
      match tree.memory.report tree.mode tree.root output with
      | (.error cause, _) => .error cause
      | (.ok count, output) => .ok (output.take count)
  | .error cause => .error cause
  | .ok _ => .ok []

end Tree

end Remap.PageTable
