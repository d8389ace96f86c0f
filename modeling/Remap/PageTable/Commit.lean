import Remap.PageTable.Demand

/-!
# Committing an edit

An edit is counted first and committed only if its buffer holds the pages that it
needs, so a buffer that is too small is reported with nothing changed.
-/

namespace Remap.PageTable

structure Outcome where
  pages : Nat
  modified : Bool
deriving DecidableEq, Repr

namespace Outcome

def none : Outcome := ⟨0, false⟩

end Outcome

/-! A commit works on a tree, the memory with its tables and the buffer for new ones, and keeps the
account of what it did so far. -/

structure Workspace where
  memory : Memory
  root : Nat
  buffer : Buffer
deriving DecidableEq

structure Progress where
  space : Workspace
  pages : Nat
  modified : Bool
deriving DecidableEq

/-- A step of a commit; what was done before a failure stays done. -/
abbrev Commit := ExceptT Error (StateM Progress)

namespace Commit

def table (address : Nat) : Commit Table := do
  let progress ← get
  ExceptT.mk (pure (progress.space.memory.table address))

def modifyTable (address : Nat) (change : Table → Table) : Commit Unit := fun progress =>
  match progress.space.memory.index address with
  | .error cause => (.error cause, progress)
  | .ok index =>
      let memory := progress.space.memory.modifyPage index change
      (.ok (), { progress with space := { progress.space with memory } })

def takePage : Commit Nat := fun progress =>
  let pages := progress.pages + 1
  match progress.space.buffer.takePage? with
  | none => (.error (.tooSmall (pages * pageBytes)), { progress with pages })
  | some (address, buffer) =>
      (.ok address, { progress with space := { progress.space with buffer }, pages })

def allocate (table : Table) : Commit Nat := do
  let address ← takePage
  modifyTable address fun _ => table
  return address

def setEntry (address : Nat) (index : Fin tableEntries) (entry : Entry) :
    Commit Unit := do
  let before ← table address
  if before.word index ≠ entry.encode then
    modifyTable address fun table => table.setWord index entry.encode
    modify fun progress => { progress with modified := true }

def link (address : Nat) (index : Fin tableEntries) (table : Table) : Commit Nat := do
  let child ← allocate table
  setEntry address index (.pointer child)
  return child

end Commit

namespace Table

def ofParts (leaf : Attribute) (level : Nat) : Table :=
  Vector.ofFn fun index => (Edit.splitEntry leaf level index).encode

end Table

namespace Edit

def commitEntry (edit : Edit)
    (descend : (address : Nat) → (parent : Attribute) → (origin : Nat) → Commit Unit)
    (level address : Nat) (parent : Attribute) (slot : Nat) (index : Fin tableEntries) :
    Commit Unit := do
  let current := Entry.decode ((← Commit.table address).word index) (level + 1)
  match edit.action (level + 1) slot parent current with
  | .error cause => throw cause
  | .ok .keep => return
  | .ok (.store entry) => Commit.setEntry address index entry
  | .ok (.enter child below) => descend child below slot
  | .ok (.grow below) =>
      let child ← Commit.link address index Table.blank
      descend child below slot
  | .ok (.split leaf below) =>
      let child ← Commit.link address index (Table.ofParts leaf level)
      descend child below slot

def commitBelow (edit : Edit) :
    (level : Nat) → (address : Nat) → (parent : Attribute) → (origin : Nat) → Commit Unit
  | 0, _, _, _ => return
  | level + 1, address, parent, origin =>
      (edit.slots (level + 1) origin).forM fun index =>
        edit.commitEntry (commitBelow edit level) level address parent
          (origin + index.val * levelSize (level + 1)) index

def commitRoot (edit : Edit) : Commit Nat := do
  let level := edit.mode.maxLevel
  let root := (← get).space.root
  if root ≠ 0 then
    edit.commitBelow level root .permissive 0
    return root
  else if edit.creates then
    let root ← Commit.allocate Table.blank
    edit.commitBelow level root .permissive 0
    return root
  else
    return 0

def commit (edit : Edit) (space : Workspace) : Except Error Outcome × Workspace :=
  let before := space.root
  let (outcome, progress) := edit.commitRoot.run { space, pages := 0, modified := false }
  match outcome with
  | .error cause => (.error cause, progress.space)
  | .ok root =>
      let modified := progress.modified || root != before
      (.ok { pages := progress.pages, modified }, { progress.space with root })

/-- Make an edit. Nothing changes unless the buffer holds the pages needed, whose
size is reported otherwise. -/
def apply (edit : Edit) (space : Workspace) : Except Error Outcome × Workspace :=
  if edit.mode.isSupported = false then
    (.error (.unsupported edit.mode), space)
  else if edit.length = 0 then
    (.ok .none, space)
  else
    match edit.checkRange *> edit.demand space.memory space.root with
    | .error cause => (.error cause, space)
    | .ok pages =>
        if space.buffer.remaining < pages * pageBytes then
          (.error (.tooSmall (pages * pageBytes)), space)
        else
          edit.commit space

end Edit

end Remap.PageTable
