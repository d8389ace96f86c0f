import Remap.PageTable.Memory

/-!
# Edits

An edit gives a range of linear addresses new values in the fields that its mask
selects; physical addresses advance with the linear ones. What the edit does with
one entry of a table depends on that entry, on its place and on the effective
attribute above it, and on nothing else. `Edit.action` makes this decision, which
counting and committing share.

A leaf is written where the edit covers the whole of an entry, the mode allows a
leaf there, and the physical address is aligned. A table pointer gives way to a
leaf only if the mask selects every field. New table pointers are permissive, so
they never restrict the neighbours of the range.
-/

namespace Remap.PageTable

structure Edit where
  mode : Mode
  start : Nat
  length : Nat
  requested : Attribute
  mask : Attribute
deriving DecidableEq, Repr

/-! An entry that the range meets is kept or stored anew, or the edit goes on below it: in the table
that it points to, in a blank table, or in the parts of a larger leaf. -/

inductive Action
  | keep
  | store (entry : Entry)
  | enter (address : Nat) (below : Attribute)
  | grow (below : Attribute)
  | split (leaf : Attribute) (below : Attribute)
deriving DecidableEq, Repr

namespace Edit

def stop (edit : Edit) : Nat := edit.start + edit.length

def creates (edit : Edit) : Bool :=
  edit.mask.has .present && edit.requested.has .present

def removes (edit : Edit) : Bool :=
  edit.mask.has .present && !edit.requested.has .present

def physical (edit : Edit) (linear : Nat) : Nat :=
  edit.requested.base.toNat + (linear - edit.start)

def updated (edit : Edit) (current : Attribute) (linear : Nat) : Attribute :=
  current.update (edit.requested.withBase (.ofNat (edit.physical linear))) edit.mask

/-- Whether the mask can create mappings: it selects the rights and the base. -/
def maskCreates (edit : Edit) : Bool :=
  edit.mask.bits &&& Attribute.grantMask == Attribute.grantMask &&
    edit.mask.includesBase

def checkMask (edit : Edit) : Except Error Unit :=
  if edit.maskCreates then .ok () else .error (.invalidParameter .incompleteMask)

def checkRange (edit : Edit) : Except Error Unit :=
  if edit.start % pageBytes ≠ 0 ∨ edit.length % pageBytes ≠ 0 then
    .error (.invalidParameter .unalignedRange)
  else if edit.mode.linearLimit < edit.stop then
    .error (.invalidParameter .beyondLinearSpace)
  else if edit.mask.includesBase ∧ 1 <<< 52 < edit.requested.base.toNat + edit.length then
    .error (.invalidParameter .beyondPhysicalSpace)
  else
    .ok ()

def meets (edit : Edit) (slot size : Nat) : Bool :=
  max edit.start slot < min edit.stop (slot + size)

def covers (edit : Edit) (slot size : Nat) : Bool :=
  edit.start ≤ slot && slot + size ≤ edit.stop

def slots (edit : Edit) (level origin : Nat) : List (Fin tableEntries) :=
  let size := levelSize level
  (List.finRange tableEntries).filter fun index =>
    edit.meets (origin + index.val * size) size

def writesLeaf (edit : Edit) (level slot : Nat) (current : Entry) : Bool :=
  let size := levelSize level
  let aligned := !edit.mask.includesBase || edit.removes || edit.physical slot % size == 0
  let replaceable :=
    match current with
    | .table _ _ => edit.mask.isComplete
    | .absent | .leaf _ _ => true
  edit.covers slot size && level ≤ edit.mode.maxLeafLevel && aligned && replaceable

def leafAction (edit : Edit) (level slot : Nat) (current : Entry) :
    Except Error Action := do
  let existing := current.leafAttribute?.getD .empty
  let written := Action.store (.leafAt level (edit.updated existing slot))
  if current = .absent then
    if edit.creates then
      edit.checkMask
      return written
    else
      return .keep
  else
    return written

/-- What happens to an entry below which the edit goes on. A large leaf that would
not change is left whole. -/
def innerAction (edit : Edit) (slot : Nat) (parent : Attribute) (current : Entry) :
    Except Error Action := do
  let below := Attribute.permissive.inherit parent
  match current with
  | .absent =>
      if edit.creates then
        edit.checkMask
        return .grow below
      else
        return .keep
  | .table address attr => return .enter address.toNat (attr.inherit parent)
  | .leaf _ attr =>
      let first := max edit.start slot
      let there := attr.withBase (attr.base + .ofNat (first - slot))
      if edit.updated there first = there then
        return .keep
      else
        return .split (attr.inherit parent) below

def action (edit : Edit) (level slot : Nat) (parent : Attribute) (current : Entry) :
    Except Error Action :=
  if edit.writesLeaf level slot current then edit.leafAction level slot current
  else edit.innerAction slot parent current

def splitEntry (attr : Attribute) (level index : Nat) : Entry :=
  .leafAt level (attr.withBase (attr.base + .ofNat (index * levelSize level)))

end Edit

end Remap.PageTable
