import Remap.PageTable.Memory

/-!
# Extents

Reading a tree back yields its mapped ranges in linear order. Neighbours that are
contiguous in linear and in physical addresses and have the same rights are one
extent. When a table pointer leads nowhere the walk stops there, and what was
found before it is kept.
-/

namespace Remap.PageTable

structure Extent where
  start : Nat
  length : Nat
  attr : Attribute
deriving DecidableEq, Repr

namespace Extent

def empty : Extent := ⟨0, 0, .empty⟩

def meets (extent next : Extent) : Bool :=
  extent.start + extent.length == next.start &&
    extent.attr.base.toNat + extent.length == next.attr.base.toNat &&
    extent.attr.rights == next.attr.rights

def mergeAfter (pending : Extent) : List Extent → List Extent
  | [] => [pending]
  | next :: rest =>
      if pending.meets next then
        mergeAfter { pending with length := pending.length + next.length } rest
      else
        pending :: mergeAfter next rest

def merge : List Extent → List Extent
  | [] => []
  | first :: rest => mergeAfter first rest

end Extent

structure Scan where
  found : List Extent
  failure : Option Error

namespace Scan

def empty : Scan := ⟨[], none⟩

def single (extent : Extent) : Scan := ⟨[extent], none⟩

def stopped (cause : Error) : Scan := ⟨[], some cause⟩

def all {α : Type} (walk : α → Scan) : List α → Scan
  | [] => empty
  | value :: rest =>
      let first := walk value
      match first.failure with
      | some _ => first
      | none =>
          let others := all walk rest
          ⟨first.found ++ others.found, others.failure⟩

end Scan

namespace Memory

def leaves (memory : Memory) :
    (level : Nat) → (address : Nat) → (parent : Attribute) → (origin : Nat) → Scan
  | 0, _, _, _ => .empty
  | level + 1, address, parent, origin =>
      match memory.table address with
      | .error cause => .stopped cause
      | .ok table =>
          let size := levelSize (level + 1)
          Scan.all (fun index : Fin tableEntries =>
            let start := origin + index.val * size
            match Entry.decode (table.word index) (level + 1) with
            | .absent => .empty
            | .table child attr =>
                leaves memory level child.toNat (attr.inherit parent) start
            | .leaf _ attr => .single ⟨start, size, attr.inherit parent⟩)
            table.present

def scan (memory : Memory) (mode : Mode) (root : Nat) : Scan :=
  if root = 0 then .empty else memory.leaves mode.maxLevel root .permissive 0

/-- Report the extents of the tree at `root` into `output` and count them. An
output that is too short gets the first of them. A walk that stops has reported
all extents but the last one found, which might have gone on. -/
def report (memory : Memory) (mode : Mode) (root : Nat) (output : List Extent) :
    Except Error Nat × List Extent :=
  if mode.isSupported = false then
    (.error (.unsupported mode), output)
  else
    let scan := memory.scan mode root
    let extents := Extent.merge scan.found
    let fill (reported : List Extent) :=
      reported.take output.length ++ output.drop reported.length
    match scan.failure with
    | some cause => (.error cause, fill extents.dropLast)
    | none =>
        if output.length < extents.length then
          (.error (.tooSmall extents.length), fill extents)
        else
          (.ok extents.length, fill extents)

end Memory

end Remap.PageTable
