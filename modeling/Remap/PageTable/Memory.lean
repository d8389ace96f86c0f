import Remap.Bytes.LittleEndian
import Remap.PageTable.Entry

/-!
# Memory for tables

Tables live in pages of a simulated physical memory that grows from a fixed
address and is never given back. Pages are reserved in buffers; an edit takes
them one at a time from the end of its buffer.
-/

namespace Remap.PageTable

inductive Misuse
  | unalignedRange
  | beyondLinearSpace
  | beyondPhysicalSpace
  | incompleteMask
  | bufferSize
  | unalignedTable
  | strayTable
deriving DecidableEq, Repr

namespace Misuse

def message : Misuse → String
  | unalignedRange => "linear address and length must be 4 KiB aligned"
  | beyondLinearSpace => "range exceeds the linear address space of the paging mode"
  | beyondPhysicalSpace => "physical range exceeds the 52-bit address space"
  | incompleteMask =>
      "creating a mapping requires a mask covering present, read/write, " ++
        "user/supervisor and the base address"
  | bufferSize => "buffer size must be a positive multiple of 4 KiB"
  | unalignedTable => "table address is not page aligned"
  | strayTable => "table address outside page-table memory"

end Misuse

inductive Error
  | unsupported (mode : Mode)
  | invalidParameter (cause : Misuse)
  | tooSmall (required : Nat)
deriving DecidableEq, Repr

namespace Error

def message : Error → String
  | unsupported mode => s!"unsupported paging mode: {mode.name}"
  | invalidParameter cause => s!"invalid parameter: {cause.message}"
  | tooSmall required => s!"buffer too small, {required} required"

end Error

namespace Mode

def check (mode : Mode) : Except Error Unit :=
  if mode.isSupported then .ok () else .error (.unsupported mode)

end Mode

abbrev Table := Vector UInt64 tableEntries

namespace Table

def blank : Table := Vector.replicate tableEntries 0

def word (table : Table) (index : Fin tableEntries) : UInt64 := table[index]

def setWord (table : Table) (index : Fin tableEntries) (word : UInt64) : Table :=
  table.set index word index.isLt

def present (table : Table) : List (Fin tableEntries) :=
  (List.finRange tableEntries).filter fun index =>
    table.word index &&& Flag.present.mask != 0

def toBytes (table : Table) : List UInt8 :=
  table.toList.flatMap fun word => LittleEndian.encode 8 word.toNat

end Table

structure Memory where
  tables : Array Table
deriving DecidableEq

/-- A reserved run of pages, used from the end on down. -/
structure Buffer where
  base : Nat
  size : Nat
  remaining : Nat
deriving DecidableEq, Repr

namespace Buffer

def empty : Buffer := ⟨0, 0, 0⟩

def consumed (buffer : Buffer) : Nat := buffer.size - buffer.remaining

def takePage? (buffer : Buffer) : Option (Nat × Buffer) :=
  if buffer.remaining < pageBytes then
    none
  else
    let remaining := buffer.remaining - pageBytes
    some (buffer.base + remaining, { buffer with remaining })

end Buffer

namespace Memory

def firstAddress : Nat := 0x100000

def empty : Memory := ⟨#[]⟩

def reserved (memory : Memory) : Nat := memory.tables.size * pageBytes

def address (index : Nat) : Nat := firstAddress + index * pageBytes

def reserve (memory : Memory) (size : Nat) : Except Error (Buffer × Memory) :=
  if size = 0 ∨ size % pageBytes ≠ 0 then
    .error (.invalidParameter .bufferSize)
  else
    let buffer := { base := firstAddress + memory.reserved, size, remaining := size }
    let pages := Array.replicate (size / pageBytes) Table.blank
    .ok (buffer, { tables := memory.tables ++ pages })

def index (memory : Memory) (address : Nat) : Except Error Nat :=
  if address % pageBytes ≠ 0 then
    .error (.invalidParameter .unalignedTable)
  else if address < firstAddress ∨ firstAddress + memory.reserved ≤ address then
    .error (.invalidParameter .strayTable)
  else
    .ok ((address - firstAddress) / pageBytes)

def table (memory : Memory) (address : Nat) : Except Error Table := do
  return memory.tables.getD (← memory.index address) Table.blank

def modifyPage (memory : Memory) (index : Nat) (change : Table → Table) : Memory :=
  { tables := memory.tables.modify index change }

def modify (memory : Memory) (address : Nat) (change : Table → Table) :
    Except Error Memory := do
  return memory.modifyPage (← memory.index address) change

end Memory

end Remap.PageTable
