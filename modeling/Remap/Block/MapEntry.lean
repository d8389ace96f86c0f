/-!
# Map entries

The map of an arena has one 32-bit entry per external block: 30 bits that name a
data block, and two flags. Both flags set mean a normal mapping, the error flag
alone a bad block, the zero flag alone a block of zeros. No flag means that the
block is backed by the data block of its own number, so an all-zero map maps
every block onto itself.
-/

namespace Remap.Block

structure MapEntry where
  raw : UInt32
deriving DecidableEq, Repr

inductive Mapping
  | data (block : UInt32)
  | bad
  | zeros
deriving DecidableEq, Repr

namespace MapEntry

def blockMask : UInt32 := 0x3FFFFFFF

def errorFlag : UInt32 := 0x40000000

def zeroFlag : UInt32 := 0x80000000

def zero : MapEntry := ⟨0⟩

def normal (block : UInt32) : MapEntry :=
  ⟨(block &&& blockMask) ||| errorFlag ||| zeroFlag⟩

def block (entry : MapEntry) : UInt32 := entry.raw &&& blockMask

def hasError (entry : MapEntry) : Bool := entry.raw &&& errorFlag != 0

def hasZero (entry : MapEntry) : Bool := entry.raw &&& zeroFlag != 0

def isIdentity (entry : MapEntry) : Bool := !entry.hasError && !entry.hasZero

/-- The entry of block `lba` with an identity spelled out as the normal mapping
that it stands for. -/
def explicit (entry : MapEntry) (lba : UInt32) : MapEntry :=
  if entry.isIdentity then normal lba else entry

/-- The data block owned by the entry of block `lba`. A bad block and a block of
zeros own one too; it becomes free when the entry is next replaced. -/
def backingBlock (entry : MapEntry) (lba : UInt32) : UInt32 :=
  (entry.explicit lba).block

def mapping (entry : MapEntry) (lba : UInt32) : Mapping :=
  match entry.hasError, entry.hasZero with
  | true, true => .data entry.block
  | true, false => .bad
  | false, true => .zeros
  | false, false => .data lba

end MapEntry

end Remap.Block
