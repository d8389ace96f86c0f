/-!
# Mapping attributes

The attribute of a range holds its access rights, caching, marks, protection key
and physical base address in one word, with every field where the entry of a
4 KiB page has it. The same word serves as a mask that selects fields; it selects
the base address only if it selects all of it.
-/

namespace Remap.PageTable

inductive Flag
  | present
  | readWrite
  | userSupervisor
  | writeThrough
  | cacheDisable
  | accessed
  | dirty
  | pat
  | global
  | noExecute
deriving DecidableEq, Repr

namespace Flag

def mask : Flag → UInt64
  | present => 0x001
  | readWrite => 0x002
  | userSupervisor => 0x004
  | writeThrough => 0x008
  | cacheDisable => 0x010
  | accessed => 0x020
  | dirty => 0x040
  | pat => 0x080
  | global => 0x100
  | noExecute => 0x8000000000000000

end Flag

structure Attribute where
  bits : UInt64
deriving DecidableEq, Repr

namespace Attribute

def baseMask : UInt64 := 0x000FFFFFFFFFF000

def keyMask : UInt64 := 0x7800000000000000

/-- The flags that a range has only if every table above it grants them. -/
def grantMask : UInt64 := 0x007

def empty : Attribute := ⟨0⟩

def all : Attribute := ⟨0xF80FFFFFFFFFF1FF⟩

def permissive : Attribute := ⟨grantMask⟩

def ofBits (bits : UInt64) : Attribute := ⟨bits &&& all.bits⟩

def has (attr : Attribute) (flag : Flag) : Bool :=
  attr.bits &&& flag.mask != 0

def withBits (attr : Attribute) (mask : UInt64) (on : Bool) : Attribute :=
  ⟨if on then attr.bits ||| mask else attr.bits &&& ~~~mask⟩

def withFlag (attr : Attribute) (flag : Flag) (on : Bool) : Attribute :=
  attr.withBits flag.mask on

def base (attr : Attribute) : UInt64 := attr.bits &&& baseMask

def rights (attr : Attribute) : UInt64 := attr.bits &&& ~~~baseMask

def withBase (attr : Attribute) (base : UInt64) : Attribute :=
  ⟨(attr.bits &&& ~~~baseMask) ||| (base &&& baseMask)⟩

def withBaseIncluded (attr : Attribute) (on : Bool) : Attribute :=
  attr.withBits baseMask on

def protectionKey (attr : Attribute) : UInt64 :=
  (attr.bits &&& keyMask) >>> 59

def withProtectionKey (attr : Attribute) (key : UInt64) : Attribute :=
  ⟨(attr.bits &&& ~~~keyMask) ||| ((key <<< 59) &&& keyMask)⟩

def includesBase (attr : Attribute) : Bool := attr.base == baseMask

def isComplete (attr : Attribute) : Bool :=
  attr.bits &&& all.bits == all.bits

/-- The effective attribute below a parent with effective attribute `parent`: a
right needs the grant of both, and either can forbid execution. -/
def inherit (attr parent : Attribute) : Attribute :=
  let granted := attr.bits &&& (parent.bits ||| ~~~grantMask)
  ⟨granted ||| (parent.bits &&& Flag.noExecute.mask)⟩

/-- The attribute with the fields that `mask` selects taken from `requested`. A
new base address clears the fields not selected, which described another page. -/
def update (attr requested mask : Attribute) : Attribute :=
  let start := if mask.includesBase then 0 else attr.bits
  ⟨(start &&& ~~~mask.bits) ||| (requested.bits &&& mask.bits)⟩

end Attribute

end Remap.PageTable
