import Remap.PageTable.Attribute
import Remap.PageTable.Mode

/-!
# Table entries

How an entry is read depends on its level and on the page-size bit. A level 1
entry is a leaf in the layout of attributes. A level 2 or 3 entry with the
page-size bit is a large leaf, which keeps the page-attribute flag in bit 12 since
bit 7 is taken. Any other entry points to a table. An entry without the present
flag is absent, whatever else it holds.
-/

namespace Remap.PageTable

inductive Entry
  | absent
  | table (address : UInt64) (attr : Attribute)
  | leaf (size : LeafSize) (attr : Attribute)
deriving DecidableEq, Repr

namespace Entry

def pageSizeBit : UInt64 := 0x80

def largePatBit : UInt64 := 0x1000

def leafMask : UInt64 := 0xF80000000000017F

def tableMask : UInt64 := 0x800000000000003F

def leafBaseMask (level : Nat) : UInt64 :=
  Attribute.baseMask &&& ~~~(UInt64.ofNat (levelSize level) - 1)

def decodeLarge (raw : UInt64) (level : Nat) : Attribute :=
  let pat := if raw &&& largePatBit != 0 then Flag.pat.mask else 0
  .ofBits ((raw &&& leafMask) ||| pat ||| (raw &&& leafBaseMask level))

def encodeLarge (attr : Attribute) (level : Nat) : UInt64 :=
  let pat := if attr.has .pat then largePatBit else 0
  (attr.bits &&& leafMask) ||| pageSizeBit ||| pat |||
    (attr.bits &&& leafBaseMask level)

def decode (raw : UInt64) (level : Nat) : Entry :=
  if raw &&& Flag.present.mask == 0 then
    absent
  else if level = 1 then
    leaf .page4K (.ofBits raw)
  else if (level = 2 ∨ level = 3) ∧ raw &&& pageSizeBit != 0 then
    leaf (.ofLevel level) (decodeLarge raw level)
  else
    table (raw &&& Attribute.baseMask) (.ofBits (raw &&& tableMask))

def encode : Entry → UInt64
  | absent => 0
  | table address attr =>
      (address &&& Attribute.baseMask) ||| (attr.bits &&& tableMask)
  | leaf .page4K attr => attr.bits
  | leaf .page2M attr => encodeLarge attr 2
  | leaf .page1G attr => encodeLarge attr 3

def leafAt (level : Nat) (attr : Attribute) : Entry :=
  leaf (.ofLevel level) attr

def pointer (address : Nat) : Entry :=
  table (.ofNat address) .permissive

def leafAttribute? : Entry → Option Attribute
  | leaf _ attr => some attr
  | absent | table _ _ => none

end Entry

end Remap.PageTable
