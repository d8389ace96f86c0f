import Remap.Block.Layout.Geometry
import Remap.Block.Uuid
import Remap.Bytes.Fletcher64

/-!
# Info blocks

An arena starts and ends with the same 4096 bytes, which say what it is and
where its regions are: a signature, fields at fixed offsets up to byte 120, zeros,
and in the last eight bytes a Fletcher-64 checksum of all the rest. Reading an
info block checks that it is one; agreement with what the reader expects of the
arena is checked apart from that.
-/

namespace Remap.Block

structure InfoBlock where
  uuid : Uuid
  parent : Uuid
  flags : UInt32
  major : UInt16
  minor : UInt16
  externalSize : UInt32
  external : UInt32
  internalSize : UInt32
  internal : UInt32
  nfree : UInt32
  infoSize : UInt32
  nextOffset : UInt64
  dataOffset : UInt64
  mapOffset : UInt64
  flogOffset : UInt64
  infoOffset : UInt64
deriving DecidableEq, Repr

inductive Mismatch
  | infoSize (found : UInt32)
  | parent (found expected : Uuid)
  | externalSize (found expected : UInt32)
  | internalSize (found expected : UInt32)
  | noFreeBlocks
  | internal (found external nfree : UInt32)
  | infoOffset (found : UInt64) (arenaSize : Nat)
  | nextOffset (found : UInt64) (expected : Nat)
  | regions (flog map data info : UInt64)
  | flogEnd (stop : Nat)
  | mapEnd (stop : Nat)
  | dataEnd (limit : UInt64)
deriving DecidableEq, Repr

namespace Mismatch

def field : Mismatch → String
  | infoSize _ => "info_size"
  | parent _ _ => "parent_uuid"
  | externalSize _ _ => "external_lba_size"
  | internalSize _ _ => "internal_lba_size"
  | noFreeBlocks => "nfree"
  | internal _ _ _ => "internal_nlba"
  | infoOffset _ _ => "info_off"
  | nextOffset _ _ => "next_off"
  | regions _ _ _ _ => "offsets"
  | flogEnd _ => "flog_off"
  | mapEnd _ => "map_off"
  | dataEnd _ => "data_off"

def detail : Mismatch → String
  | infoSize found => s!"{found.toNat} != {infoBlockBytes}"
  | parent found expected => s!"{found.text} != {expected.text}"
  | externalSize found expected => s!"{found.toNat} != {expected.toNat}"
  | internalSize found expected => s!"{found.toNat} != {expected.toNat}"
  | noFreeBlocks => "must be at least 1"
  | internal found external nfree =>
      s!"{found.toNat} != external_nlba {external.toNat} + nfree {nfree.toNat}"
  | infoOffset found arenaSize =>
      s!"{Hex.number found.toNat} for arena size {Hex.number arenaSize}"
  | nextOffset found expected =>
      s!"{Hex.number found.toNat} != {Hex.number expected}"
  | regions flog map data info =>
      s!"flog {Hex.number flog.toNat} map {Hex.number map.toNat} " ++
        s!"data {Hex.number data.toNat} info {Hex.number info.toNat}"
  | flogEnd stop => s!"flog ends at {Hex.number stop}"
  | mapEnd stop => s!"map ends at {Hex.number stop}"
  | dataEnd limit => s!"data area overruns {Hex.number limit.toNat}"

end Mismatch

inductive InfoBlockError
  | signature
  | checksum (stored computed : UInt64)
  | version (major minor : UInt16)
  | mismatch (cause : Mismatch)
deriving DecidableEq, Repr

namespace InfoBlockError

def message : InfoBlockError → String
  | signature => "invalid info block signature"
  | checksum stored computed =>
      s!"checksum mismatch: stored {Hex.padded 16 stored.toNat}, " ++
        s!"computed {Hex.padded 16 computed.toNat}"
  | version major minor =>
      s!"unsupported format version: {major.toNat}.{minor.toNat}"
  | mismatch cause => s!"invalid {cause.field}: {cause.detail}"

end InfoBlockError

structure Expectation where
  parent : Uuid
  externalSize : UInt32
  internalSize : UInt32
  arenaSize : Nat
  hasNext : Bool
deriving DecidableEq, Repr

namespace InfoBlock

def signature : List UInt8 :=
  [0x42, 0x54, 0x54, 0x5F, 0x41, 0x52, 0x45, 0x4E,
   0x41, 0x5F, 0x49, 0x4E, 0x46, 0x4F, 0x00, 0x00]

def majorVersion : UInt16 := 1

def minorVersion : UInt16 := 2

def errorFlag : UInt32 := 1

def checksumOffset : Nat := infoBlockBytes - Fletcher64.width

def ofGeometry (uuid parent : Uuid) (externalSize internalSize : UInt32)
    (geometry : Geometry) (nextOffset : Nat) : InfoBlock where
  uuid
  parent
  flags := 0
  major := majorVersion
  minor := minorVersion
  externalSize
  external := .ofNat geometry.external
  internalSize
  internal := .ofNat geometry.internal
  nfree := .ofNat geometry.nfree
  infoSize := .ofNat infoBlockBytes
  nextOffset := .ofNat nextOffset
  dataOffset := .ofNat geometry.dataOffset
  mapOffset := .ofNat geometry.mapOffset
  flogOffset := .ofNat geometry.flogOffset
  infoOffset := .ofNat geometry.infoOffset

def hasErrorFlag (info : InfoBlock) : Bool := info.flags &&& errorFlag != 0

def withErrorFlag (info : InfoBlock) : InfoBlock :=
  { info with flags := info.flags ||| errorFlag }

def header (info : InfoBlock) : List UInt8 :=
  let half (value : UInt16) := LittleEndian.encode 2 value.toNat
  let word (value : UInt32) := LittleEndian.encode 4 value.toNat
  let long (value : UInt64) := LittleEndian.encode 8 value.toNat
  signature ++ info.uuid.toList ++ info.parent.toList ++
    word info.flags ++ half info.major ++ half info.minor ++
    word info.externalSize ++ word info.external ++
    word info.internalSize ++ word info.internal ++
    word info.nfree ++ word info.infoSize ++
    long info.nextOffset ++ long info.dataOffset ++ long info.mapOffset ++
    long info.flogOffset ++ long info.infoOffset

def unsealed (info : InfoBlock) : List UInt8 :=
  info.header ++ List.replicate (infoBlockBytes - info.header.length) 0

def toBytes (info : InfoBlock) : List UInt8 :=
  Fletcher64.sealAt checksumOffset info.unsealed

theorem length_header (info : InfoBlock) : info.header.length = 120 := by
  simp [header, signature]

@[simp] theorem length_unsealed (info : InfoBlock) :
    info.unsealed.length = infoBlockBytes := by
  rw [unsealed, List.length_append, List.length_replicate, length_header]
  rfl

@[simp] theorem length_toBytes (info : InfoBlock) :
    info.toBytes.length = infoBlockBytes := by
  rw [toBytes, Fletcher64.length_sealAt, length_unsealed]
  rw [length_unsealed]
  decide

def fields (bytes : List UInt8) : InfoBlock :=
  let half (offset : Nat) := UInt16.ofNat (Bytes.number offset 2 bytes)
  let word (offset : Nat) := UInt32.ofNat (Bytes.number offset 4 bytes)
  let long (offset : Nat) := UInt64.ofNat (Bytes.number offset 8 bytes)
  { uuid := .ofList (Bytes.slice 16 16 bytes)
    parent := .ofList (Bytes.slice 32 16 bytes)
    flags := word 48
    major := half 52
    minor := half 54
    externalSize := word 56
    external := word 60
    internalSize := word 64
    internal := word 68
    nfree := word 72
    infoSize := word 76
    nextOffset := long 80
    dataOffset := long 88
    mapOffset := long 96
    flogOffset := long 104
    infoOffset := long 112 }

/-- Read an info block: signature, checksum, version and size are checked, in
this order. -/
def ofBytes (bytes : List UInt8) : Except InfoBlockError InfoBlock :=
  let info := fields bytes
  let stored := Fletcher64.stored checksumOffset bytes
  let computed := Fletcher64.checksumWithout checksumOffset bytes
  if bytes.take signature.length ≠ signature then
    .error .signature
  else if stored ≠ computed then
    .error (.checksum stored computed)
  else if info.major ≠ majorVersion ∨ info.minor ≠ minorVersion then
    .error (.version info.major info.minor)
  else if info.infoSize.toNat ≠ infoBlockBytes then
    .error (.mismatch (.infoSize info.infoSize))
  else
    .ok info

def regionsOrdered (info : InfoBlock) : Bool :=
  let offsets := [info.flogOffset, info.mapOffset, info.dataOffset, info.infoOffset]
  infoBlockBytes ≤ info.flogOffset.toNat &&
    info.flogOffset < info.mapOffset &&
    info.mapOffset < info.dataOffset &&
    info.dataOffset < info.infoOffset &&
    offsets.all fun offset => offset.toNat % regionAlignment == 0

def flogEnd (info : InfoBlock) : Nat :=
  info.flogOffset.toNat + info.nfree.toNat * flogSlotBytes

def mapEnd (info : InfoBlock) : Nat :=
  info.mapOffset.toNat + info.external.toNat * mapEntryBytes

def dataEnd (info : InfoBlock) : Nat :=
  info.dataOffset.toNat + info.internal.toNat * info.internalSize.toNat

def mismatch? (info : InfoBlock) (expected : Expectation) : Option Mismatch :=
  let next := if expected.hasNext then expected.arenaSize else 0
  if info.parent ≠ expected.parent then
    some (.parent info.parent expected.parent)
  else if info.externalSize ≠ expected.externalSize then
    some (.externalSize info.externalSize expected.externalSize)
  else if info.internalSize ≠ expected.internalSize then
    some (.internalSize info.internalSize expected.internalSize)
  else if info.nfree = 0 then
    some .noFreeBlocks
  else if info.internal.toNat ≠ info.external.toNat + info.nfree.toNat then
    some (.internal info.internal info.external info.nfree)
  else if info.infoOffset.toNat ≠ expected.arenaSize - infoBlockBytes then
    some (.infoOffset info.infoOffset expected.arenaSize)
  else if info.nextOffset.toNat ≠ next then
    some (.nextOffset info.nextOffset next)
  else if !info.regionsOrdered then
    some (.regions info.flogOffset info.mapOffset info.dataOffset info.infoOffset)
  else if info.mapOffset.toNat < info.flogEnd then
    some (.flogEnd info.flogEnd)
  else if info.dataOffset.toNat < info.mapEnd then
    some (.mapEnd info.mapEnd)
  else if info.infoOffset.toNat < info.dataEnd then
    some (.dataEnd info.infoOffset)
  else
    none

def validate (info : InfoBlock) (expected : Expectation) :
    Except InfoBlockError Unit :=
  match info.mismatch? expected with
  | some cause => .error (.mismatch cause)
  | none => .ok ()

end InfoBlock

end Remap.Block
