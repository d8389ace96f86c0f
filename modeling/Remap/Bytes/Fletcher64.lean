import Remap.Bytes.LittleEndian

/-!
# Fletcher-64

The checksum runs over little-endian 32-bit words. A low sum adds up the words
and a high sum adds up the successive low sums, both modulo 2 ^ 32; bytes after
the last whole word do not count. A record that stores its own checksum counts
the words of that field as zero, so that sealing the record does not change the
sum being stored.
-/

namespace Remap.Fletcher64

def width : Nat := 8

def words : List UInt8 → List UInt32
  | first :: second :: third :: fourth :: rest =>
      UInt32.ofNat (LittleEndian.decode [first, second, third, fourth]) :: words rest
  | _ => []

structure Sums where
  low : UInt32
  high : UInt32
deriving DecidableEq, Repr

namespace Sums

def zero : Sums := ⟨0, 0⟩

def add (sums : Sums) (word : UInt32) : Sums :=
  let low := sums.low + word
  ⟨low, sums.high + low⟩

def value (sums : Sums) : UInt64 :=
  UInt64.ofNat (sums.high.toNat * UInt32.size + sums.low.toNat)

end Sums

def ofWords (values : List UInt32) : UInt64 :=
  (values.foldl Sums.add Sums.zero).value

def checksum (bytes : List UInt8) : UInt64 :=
  ofWords (words bytes)

/-- The checksum with every word that starts inside the field at `offset`
counted as zero. -/
def checksumWithout (offset : Nat) (bytes : List UInt8) : UInt64 :=
  ofWords <| (words bytes).mapIdx fun index word =>
    if offset ≤ 4 * index ∧ 4 * index < offset + width then 0 else word

def stored (offset : Nat) (bytes : List UInt8) : UInt64 :=
  UInt64.ofNat (Bytes.number offset width bytes)

def isSealed (offset : Nat) (bytes : List UInt8) : Bool :=
  stored offset bytes == checksumWithout offset bytes

def sealAt (offset : Nat) (bytes : List UInt8) : List UInt8 :=
  Bytes.overwrite offset
    (LittleEndian.encode width (checksumWithout offset bytes).toNat) bytes

theorem length_sealAt {offset : Nat} {bytes : List UInt8}
    (inside : offset + width ≤ bytes.length) :
    (sealAt offset bytes).length = bytes.length :=
  Bytes.length_overwrite (by simpa using inside)

example : checksum [1, 0, 0, 0, 2, 0, 0, 0] = 0x400000003 := by decide

end Remap.Fletcher64
