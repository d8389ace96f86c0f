import Remap.Bytes.LittleEndian
import Remap.Bytes.Hex

/-!
# Identifiers

Arenas and the namespace they belong to carry 16-byte identifiers, stored in the
order in which they are written as text. A fresh identifier is made of random
bytes with the version (4) and the variant marked in two of them.
-/

namespace Remap.Block

structure Uuid where
  bytes : Vector UInt8 16
deriving DecidableEq, Repr

namespace Uuid

def nil : Uuid := ⟨Vector.replicate 16 0⟩

instance : Inhabited Uuid := ⟨nil⟩

def toList (uuid : Uuid) : List UInt8 := uuid.bytes.toList

def ofList (bytes : List UInt8) : Uuid :=
  ⟨Vector.ofFn fun index => bytes.getD index 0⟩

@[simp] theorem length_toList (uuid : Uuid) : uuid.toList.length = 16 := by
  simp [toList]

theorem ofList_toList (uuid : Uuid) : ofList uuid.toList = uuid := by
  obtain ⟨bytes⟩ := uuid
  simp only [ofList, toList, mk.injEq]
  ext index inside
  simp [List.getD_eq_getElem?_getD]

def ofRandom (bytes : Vector UInt8 16) : Uuid :=
  ⟨(bytes.set 6 ((bytes[6] &&& 0x0F) ||| 0x40)).set 8 ((bytes[8] &&& 0x3F) ||| 0x80)⟩

def version (uuid : Uuid) : UInt8 := uuid.bytes[6] >>> 4

def text (uuid : Uuid) : String :=
  let group (start width : Nat) := Hex.bytes (Bytes.slice start width uuid.toList)
  String.intercalate "-" [group 0 4, group 4 2, group 6 2, group 8 2, group 10 6]

end Uuid

abbrev Entropy := Nat → Option (Vector UInt8 16)

namespace Entropy

def ofBytes (bytes : List UInt8) : Entropy := fun draw =>
  if 16 * (draw + 1) ≤ bytes.length then
    some (Uuid.ofList (Bytes.slice (16 * draw) 16 bytes)).bytes
  else
    none

def uuid? (entropy : Entropy) (draw : Nat) : Option Uuid :=
  (entropy draw).map Uuid.ofRandom

end Entropy

end Remap.Block
