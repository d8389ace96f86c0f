import Remap.Proofs.Block.InfoBlock
import Remap.Proofs.Bytes.Damage

/-!
# Info blocks as stored

What is read as an info block is written again with the same fields. The bytes come out as they
were only if nothing but zeros stood between the fields and the checksum: an info block has one
canonical form, and the reader accepts others. It does not accept any two forms that differ in two
neighbouring words at most.
-/

namespace Remap.Block

theorem Uuid.toList_ofList {bytes : List UInt8} (whole : bytes.length = 16) :
    (Uuid.ofList bytes).toList = bytes := by
  apply List.ext_getElem (by rw [length_toList, whole])
  intro index inside within
  simp [ofList, toList, within]

namespace InfoBlock

variable {bytes : List UInt8} {info : InfoBlock} (whole : bytes.length = infoBlockBytes)

include whole

theorem header_fields (signed : bytes.take signature.length = signature) :
    (fields bytes).header = bytes.take 120 := by
  have room (offset width : Nat) (inside : offset + width ≤ 120) :
      offset + width ≤ bytes.length := by
    rw [whole]
    exact Nat.le_trans inside (by decide)
  have half (offset : Nat) (inside : offset + 2 ≤ 120) :
      LittleEndian.encode 2 (UInt16.ofNat (Bytes.number offset 2 bytes)).toNat =
        Bytes.slice offset 2 bytes := by
    rw [UInt16.toNat_ofNat_of_lt' (Bytes.number_lt (room _ _ inside)),
      Bytes.encode_number (room _ _ inside)]
  have word (offset : Nat) (inside : offset + 4 ≤ 120) :
      LittleEndian.encode 4 (UInt32.ofNat (Bytes.number offset 4 bytes)).toNat =
        Bytes.slice offset 4 bytes := by
    rw [UInt32.toNat_ofNat_of_lt' (Bytes.number_lt (room _ _ inside)),
      Bytes.encode_number (room _ _ inside)]
  have long (offset : Nat) (inside : offset + 8 ≤ 120) :
      LittleEndian.encode 8 (UInt64.ofNat (Bytes.number offset 8 bytes)).toNat =
        Bytes.slice offset 8 bytes := by
    rw [UInt64.toNat_ofNat_of_lt' (Bytes.number_lt (room _ _ inside)),
      Bytes.encode_number (room _ _ inside)]
  have uuid (offset : Nat) (inside : offset + 16 ≤ 120) :
      (Uuid.ofList (Bytes.slice offset 16 bytes)).toList = Bytes.slice offset 16 bytes :=
    Uuid.toList_ofList (Bytes.length_slice (room _ _ inside))
  have front : signature = Bytes.slice 0 16 bytes := signed.symm
  rw [header, front]
  -- Each piece is the slice at its offset, so the pieces join to the first 120 bytes.
  simp only [fields, uuid, half, word, long, Nat.reduceAdd, Nat.reduceLeDiff, Bytes.slice_join]
  rfl

theorem take_unsealed_eq_iff (header_eq : info.header = bytes.take 120) :
    info.unsealed.take checksumOffset = bytes.take checksumOffset ↔
      ∀ index, 120 ≤ index → index < checksumOffset → bytes[index]? = some 0 := by
  have behind (index : Nat) (lower : 120 ≤ index) (upper : index < checksumOffset) :
      info.unsealed[index]? = some 0 := by
    have small : checksumOffset < infoBlockBytes := by decide
    rw [unsealed, List.getElem?_append_right (by rw [length_header]; exact lower), length_header,
      List.getElem?_replicate, if_pos (by omega)]
  have front (index : Nat) (upper : index < 120) : info.unsealed[index]? = bytes[index]? := by
    rw [unsealed, List.getElem?_append_left (by rw [length_header]; exact upper), header_eq,
      List.getElem?_take_of_lt upper]
  constructor
  · intro same index lower upper
    have here : (info.unsealed.take checksumOffset)[index]? =
        (bytes.take checksumOffset)[index]? := by rw [same]
    rw [List.getElem?_take_of_lt upper, List.getElem?_take_of_lt upper,
      behind index lower upper] at here
    exact here.symm
  · intro zeros
    apply List.ext_getElem?
    intro index
    rw [List.getElem?_take, List.getElem?_take]
    split
    next upper =>
      by_cases lower : 120 ≤ index
      · rw [behind index lower upper, zeros index lower upper]
      · exact front index (Nat.lt_of_not_le lower)
    next => rfl

theorem toBytes_eq_iff (decoded : ofBytes bytes = .ok info) :
    info.toBytes = bytes ↔
      ∀ index, 120 ≤ index → index < checksumOffset → bytes[index]? = some 0 := by
  obtain ⟨signed, sealed, info_eq, -⟩ := ofBytes_ok decoded
  have field_inside : checksumOffset + Fletcher64.width = infoBlockBytes := by decide
  have header_eq : info.header = bytes.take 120 := by
    rw [info_eq]
    exact header_fields whole signed
  rw [← take_unsealed_eq_iff whole header_eq]
  constructor
  · intro same
    have taken : info.toBytes.take checksumOffset = info.unsealed.take checksumOffset :=
      Fletcher64.take_sealAt (Nat.le_of_eq (by rw [field_inside, length_unsealed]))
    rw [← taken, same]
  · intro same
    apply Fletcher64.sealAt_of_sealed (by decide) (by omega) _ same _ sealed
    · rw [length_unsealed, whole]
    · rw [field_inside, List.drop_of_length_le (by simp), List.drop_of_length_le (by omega)]

omit whole

/-- **Round trip.** An info block is read back from the bytes that store it if its version is 1.2
and its size 4096, whatever its other fields are, and is refused for its version, or else for its
size, if not. What is read from 4096 bytes is read again from the bytes that store it, and these are
the same just if the bytes from 120 up to the checksum are zero. -/
theorem codec_roundTrip :
    (∀ info : InfoBlock, ofBytes info.toBytes =
      if info.major ≠ 1 ∨ info.minor ≠ 2 then .error (.version info.major info.minor)
      else if info.infoSize ≠ 4096 then .error (.mismatch (.infoSize info.infoSize))
      else .ok info) ∧
    ∀ (bytes : List UInt8) (info : InfoBlock), bytes.length = 4096 → ofBytes bytes = .ok info →
      ofBytes info.toBytes = .ok info ∧
        (info.toBytes = bytes ↔
          ∀ index, 120 ≤ index → index < 4088 → bytes[index]? = some 0) := by
  constructor
  · intro info
    have size_iff : info.infoSize.toNat ≠ infoBlockBytes ↔ info.infoSize ≠ 4096 :=
      not_congr (@UInt32.toNat_inj info.infoSize 4096)
    rw [toBytes_eq_filled, info.ofBytes_filled info.fills_zeros]
    simp only [size_iff]
    rfl
  · intro bytes info whole decoded
    obtain ⟨-, -, -, major, minor, size⟩ := ofBytes_ok decoded
    exact ⟨info.ofBytes_toBytes major minor size, toBytes_eq_iff whole decoded⟩

def sample : InfoBlock where
  uuid := ⟨Vector.replicate 16 0xA5⟩
  parent := .nil
  flags := errorFlag
  major := 1
  minor := 2
  externalSize := 512
  external := 0xFFFFFFFF
  internalSize := 512
  internal := 8
  nfree := 1
  infoSize := 4096
  nextOffset := 0
  dataOffset := 12288
  mapOffset := 8192
  flogOffset := 4096
  infoOffset := 0xFFFFFFFFFFFFFFFF

/-- With other bytes than zeros behind the fields an info block is read just as well, and comes out
with zeros. -/
theorem codec_roundTrip_filled :
    let bytes := sample.filled (List.replicate 3976 0xFF)
    bytes.length = 4096 ∧ ofBytes bytes = .ok sample ∧ ofBytes sample.toBytes = .ok sample ∧
      sample.toBytes ≠ bytes := by
  intro bytes
  have fills : Fills (List.replicate 3976 0xFF) := by
    rw [Fills, List.length_replicate]
    rfl
  have whole : bytes.length = 4096 := sample.length_filled fills
  have decoded : ofBytes bytes = .ok sample := sample.ofBytes_filled fills
  obtain ⟨again, canonical⟩ := codec_roundTrip.2 bytes sample whole decoded
  refine ⟨whole, decoded, again, fun same => ?_⟩
  have filled : bytes[120]? = some 0xFF := by decide +kernel
  exact absurd (filled.symm.trans (canonical.mp same 120 (by decide) (by decide))) (by decide)

/-- **Damage is caught.** Bytes that are read as an info block are not read as one any more once some
of them are changed within two neighbouring words, wherever these are: in the signature, the
fields, the unused bytes, the checksum, or on both sides of where the checksum starts. -/
theorem damage_refused {bytes other : List UInt8} {info : InfoBlock}
    (accepted : ofBytes bytes = .ok info) (whole : bytes.length = 4096)
    (also : other.length = 4096) (index : Nat)
    (same : ∀ position, position < 4 * index ∨ 4 * index + 8 ≤ position →
      other[position]? = bytes[position]?) (differ : other ≠ bytes) :
    ∃ cause, ofBytes other = .error cause := by
  cases decoded : ofBytes other with
  | error cause => exact ⟨cause, rfl⟩
  | ok read =>
      obtain ⟨-, sealed, -⟩ := ofBytes_ok accepted
      obtain ⟨-, otherSealed, -⟩ := ofBytes_ok decoded
      have aligned : checksumOffset % 4 = 0 := by decide
      exact absurd (Fletcher64.sealed_eq_of_neighbours aligned whole also sealed otherSealed index
        same) differ

/-- The last word in front of the checksum and the first word of the checksum are changed so that the
low sum is right again. -/
theorem damage_refused_straddling :
    let bytes := sample.toBytes
    let other := (bytes.set 4084 1).set 4088 (bytes.getD 4088 0 + 1)
    ofBytes bytes = .ok sample ∧ bytes.length = 4096 ∧ other.length = 4096 ∧
      (∀ position, position < 4 * 1021 ∨ 4 * 1021 + 8 ≤ position →
        other[position]? = bytes[position]?) ∧ other ≠ bytes ∧
      ∃ cause, ofBytes other = .error cause := by
  intro bytes other
  have accepted : ofBytes bytes = .ok sample := sample.ofBytes_toBytes rfl rfl rfl
  have whole : bytes.length = 4096 := sample.length_toBytes
  have also : other.length = 4096 := by
    rw [List.length_set, List.length_set, whole]
  have same : ∀ position, position < 4 * 1021 ∨ 4 * 1021 + 8 ≤ position →
      other[position]? = bytes[position]? := by
    intro position outside
    rw [List.getElem?_set_ne (by omega), List.getElem?_set_ne (by omega)]
  have differ : other ≠ bytes := by
    intro equal
    have damaged : other[4084]? = some 1 := by
      rw [List.getElem?_set_ne (by decide), List.getElem?_set_self (by omega)]
    have unused : bytes[4084]? = some 0 := by decide +kernel
    rw [equal, unused] at damaged
    exact absurd damaged (by decide)
  exact ⟨accepted, whole, also, same, differ,
    damage_refused accepted whole also 1021 same differ⟩

end InfoBlock

end Remap.Block
