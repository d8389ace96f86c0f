import Remap.Bytes.Fletcher64
import Remap.Proofs.Bytes.Slices

/-!
# Sealing

The checksum of a record skips the field that stores it, so it does not depend on what is
stored there. Hence a record is sealed once its checksum was stored.
-/

namespace Remap.Fletcher64

theorem getElem?_words (bytes : List UInt8) (index : Nat) :
    (words bytes)[index]? =
      if 4 * index + 4 ≤ bytes.length then
        some (UInt32.ofNat (Bytes.number (4 * index) 4 bytes))
      else none := by
  fun_induction words bytes generalizing index with
  | case1 first second third fourth rest induction =>
      cases index with
      | zero => simp [Bytes.number, Bytes.slice]
      | succ index =>
          have room : 4 * (index + 1) + 4 ≤ (first :: second :: third :: fourth :: rest).length ↔
              4 * index + 4 ≤ rest.length := by
            simp only [List.length_cons]
            omega
          have shifted : Bytes.number (4 * (index + 1)) 4
              (first :: second :: third :: fourth :: rest) = Bytes.number (4 * index) 4 rest := by
            have position : 4 * (index + 1) = 4 * index + 1 + 1 + 1 + 1 := by omega
            simp only [position, Bytes.number, Bytes.slice, List.drop_succ_cons]
          rw [List.getElem?_cons_succ, induction]
          simp only [room, shifted]
  | case2 bytes short =>
      have few : bytes.length < 4 := by
        rcases bytes with _ | ⟨first, _ | ⟨second, _ | ⟨third, _ | ⟨fourth, rest⟩⟩⟩⟩ <;>
          first
            | exact absurd rfl (short first second third fourth rest)
            | simp
      rw [if_neg (by omega)]
      rfl

variable {offset : Nat} {bytes field : List UInt8}

/-- The field at `offset` has no part in the checksum. -/
theorem checksumWithout_overwrite (aligned : offset % 4 = 0) (wide : field.length = width)
    (inside : offset + width ≤ bytes.length) :
    checksumWithout offset (Bytes.overwrite offset field bytes) = checksumWithout offset bytes := by
  have sameLength : (Bytes.overwrite offset field bytes).length = bytes.length :=
    Bytes.length_overwrite (by omega)
  rw [checksumWithout]
  congr 1
  apply List.ext_getElem?
  intro index
  simp only [List.getElem?_mapIdx, getElem?_words, sameLength]
  by_cases skipped : offset ≤ 4 * index ∧ 4 * index < offset + width
  · simp only [if_pos skipped]
    split <;> rfl
  · have sameWord : Bytes.number (4 * index) 4 (Bytes.overwrite offset field bytes) =
        Bytes.number (4 * index) 4 bytes := by
      rw [Bytes.number]
      congr 1
      by_cases before : 4 * index + 4 ≤ offset
      · exact Bytes.slice_overwrite_before (by omega) before
      · exact Bytes.slice_overwrite_after (by omega) (by simp only [width] at *; omega)
    rw [sameWord]

theorem stored_overwrite (value : UInt64) (inside : offset + width ≤ bytes.length) :
    stored offset (Bytes.overwrite offset (LittleEndian.encode width value.toNat) bytes) =
      value := by
  have field_length : (LittleEndian.encode width value.toNat).length = width := by simp
  have read : Bytes.slice offset (LittleEndian.encode width value.toNat).length
      (Bytes.overwrite offset (LittleEndian.encode width value.toNat) bytes) =
      LittleEndian.encode width value.toNat :=
    Bytes.slice_overwrite_same (by simpa using inside)
  rw [field_length] at read
  rw [stored, Bytes.number, read, LittleEndian.decode_encode]
  apply UInt64.toNat_inj.mp
  have small : value.toNat % 1 <<< (8 * width) = value.toNat := Nat.mod_eq_of_lt value.toNat_lt
  rw [UInt64.toNat_ofNat', small]
  exact Nat.mod_eq_of_lt value.toNat_lt

theorem stored_sealAt (aligned : offset % 4 = 0) (inside : offset + width ≤ bytes.length) :
    stored offset (sealAt offset bytes) = checksumWithout offset (sealAt offset bytes) := by
  rw [sealAt, stored_overwrite _ inside, checksumWithout_overwrite aligned (by simp) inside]

theorem take_sealAt (inside : offset + width ≤ bytes.length) :
    (sealAt offset bytes).take offset = bytes.take offset := by
  have front : (bytes.take offset).length = offset := by
    rw [List.length_take]
    omega
  rw [sealAt, Bytes.overwrite, List.append_assoc, List.take_append_of_le_length (by omega),
    List.take_take, Nat.min_self]

theorem sealAt_of_sealed {other : List UInt8} (aligned : offset % 4 = 0)
    (inside : offset + width ≤ bytes.length) (length_eq : other.length = bytes.length)
    (front : other.take offset = bytes.take offset)
    (back : other.drop (offset + width) = bytes.drop (offset + width))
    (sealed : stored offset bytes = checksumWithout offset bytes) : sealAt offset other = bytes := by
  have wide : (Bytes.slice offset width bytes).length = width := Bytes.length_slice inside
  have whole : Bytes.overwrite offset (Bytes.slice offset width bytes) other = bytes :=
    Bytes.overwrite_slice inside front back
  have same : checksumWithout offset other = checksumWithout offset bytes := by
    rw [← @checksumWithout_overwrite offset other _ aligned wide (by omega), whole]
  rw [sealAt, same, ← sealed, stored, UInt64.toNat_ofNat_of_lt' (Bytes.number_lt inside),
    Bytes.encode_number inside, whole]

end Remap.Fletcher64
