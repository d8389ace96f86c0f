import Mathlib.Algebra.BigOperators.Group.Finset.Basic
import Remap.Proofs.Bytes.Damage

/-!
# The totals behind a checksum

The low sum of a checksum is the total of the words. The high sum adds up the low sums, so it counts
the first of `count` words `count` times and each further word once less. A word that is skipped is
a word of zero bytes, and sealing touches no other word, so a sealed record is sealed by its own
checksum and sealing it again leaves it as it is.
-/

namespace Remap.Fletcher64

namespace Sums

theorem toNat_value (sums : Sums) :
    sums.value.toNat = sums.high.toNat * 2 ^ 32 + sums.low.toNat := by
  have low_lt := sums.low.toNat_lt
  have high_lt := sums.high.toNat_lt
  rw [value, UInt64.toNat_ofNat', UInt32.size]
  omega

theorem value_mod (sums : Sums) : sums.value.toNat % 2 ^ 32 = sums.low.toNat := by
  have low_lt := sums.low.toNat_lt
  rw [toNat_value]
  omega

theorem value_div (sums : Sums) : sums.value.toNat / 2 ^ 32 = sums.high.toNat := by
  have low_lt := sums.low.toNat_lt
  rw [toNat_value]
  omega

section Totals

variable (word : Nat → UInt32) (count : Nat)

def upTo : Sums := ((List.range count).map word).foldl add zero

theorem upTo_succ : upTo word (count + 1) = (upTo word count).add (word count) := by
  simp [upTo, List.range_succ]

theorem low_upTo : (upTo word count).low.toNat =
    (∑ index ∈ Finset.range count, (word index).toNat) % 2 ^ 32 := by
  induction count with
  | zero => rfl
  | succ count induction =>
      rw [upTo_succ, add, UInt32.toNat_add, induction, Finset.sum_range_succ, Nat.mod_add_mod]

/-- With one more word, every word so far counts once more. -/
theorem weighted_succ (value : Nat → Nat) :
    ∑ index ∈ Finset.range (count + 1), (count + 1 - index) * value index =
      (∑ index ∈ Finset.range count, (count - index) * value index) +
        ∑ index ∈ Finset.range (count + 1), value index := by
  have once_more : ∀ index ∈ Finset.range count,
      (count + 1 - index) * value index = (count - index) * value index + value index := by
    intro index member
    have before : index < count := Finset.mem_range.mp member
    rw [Nat.sub_add_comm (Nat.le_of_lt before), Nat.succ_mul]
  have newest : count + 1 - count = 1 := by omega
  rw [Finset.sum_range_succ, Finset.sum_congr rfl once_more, Finset.sum_add_distrib, newest,
    Nat.one_mul, Finset.sum_range_succ, Nat.add_assoc]

theorem high_upTo : (upTo word count).high.toNat =
    (∑ index ∈ Finset.range count, (count - index) * (word index).toNat) % 2 ^ 32 := by
  induction count with
  | zero => rfl
  | succ count induction =>
      have low : ((upTo word count).low + word count).toNat =
          (∑ index ∈ Finset.range (count + 1), (word index).toNat) % 2 ^ 32 := by
        rw [← low_upTo, upTo_succ, add]
      rw [upTo_succ, add, UInt32.toNat_add, induction, low, weighted_succ, ← Nat.add_mod]

end Totals

end Sums

def number (bytes : List UInt8) (index : Nat) : Nat := Bytes.number (4 * index) 4 bytes

variable {offset : Nat} {bytes other : List UInt8}

section Whole

theorem words_eq_map (bytes : List UInt8) :
    words bytes = (List.range (bytes.length / 4)).map fun index => .ofNat (number bytes index) := by
  apply List.ext_getElem?
  intro index
  rw [getElem?_words, List.getElem?_map]
  by_cases inside : index < bytes.length / 4
  · rw [if_pos (by omega), List.getElem?_range inside]
    rfl
  · rw [if_neg (by omega), List.getElem?_eq_none (by simpa using inside)]
    rfl

theorem checksum_eq (bytes : List UInt8) : checksum bytes =
    (Sums.upTo (fun index => .ofNat (number bytes index)) (bytes.length / 4)).value := by
  rw [checksum, ofWords, words_eq_map, Sums.upTo]

theorem toNat_number {index : Nat} (member : index ∈ Finset.range (bytes.length / 4)) :
    (UInt32.ofNat (number bytes index)).toNat = number bytes index := by
  have before : index < bytes.length / 4 := Finset.mem_range.mp member
  exact toNat_word (by omega)

theorem checksum_low (bytes : List UInt8) : (checksum bytes).toNat % 2 ^ 32 =
    (∑ index ∈ Finset.range (bytes.length / 4), number bytes index) % 2 ^ 32 := by
  rw [checksum_eq, Sums.value_mod, Sums.low_upTo]
  congr 1
  exact Finset.sum_congr rfl fun index member => toNat_number member

theorem checksum_high (bytes : List UInt8) : (checksum bytes).toNat / 2 ^ 32 =
    (∑ index ∈ Finset.range (bytes.length / 4),
      (bytes.length / 4 - index) * number bytes index) % 2 ^ 32 := by
  rw [checksum_eq, Sums.value_div, Sums.high_upTo]
  congr 1
  exact Finset.sum_congr rfl fun index member => by rw [toNat_number member]

theorem checksum_take (bytes : List UInt8) :
    checksum (bytes.take (4 * (bytes.length / 4))) = checksum bytes := by
  have whole : (bytes.take (4 * (bytes.length / 4))).length = 4 * (bytes.length / 4) := by
    rw [List.length_take]
    omega
  rw [checksum, checksum]
  congr 1
  apply List.ext_getElem?
  intro index
  rw [getElem?_words, getElem?_words, whole]
  by_cases inside : 4 * index + 4 ≤ bytes.length
  · have same : Bytes.slice (4 * index) 4 (bytes.take (4 * (bytes.length / 4))) =
        Bytes.slice (4 * index) 4 bytes := by
      rw [Bytes.slice, Bytes.slice, List.drop_take, List.take_take, Nat.min_eq_left (by omega)]
    rw [if_pos (by omega), if_pos inside, Bytes.number, same, Bytes.number]
  · rw [if_neg (by omega), if_neg inside]

end Whole

section Around

structure SameAround (offset : Nat) (bytes other : List UInt8) : Prop where
  length_eq : other.length = bytes.length
  outside : ∀ position, position < offset ∨ offset + width ≤ position →
    other[position]? = bytes[position]?

theorem SameAround.overwrite_slice (same : SameAround offset bytes other)
    (inside : offset + width ≤ bytes.length) :
    Bytes.overwrite offset (Bytes.slice offset width other) bytes = other := by
  have front : bytes.take offset = other.take offset := by
    apply List.ext_getElem?
    intro position
    rw [List.getElem?_take, List.getElem?_take]
    split
    next before => exact (same.outside position (.inl before)).symm
    next => rfl
  have back : bytes.drop (offset + width) = other.drop (offset + width) := by
    apply List.ext_getElem?
    intro skip
    rw [List.getElem?_drop, List.getElem?_drop]
    exact (same.outside _ (.inr (Nat.le_add_right _ _))).symm
  exact Bytes.overwrite_slice (by rw [same.length_eq]; exact inside) front back

theorem SameAround.overwrite {field : List UInt8} (wide : field.length = width)
    (inside : offset + width ≤ bytes.length) :
    SameAround offset bytes (Bytes.overwrite offset field bytes) where
  length_eq := Bytes.length_overwrite (by omega)
  outside := by
    intro position apart
    have front : (bytes.take offset ++ field).length = offset + width := by
      rw [List.length_append, List.length_take, wide]
      omega
    rw [Bytes.overwrite, wide]
    rcases apart with before | behind
    · rw [List.append_assoc, List.getElem?_append_left (by rw [List.length_take]; omega),
        List.getElem?_take_of_lt before]
    · rw [List.getElem?_append_right (by omega), front, List.getElem?_drop,
        Nat.add_sub_cancel' behind]

theorem SameAround.sealAt (inside : offset + width ≤ bytes.length) :
    SameAround offset bytes (sealAt offset bytes) :=
  .overwrite (LittleEndian.length_encode _ _) inside

end Around

section Field

variable (aligned : offset % 4 = 0) (inside : offset + width ≤ bytes.length)

include aligned inside

theorem SameAround.checksumWithout_eq (same : SameAround offset bytes other) :
    checksumWithout offset other = checksumWithout offset bytes := by
  have wide : (Bytes.slice offset width other).length = width :=
    Bytes.length_slice (by rw [same.length_eq]; exact inside)
  rw [← same.overwrite_slice inside, checksumWithout_overwrite aligned wide inside]

theorem checksumWithout_of_zeroed
    (zeroed : Bytes.slice offset width bytes = List.replicate width 0) :
    checksumWithout offset bytes = checksum bytes := by
  rw [checksumWithout, checksum]
  congr 1
  apply List.ext_getElem?
  intro index
  rw [List.getElem?_mapIdx, getElem?_words]
  by_cases skipped : offset ≤ 4 * index ∧ 4 * index < offset + width
  · have place : 4 * index = offset + (4 * index - offset) := by omega
    -- both the word and the field are aligned, so the field has the whole word
    have within : 4 * index - offset + 4 ≤ width := by
      rw [width] at *
      omega
    have word : Bytes.number (4 * index) 4 bytes = 0 := by
      rw [Bytes.number, place, ← Bytes.slice_slice within, zeroed, Bytes.slice,
        List.drop_replicate, List.take_replicate, Nat.min_eq_left (by omega)]
      rfl
    rw [if_pos (by omega), Option.map_some, if_pos skipped, word]
    rfl
  · simp only [if_neg skipped, Option.map_id']

/-- The checksum skips the field as if its bytes were zero. -/
theorem checksumWithout_eq_zeroed : checksumWithout offset bytes =
    checksum (Bytes.overwrite offset (List.replicate width 0) bytes) := by
  have wide : (List.replicate width (0 : UInt8)).length = width := List.length_replicate
  have length_eq : (Bytes.overwrite offset (List.replicate width 0) bytes).length = bytes.length :=
    Bytes.length_overwrite (by rw [wide]; exact inside)
  have zeroed : Bytes.slice offset width (Bytes.overwrite offset (List.replicate width 0) bytes) =
      List.replicate width 0 := by
    have same := @Bytes.slice_overwrite_same offset (List.replicate width 0) bytes
      (by rw [wide]; exact inside)
    rwa [wide] at same
  rw [← checksumWithout_of_zeroed aligned (by rw [length_eq]; exact inside) zeroed,
    checksumWithout_overwrite aligned wide inside]

theorem isSealed_sealAt : isSealed offset (sealAt offset bytes) = true := by
  rw [isSealed, beq_iff_eq]
  exact stored_sealAt aligned inside

theorem sealAt_sealAt : sealAt offset (sealAt offset bytes) = sealAt offset bytes := by
  apply sealAt_of_sealed aligned _ rfl rfl rfl (stored_sealAt aligned inside)
  rw [length_sealAt inside]
  exact inside

end Field

/-- **Checksums.** The low half is the total of the whole words; in the high half each word counts as
often as there are words from it on. Both are modulo 2 ^ 32, and bytes behind the last whole word do
not count. If a field inside the record is aligned, the checksum without it is that of the record
with zeros in the field, whatever the field holds. Sealing changes the field only, makes a sealed
record, and leaves a sealed record as it is. -/
theorem checksum_closed_form (bytes : List UInt8) :
    (checksum bytes).toNat % 2 ^ 32 =
        (∑ index ∈ Finset.range (bytes.length / 4), number bytes index) % 2 ^ 32 ∧
      (checksum bytes).toNat / 2 ^ 32 =
        (∑ index ∈ Finset.range (bytes.length / 4),
          (bytes.length / 4 - index) * number bytes index) % 2 ^ 32 ∧
      checksum (bytes.take (4 * (bytes.length / 4))) = checksum bytes ∧
      ∀ offset, offset % 4 = 0 → offset + width ≤ bytes.length →
        checksumWithout offset bytes =
            checksum (Bytes.overwrite offset (List.replicate width 0) bytes) ∧
          (∀ other, SameAround offset bytes other →
            checksumWithout offset other = checksumWithout offset bytes) ∧
          SameAround offset bytes (sealAt offset bytes) ∧
          isSealed offset (sealAt offset bytes) = true ∧
          sealAt offset (sealAt offset bytes) = sealAt offset bytes := by
  refine ⟨checksum_low bytes, checksum_high bytes, checksum_take bytes, ?_⟩
  intro offset aligned inside
  exact ⟨checksumWithout_eq_zeroed aligned inside,
    fun other same => same.checksumWithout_eq aligned inside,
    .sealAt inside, isSealed_sealAt aligned inside, sealAt_sealAt aligned inside⟩

/-- Four words that overflow the low sum, and one byte that does not count. -/
theorem checksum_closed_form_overflow :
    sealAt 4 [255, 255, 255, 255, 1, 2, 3, 4, 5, 6, 7, 8, 2, 0, 0, 0, 9] =
        [255, 255, 255, 255, 1, 0, 0, 0, 254, 255, 255, 255, 2, 0, 0, 0, 9] ∧
      isSealed 4 [255, 255, 255, 255, 1, 0, 0, 0, 254, 255, 255, 255, 2, 0, 0, 0, 9] = true ∧
      sealAt 4 [255, 255, 255, 255, 1, 0, 0, 0, 254, 255, 255, 255, 2, 0, 0, 0, 9] =
        [255, 255, 255, 255, 1, 0, 0, 0, 254, 255, 255, 255, 2, 0, 0, 0, 9] := by
  have written : sealAt 4 [255, 255, 255, 255, 1, 2, 3, 4, 5, 6, 7, 8, 2, 0, 0, 0, 9] =
      [255, 255, 255, 255, 1, 0, 0, 0, 254, 255, 255, 255, 2, 0, 0, 0, 9] := by decide
  have ⟨_, _, _, field⟩ :=
    checksum_closed_form [255, 255, 255, 255, 1, 2, 3, 4, 5, 6, 7, 8, 2, 0, 0, 0, 9]
  have ⟨_, _, _, valid, again⟩ := field 4 (by decide) (by decide)
  rw [written] at valid again
  exact ⟨written, valid, again⟩

end Remap.Fletcher64
