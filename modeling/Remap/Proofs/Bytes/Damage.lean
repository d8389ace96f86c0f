import Remap.Proofs.Bytes.Sealing

/-!
# Damage to sealed records

The checksum of a sealed record changes with any two neighbouring words of the record. In the low sum
two changes may cancel, but the high sum counts the earlier word once more than the later one. The
word in front of the checksum and the first word of the checksum may change together too: the
low sum then follows along, and the high sum, which counts the word three times, does not.
-/

namespace Remap.Fletcher64

namespace Sums

theorem value_inj {left right : Sums} (same : left.value = right.value) : left = right := by
  obtain ⟨leftLow, leftHigh⟩ := left
  obtain ⟨rightLow, rightHigh⟩ := right
  have leftLow_lt := leftLow.toNat_lt
  have leftHigh_lt := leftHigh.toNat_lt
  have rightLow_lt := rightLow.toNat_lt
  have rightHigh_lt := rightHigh.toNat_lt
  have numbers := congrArg UInt64.toNat same
  simp only [value, UInt64.toNat_ofNat', UInt32.size] at numbers
  rw [Nat.mod_eq_of_lt (by omega), Nat.mod_eq_of_lt (by omega)] at numbers
  rw [mk.injEq, ← UInt32.toNat_inj, ← UInt32.toNat_inj]
  omega

def close (sums : Sums) : Sums := (sums.add 0).add 0

theorem add_inj {left right : Sums} {word : UInt32} (same : left.add word = right.add word) :
    left = right := by
  obtain ⟨leftLow, leftHigh⟩ := left
  obtain ⟨rightLow, rightHigh⟩ := right
  simp only [add, mk.injEq] at same ⊢
  grind

theorem close_inj {left right : Sums} (same : left.close = right.close) : left = right :=
  add_inj (add_inj same)

theorem foldl_inj {left right : Sums} {values : List UInt32}
    (same : values.foldl add left = values.foldl add right) : left = right := by
  induction values generalizing left right with
  | nil => exact same
  | cons word rest induction => exact add_inj (induction same)

theorem add_add_inj {sums : Sums} {first second otherFirst otherSecond : UInt32}
    (same : (sums.add first).add second = (sums.add otherFirst).add otherSecond) :
    first = otherFirst ∧ second = otherSecond := by
  simp only [add, mk.injEq] at same
  grind

/-- The last word in front of the checksum is determined by the high sum. -/
theorem close_add_inj {sums : Sums} {first other : UInt32}
    (same : (sums.add first).close.high = (sums.add other).close.high) : first = other := by
  simp only [close, add] at same
  grind

end Sums

section Words

variable {left right : List UInt32} {start leftEnd rightEnd : Sums} {index : Nat}

/-- Words in front of their checksum, and the same with two neighbours changed, are the same words
if both checksums are right. -/
theorem words_eq_of_neighbours (length_eq : left.length = right.length)
    (leftClosed : (left.foldl Sums.add start).close = leftEnd)
    (rightClosed : (right.foldl Sums.add start).close = rightEnd)
    (same : ∀ place, place ≠ index → place ≠ index + 1 →
      (left ++ [leftEnd.low, leftEnd.high])[place]? =
        (right ++ [rightEnd.low, rightEnd.high])[place]?) :
    left = right := by
  induction left generalizing right index start with
  | nil => exact (List.length_eq_zero_iff.mp length_eq.symm).symm
  | cons first left induction =>
      obtain ⟨other, right, rfl⟩ := List.exists_cons_of_length_eq_add_one length_eq.symm
      have shorter : left.length = right.length := Nat.succ.inj length_eq
      cases index with
      | succ index =>
          have head : first = other := by
            simpa using same 0 (by omega) (by omega)
          subst head
          have behind : ∀ place, place ≠ index → place ≠ index + 1 →
              (left ++ [leftEnd.low, leftEnd.high])[place]? =
                (right ++ [rightEnd.low, rightEnd.high])[place]? := by
            intro place apart behind
            simpa using same (place + 1) (by omega) (by omega)
          rw [induction shorter leftClosed rightClosed behind]
      | zero =>
          cases left with
          | nil =>
              -- the change reaches into the low sum; the high sum is the same and decides the word
              obtain rfl : right = [] := List.length_eq_zero_iff.mp shorter.symm
              have high : leftEnd.high = rightEnd.high := by
                simpa using same 2 (by omega) (by omega)
              rw [← leftClosed, ← rightClosed] at high
              rw [Sums.close_add_inj high]
          | cons second left =>
              -- both sums are the same, so the sums in front of the equal rest are, too
              obtain ⟨more, right, rfl⟩ := List.exists_cons_of_length_eq_add_one shorter.symm
              have rest : left ++ [leftEnd.low, leftEnd.high] =
                  right ++ [rightEnd.low, rightEnd.high] := by
                apply List.ext_getElem?
                intro place
                simpa using same (place + 2) (by omega) (by omega)
              obtain ⟨rfl, ends⟩ := List.append_inj rest (by simpa using shorter)
              have end_eq : leftEnd = rightEnd := by
                cases leftEnd
                cases rightEnd
                simpa using ends
              rw [List.foldl_cons, List.foldl_cons] at leftClosed rightClosed
              have closed := leftClosed.trans (end_eq.trans rightClosed.symm)
              obtain ⟨rfl, rfl⟩ := Sums.add_add_inj (Sums.foldl_inj (Sums.close_inj closed))
              rfl

end Words

section Records

variable {offset : Nat} {bytes other : List UInt8}

def field (offset : Nat) (bytes : List UInt8) : Sums :=
  ⟨.ofNat (Bytes.number offset 4 bytes), .ofNat (Bytes.number (offset + 4) 4 bytes)⟩

theorem toNat_word (inside : offset + 4 ≤ bytes.length) :
    (UInt32.ofNat (Bytes.number offset 4 bytes)).toNat = Bytes.number offset 4 bytes :=
  UInt32.toNat_ofNat_of_lt' (Bytes.number_lt inside)

theorem stored_eq (inside : offset + width ≤ bytes.length) :
    stored offset bytes = (field offset bytes).value := by
  rw [width] at inside
  have join : Bytes.number offset width bytes =
      Bytes.number offset 4 bytes + Bytes.number (offset + 4) 4 bytes * UInt32.size :=
    Bytes.number_join (by omega) 4
  simp only [stored, Sums.value, field]
  rw [toNat_word (by omega), toNat_word (by omega), join, Nat.add_comm]

theorem length_words (bytes : List UInt8) : (words bytes).length = bytes.length / 4 := by
  apply Nat.le_antisymm
  · rw [← List.getElem?_eq_none_iff, getElem?_words, if_neg (by omega)]
  · rw [← Nat.not_lt]
    intro fewer
    have beyond : (words bytes)[(words bytes).length]? = none := List.getElem?_eq_none (Nat.le_refl _)
    rw [getElem?_words, if_pos (by omega)] at beyond
    cases beyond

theorem words_inj (length_eq : other.length = bytes.length) (whole : bytes.length % 4 = 0)
    (same : words other = words bytes) : other = bytes := by
  apply List.ext_getElem?
  intro position
  by_cases inside : position < bytes.length
  · have room : 4 * (position / 4) + 4 ≤ bytes.length := by omega
    have also : 4 * (position / 4) + 4 ≤ other.length := by omega
    have word : (words other)[position / 4]? = (words bytes)[position / 4]? := by rw [same]
    rw [getElem?_words, getElem?_words, if_pos room, if_pos also, Option.some_inj,
      ← UInt32.toNat_inj, toNat_word room, toNat_word also] at word
    have slice : Bytes.slice (4 * (position / 4)) 4 other =
        Bytes.slice (4 * (position / 4)) 4 bytes := by
      rw [← Bytes.encode_number also, word, Bytes.encode_number room]
    have byte : (Bytes.slice (4 * (position / 4)) 4 other)[position % 4]? =
        (Bytes.slice (4 * (position / 4)) 4 bytes)[position % 4]? := by rw [slice]
    have small : position % 4 < 4 := Nat.mod_lt position (by decide)
    simpa [Bytes.slice, List.getElem?_take_of_lt small, Nat.div_add_mod] using byte
  · rw [List.getElem?_eq_none (by omega), List.getElem?_eq_none (by omega)]

section Last

variable (aligned : offset % 4 = 0) (whole : bytes.length = offset + width)

include aligned whole

theorem words_last : words bytes = (words bytes).take (offset / 4) ++
    [(field offset bytes).low, (field offset bytes).high] := by
  have count : (words bytes).length = offset / 4 + 2 := by
    rw [length_words, whole, width]
    omega
  have low : (words bytes)[offset / 4]? = some (field offset bytes).low := by
    rw [getElem?_words, whole, width, if_pos (by omega), field]
    congr 3
    omega
  have high : (words bytes)[offset / 4 + 1]? = some (field offset bytes).high := by
    rw [getElem?_words, whole, width, if_pos (by omega), field]
    congr 3
    omega
  obtain ⟨first, low_eq⟩ := List.getElem?_eq_some_iff.mp low
  obtain ⟨second, high_eq⟩ := List.getElem?_eq_some_iff.mp high
  have tail : (words bytes).drop (offset / 4) =
      [(field offset bytes).low, (field offset bytes).high] := by
    rw [List.drop_eq_getElem_cons first, List.drop_eq_getElem_cons second, low_eq, high_eq,
      List.drop_of_length_le (by omega)]
  rw [← tail, List.take_append_drop]

theorem checksumWithout_last : checksumWithout offset bytes =
    (((words bytes).take (offset / 4)).foldl Sums.add Sums.zero).close.value := by
  have count : ((words bytes).take (offset / 4)).length = offset / 4 := by
    rw [List.length_take, length_words, whole, width]
    omega
  have masked : ((words bytes).mapIdx fun index word =>
      if offset ≤ 4 * index ∧ 4 * index < offset + width then 0 else word) =
        (words bytes).take (offset / 4) ++ [0, 0] := by
    rw [words_last aligned whole, List.mapIdx_append, count, List.take_append_of_le_length
      (Nat.le_of_eq count.symm), List.take_take, Nat.min_self]
    congr 1
    · apply List.ext_getElem?
      intro place
      rw [List.getElem?_mapIdx]
      by_cases inside : place < offset / 4
      · have before : ¬ (offset ≤ 4 * place ∧ 4 * place < offset + width) := by omega
        simp only [if_neg before, Option.map_id']
      · rw [List.getElem?_eq_none (by omega)]
        rfl
    · have first : offset ≤ 4 * (0 + offset / 4) ∧ 4 * (0 + offset / 4) < offset + width := by
        rw [width]
        omega
      have second : offset ≤ 4 * (0 + 1 + offset / 4) ∧
          4 * (0 + 1 + offset / 4) < offset + width := by
        rw [width]
        omega
      rw [List.mapIdx_cons, List.mapIdx_cons, List.mapIdx_nil, if_pos first, if_pos second]
  rw [checksumWithout, masked, ofWords, List.foldl_append]
  rfl

theorem sealed_last (sealed : stored offset bytes = checksumWithout offset bytes) :
    (((words bytes).take (offset / 4)).foldl Sums.add Sums.zero).close = field offset bytes := by
  rw [stored_eq (Nat.le_of_eq whole.symm), checksumWithout_last aligned whole] at sealed
  exact (Sums.value_inj sealed).symm

end Last

/-- A sealed record that ends with its checksum is the only one among those that differ from it in
two neighbouring words at most. -/
theorem sealed_eq_of_neighbours (aligned : offset % 4 = 0) (whole : bytes.length = offset + width)
    (also : other.length = offset + width)
    (sealed : stored offset bytes = checksumWithout offset bytes)
    (otherSealed : stored offset other = checksumWithout offset other) (index : Nat)
    (same : ∀ position, position < 4 * index ∨ 4 * index + 8 ≤ position →
      other[position]? = bytes[position]?) : other = bytes := by
  have length_eq : other.length = bytes.length := also.trans whole.symm
  have outside : ∀ place, place ≠ index → place ≠ index + 1 →
      (words other)[place]? = (words bytes)[place]? := by
    intro place apart behind
    have slice : Bytes.slice (4 * place) 4 other = Bytes.slice (4 * place) 4 bytes := by
      apply List.ext_getElem?
      intro skip
      simp only [Bytes.slice, List.getElem?_take, List.getElem?_drop]
      split
      next within => exact same _ (by omega)
      next => rfl
    rw [getElem?_words, getElem?_words, length_eq, Bytes.number, Bytes.number, slice]
  have front : (words other).take (offset / 4) = (words bytes).take (offset / 4) := by
    apply words_eq_of_neighbours _ (sealed_last aligned also otherSealed)
      (sealed_last aligned whole sealed)
    · rw [← words_last aligned also, ← words_last aligned whole]
      exact outside
    · rw [List.length_take, List.length_take, length_words, length_words, length_eq]
  have field_eq : field offset other = field offset bytes := by
    rw [← sealed_last aligned also otherSealed, front, sealed_last aligned whole sealed]
  apply words_inj length_eq (by rw [whole, width]; omega)
  rw [words_last aligned also, words_last aligned whole, front, field_eq]

end Records

end Remap.Fletcher64
