import Remap.Bytes.LittleEndian

/-!
# Slices of written bytes

A field that was written is read back from its place, and writing a field leaves all
bytes apart from it.
-/

namespace Remap.LittleEndian

theorem decode_append (front back : List UInt8) :
    decode (front ++ back) = decode front + decode back * 1 <<< (8 * front.length) := by
  induction front with
  | nil => simp [decode]
  | cons byte rest induction =>
      simp only [List.cons_append, decode, induction, List.length_cons, shift_succ]
      rw [Nat.mul_add, ← Nat.add_assoc, Nat.mul_left_comm]

end Remap.LittleEndian

namespace Remap.Bytes

variable {offset width : Nat} {field bytes : List UInt8}

theorem slice_overwrite_same (inside : offset + field.length ≤ bytes.length) :
    slice offset field.length (overwrite offset field bytes) = field := by
  have start : (bytes.take offset).length = offset := by
    rw [List.length_take]
    omega
  rw [slice, overwrite, List.append_assoc, List.drop_append, start, Nat.sub_self, List.drop_zero,
    List.drop_eq_nil_of_le (by omega), List.nil_append, List.take_left]

theorem slice_overwrite_before {start : Nat} (inside : start ≤ bytes.length)
    (before : offset + width ≤ start) :
    slice offset width (overwrite start field bytes) = slice offset width bytes := by
  apply List.ext_getElem?
  intro index
  simp only [slice, List.getElem?_take, List.getElem?_drop, overwrite]
  split
  next within =>
    rw [List.append_assoc, List.getElem?_append_left (by simp; omega),
      List.getElem?_take_of_lt (by omega)]
  next => rfl

theorem slice_overwrite_after {start : Nat} (inside : start + field.length ≤ bytes.length)
    (after : start + field.length ≤ offset) :
    slice offset width (overwrite start field bytes) = slice offset width bytes := by
  have front : (bytes.take start ++ field).length = start + field.length := by
    rw [List.length_append, List.length_take]
    omega
  apply List.ext_getElem?
  intro index
  simp only [slice, List.getElem?_take, List.getElem?_drop, overwrite]
  split
  next within =>
    rw [List.getElem?_append_right (by omega), front, List.getElem?_drop]
    congr 1
    omega
  next => rfl

theorem slice_slice {skip room : Nat} (inside : skip + width ≤ room) :
    slice skip width (slice offset room bytes) = slice (offset + skip) width bytes := by
  rw [slice, slice, slice, List.drop_take, List.take_take, List.drop_drop,
    Nat.min_eq_left (by omega)]

theorem slice_join {start more : Nat} (adjoin : offset + width = start) :
    slice offset width bytes ++ slice start more bytes = slice offset (width + more) bytes := by
  subst adjoin
  rw [slice, slice, slice, List.take_add, List.drop_drop]

theorem slice_append_left {front back : List UInt8} (inside : offset + width ≤ front.length) :
    slice offset width (front ++ back) = slice offset width front := by
  apply List.ext_getElem?
  intro index
  simp only [slice, List.getElem?_take, List.getElem?_drop]
  split
  next within => rw [List.getElem?_append_left (by omega)]
  next => rfl

theorem slice_flatten (pieces : List (List UInt8)) (index : Nat) (inside : index < pieces.length) :
    slice (pieces.take index).flatten.length pieces[index].length pieces.flatten =
      pieces[index] := by
  induction pieces generalizing index with
  | nil => simp at inside
  | cons piece rest induction =>
      cases index with
      | zero => simp [slice]
      | succ index =>
          have smaller : index < rest.length := by simpa using inside
          rw [List.take_succ_cons, List.flatten_cons, List.length_append, List.getElem_cons_succ,
            List.flatten_cons, slice, List.drop_append, List.drop_eq_nil_of_le (by omega),
            List.nil_append, Nat.add_sub_cancel_left]
          exact induction index smaller

section Number

variable (inside : offset + width ≤ bytes.length)

include inside

theorem length_slice : (slice offset width bytes).length = width := by
  rw [slice, List.length_take, List.length_drop]
  omega

theorem number_lt : number offset width bytes < 1 <<< (8 * width) := by
  have small := LittleEndian.decode_lt (slice offset width bytes)
  rwa [length_slice inside] at small

theorem encode_number :
    LittleEndian.encode width (number offset width bytes) = slice offset width bytes := by
  have whole := LittleEndian.encode_decode (slice offset width bytes)
  rwa [length_slice inside] at whole

/-- Writing the field of a record over the same field of one with the same bytes around it gives
the record. -/
theorem overwrite_slice {other : List UInt8} (front : other.take offset = bytes.take offset)
    (back : other.drop (offset + width) = bytes.drop (offset + width)) :
    overwrite offset (slice offset width bytes) other = bytes := by
  rw [overwrite, length_slice inside, front, back, slice, ← List.drop_drop, List.append_assoc,
    List.take_append_drop, List.take_append_drop]

theorem number_join (more : Nat) :
    number offset (width + more) bytes =
      number offset width bytes + number (offset + width) more bytes * 1 <<< (8 * width) := by
  rw [number, ← slice_join rfl, LittleEndian.decode_append, length_slice inside]
  rfl

end Number

end Remap.Bytes
