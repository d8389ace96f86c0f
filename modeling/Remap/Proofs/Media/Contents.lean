import Remap.Bytes.LittleEndian

/-!
# Contents of a media

What a media holds is a function from offsets to bytes, whichever media it is. Stores
and loads of ranges obey the laws of an array. Rewriting a line with one field replaced
stores just that field.
-/

namespace Remap.Media

abbrev Contents := Nat → UInt8

namespace Contents

def load (contents : Contents) (offset length : Nat) : List UInt8 :=
  (List.range' offset length).map contents

def store (contents : Contents) (offset : Nat) (bytes : List UInt8) : Contents :=
  fun position =>
    if offset ≤ position then bytes[position - offset]?.getD (contents position)
    else contents position

def AgreeOn (left right : Contents) (start stop : Nat) : Prop :=
  ∀ position, start ≤ position → position < stop → left position = right position

def AgreeOutside (left right : Contents) (start stop : Nat) : Prop :=
  ∀ position, position < start ∨ stop ≤ position → left position = right position

variable {contents left right : Contents} {offset length start stop : Nat}
  {bytes : List UInt8}

@[simp] theorem length_load : (contents.load offset length).length = length := by
  simp [load]

theorem getElem?_load (index : Nat) :
    (contents.load offset length)[index]? =
      if index < length then some (contents (offset + index)) else none := by
  by_cases inside : index < length <;> simp [load, inside]

theorem load_congr (agree : left.AgreeOn right start stop)
    (lower : start ≤ offset) (upper : offset + length ≤ stop) :
    left.load offset length = right.load offset length := by
  apply List.ext_getElem?
  intro index
  rw [getElem?_load, getElem?_load]
  split
  next inside => rw [agree (offset + index) (by omega) (by omega)]
  next => rfl

theorem store_inside {position : Nat} (lower : offset ≤ position)
    (inside : position - offset < bytes.length) :
    contents.store offset bytes position = bytes[position - offset] := by
  simp [store, lower, inside]

theorem store_outside {position : Nat}
    (outside : position < offset ∨ offset + bytes.length ≤ position) :
    contents.store offset bytes position = contents position := by
  rcases outside with before | after
  · simp [store, Nat.not_le.mpr before]
  · have none : bytes[position - offset]? = none := List.getElem?_eq_none (by omega)
    simp [store, none]

theorem store_agreeOutside (lower : start ≤ offset) (upper : offset + bytes.length ≤ stop) :
    (contents.store offset bytes).AgreeOutside contents start stop := by
  intro position outside
  exact store_outside (by omega)

theorem load_store_apart {other : Nat}
    (apart : other + length ≤ offset ∨ offset + bytes.length ≤ other) :
    (contents.store offset bytes).load other length = contents.load other length := by
  have agree : (contents.store offset bytes).AgreeOn contents other (other + length) :=
    fun position lower upper => store_outside (by omega)
  exact load_congr agree (Nat.le_refl _) (Nat.le_refl _)

theorem load_store_within (skip : Nat) (inside : skip + length ≤ bytes.length) :
    (contents.store offset bytes).load (offset + skip) length = Bytes.slice skip length bytes := by
  apply List.ext_getElem?
  intro index
  rw [getElem?_load, Bytes.slice]
  by_cases within : index < length
  · rw [if_pos within, store_inside (by omega) (by omega), List.getElem?_take_of_lt within,
      List.getElem?_drop]
    have position : offset + skip + index - offset = skip + index := by omega
    simp only [position]
    rw [List.getElem?_eq_getElem (by omega)]
  · rw [if_neg within, List.getElem?_eq_none]
    simp only [List.length_take, List.length_drop]
    omega

theorem load_store_same : (contents.store offset bytes).load offset bytes.length = bytes := by
  have whole : (contents.store offset bytes).load (offset + 0) bytes.length =
      Bytes.slice 0 bytes.length bytes := load_store_within 0 (by omega)
  simpa [Bytes.slice] using whole

theorem slice_load {skip width : Nat} (inside : skip + width ≤ length) :
    Bytes.slice skip width (contents.load offset length) = contents.load (offset + skip) width := by
  apply List.ext_getElem?
  intro index
  rw [Bytes.slice, getElem?_load]
  by_cases within : index < width
  · rw [List.getElem?_take_of_lt within, List.getElem?_drop, getElem?_load,
      if_pos (by omega), if_pos within, Nat.add_assoc]
  · rw [if_neg within, List.getElem?_eq_none]
    simp only [List.length_take, List.length_drop, length_load]
    omega

theorem take_load {more : Nat} :
    (contents.load offset (length + more)).take length = contents.load offset length := by
  have read : Bytes.slice 0 length (contents.load offset (length + more)) =
      contents.load (offset + 0) length := slice_load (by omega)
  simpa [Bytes.slice] using read

theorem drop_load {more : Nat} :
    (contents.load offset (length + more)).drop length = contents.load (offset + length) more := by
  have read : Bytes.slice length more (contents.load offset (length + more)) =
      contents.load (offset + length) more := slice_load (Nat.le_refl _)
  rw [← read, Bytes.slice, List.take_of_length_le]
  simp

theorem chunks_load (width count : Nat) :
    Bytes.chunks width count (contents.load offset (count * width)) =
      (List.range count).map fun index => contents.load (offset + index * width) width := by
  induction count generalizing offset with
  | zero => rfl
  | succ count induction =>
      have total : (count + 1) * width = width + count * width := by
        rw [Nat.add_mul, Nat.one_mul, Nat.add_comm]
      rw [total, Bytes.chunks, take_load, drop_load, induction, List.range_succ_eq_map,
        List.map_cons, List.map_map, Nat.zero_mul, Nat.add_zero]
      congr 1
      apply List.map_congr_left
      intro index _
      rw [Function.comp, Nat.succ_mul, Nat.add_comm (index * width), Nat.add_assoc]

theorem store_load_self : contents.store offset (contents.load offset length) = contents := by
  funext position
  by_cases inside : offset ≤ position ∧ position - offset < length
  · rw [store_inside inside.1 (by rw [length_load]; exact inside.2), ← Option.some_inj,
      ← List.getElem?_eq_getElem, getElem?_load, if_pos inside.2]
    congr 2
    omega
  · rw [store_outside (by rw [length_load]; omega)]

theorem store_comm {other : Nat} {more : List UInt8}
    (apart : offset + bytes.length ≤ other ∨ other + more.length ≤ offset) :
    (contents.store offset bytes).store other more =
      (contents.store other more).store offset bytes := by
  funext position
  by_cases inside : offset ≤ position ∧ position - offset < bytes.length
  · rw [store_outside (by omega), store_inside inside.1 inside.2, store_inside inside.1 inside.2]
  · by_cases within : other ≤ position ∧ position - other < more.length
    · rw [store_inside within.1 within.2, store_outside (by omega),
        store_inside within.1 within.2]
    · rw [store_outside (by omega), store_outside (by omega), store_outside (by omega),
        store_outside (by omega)]

/-- Storing a loaded line with one field replaced is storing the field. -/
theorem store_overwrite_load {skip : Nat} {field : List UInt8}
    (inside : skip + field.length ≤ length) :
    contents.store offset (Bytes.overwrite skip field (contents.load offset length)) =
      contents.store (offset + skip) field := by
  have width : (Bytes.overwrite skip field (contents.load offset length)).length = length := by
    rw [Bytes.length_overwrite (by simpa using inside), length_load]
  funext position
  by_cases inLine : offset ≤ position ∧ position < offset + length
  · rw [store_inside inLine.1 (by omega)]
    rw [← Option.some_inj, ← List.getElem?_eq_getElem, Bytes.overwrite]
    by_cases before : position < offset + skip
    · rw [store_outside (.inl before), List.append_assoc,
        List.getElem?_append_left (by simp; omega),
        List.getElem?_take_of_lt (by omega), getElem?_load, if_pos (by omega)]
      congr 2
      omega
    · by_cases within : position < offset + skip + field.length
      · rw [store_inside (by omega) (by omega), List.append_assoc,
          List.getElem?_append_right (by simp; omega), List.getElem?_append_left (by simp; omega)]
        rw [List.getElem?_eq_getElem (by simp; omega)]
        congr 2
        simp
        omega
      · rw [store_outside (.inr (by omega)), List.getElem?_append_right (by simp; omega),
          List.getElem?_drop, getElem?_load]
        have position_eq : skip + field.length +
            (position - offset - (List.take skip (contents.load offset length) ++ field).length) =
            position - offset := by
          simp
          omega
        rw [position_eq, if_pos (by omega)]
        congr 2
        omega
  · rw [store_outside (by omega), store_outside (by omega)]

theorem AgreeOn.refl (contents : Contents) (start stop : Nat) :
    contents.AgreeOn contents start stop :=
  fun _ _ _ => rfl

theorem AgreeOn.symm (agree : left.AgreeOn right start stop) : right.AgreeOn left start stop :=
  fun position lower upper => (agree position lower upper).symm

theorem AgreeOn.store (agree : left.AgreeOn right start stop) (offset : Nat)
    (bytes : List UInt8) :
    (left.store offset bytes).AgreeOn (right.store offset bytes) start stop := by
  intro position lower upper
  by_cases inside : offset ≤ position ∧ position - offset < bytes.length
  · rw [store_inside inside.1 inside.2, store_inside inside.1 inside.2]
  · rw [store_outside (by omega), store_outside (by omega)]
    exact agree position lower upper

theorem AgreeOn.trans {middle : Contents} (first : left.AgreeOn middle start stop)
    (second : middle.AgreeOn right start stop) : left.AgreeOn right start stop :=
  fun position lower upper => (first position lower upper).trans (second position lower upper)

theorem AgreeOn.mono (agree : left.AgreeOn right start stop) {lower upper : Nat}
    (start_le : start ≤ lower) (upper_le : upper ≤ stop) : left.AgreeOn right lower upper :=
  fun position above below => agree position (by omega) (by omega)

theorem AgreeOutside.refl (contents : Contents) (start stop : Nat) :
    contents.AgreeOutside contents start stop :=
  fun _ _ => rfl

theorem AgreeOutside.trans {middle : Contents} (first : left.AgreeOutside middle start stop)
    (second : middle.AgreeOutside right start stop) : left.AgreeOutside right start stop :=
  fun position outside => (first position outside).trans (second position outside)

theorem AgreeOutside.agreeOn (agree : left.AgreeOutside right start stop) {lower upper : Nat}
    (apart : upper ≤ start ∨ stop ≤ lower) : left.AgreeOn right lower upper :=
  fun position above below => agree position (by omega)

theorem AgreeOutside.mono (agree : left.AgreeOutside right start stop) {lower upper : Nat}
    (lower_le : lower ≤ start) (le_upper : stop ≤ upper) :
    left.AgreeOutside right lower upper :=
  fun position outside => agree position (by omega)

end Contents

end Remap.Media
