import Remap.Media.Image.Basic

/-!
# Images as arrays of bytes

Main statements: an image reads as an array of bytes. `byteAt_store` says that a
store puts its bytes at their offsets and changes no other byte, wherever the page
borders are, and `getElem?_load` that a load yields the bytes at its offsets.
-/

namespace Remap.Media

namespace Page

theorem getElem_overlay (page : Page) (position : Nat) (bytes : List UInt8) {index : Nat}
    (inside : index < pageBytes) :
    (overlay page position bytes)[index] =
      if position ≤ index then bytes[index - position]?.getD page[index]
      else page[index] := by
  induction bytes generalizing page position with
  | nil => simp [overlay]
  | cons byte rest induction =>
      simp only [overlay, induction, Vector.getElem_setIfInBounds]
      rcases Nat.lt_trichotomy position index with before | same | after
      · have step : index - position = index - (position + 1) + 1 := by omega
        simp [show position + 1 ≤ index by omega, show position ≤ index by omega, step,
          show position ≠ index by omega]
      · simp [same, show ¬ index + 1 ≤ index by omega]
      · simp [show ¬ position + 1 ≤ index by omega, show ¬ position ≤ index by omega,
          show position ≠ index by omega]

end Page

namespace Image

@[simp] theorem size_storeInPage (image : Image) (offset count : Nat)
    (bytes : List UInt8) : (image.storeInPage offset count bytes).size = image.size := by
  rw [storeInPage]
  split <;> rfl

@[simp] theorem size_store (image : Image) (offset : Nat) (bytes : List UInt8) :
    (image.store offset bytes).size = image.size := by
  fun_induction store image offset bytes with
  | case1 => rfl
  | case2 image offset first rest room bytes induction => rw [induction, size_storeInPage]

@[simp] theorem byteAt_blank (size offset : Nat) : (blank size).byteAt offset = 0 := by
  simp [byteAt, blank, page, Page.blank]

theorem page_storeInPage (image : Image) (offset count : Nat) (bytes : List UInt8)
    (index : Nat) :
    (image.storeInPage offset count bytes).page index =
      if index = offset / pageBytes then
        Page.overlay (image.page index) (offset % pageBytes) (bytes.take count)
      else image.page index := by
  rw [storeInPage]
  split
  next unchanged =>
    obtain ⟨absent, zeros⟩ := unchanged
    rw [Page.startsBlank_eq] at zeros
    split
    next same =>
      subst same
      have blank : image.page (offset / pageBytes) = Page.blank := by
        simp [page, Std.HashMap.getD_eq_fallback absent]
      rw [blank]
      apply Vector.ext
      intro position inside
      rw [Page.getElem_overlay _ _ _ inside]
      have zero (place : Nat) : (bytes.take count)[place]?.getD (0 : UInt8) = 0 := by
        cases found : (bytes.take count)[place]? with
        | none => rfl
        | some byte =>
            have member := List.mem_of_getElem? found
            simpa using List.all_eq_true.mp zeros byte member
      simp [Page.blank, zero]
    next => rfl
  next changed =>
    simp only [page, Std.HashMap.getD_eq_getD_getElem?, Std.HashMap.getElem?_alter]
    by_cases same : index = offset / pageBytes
    · simp [same]
    · simp [same, Ne.symm same]

theorem byteAt_storeInPage (image : Image) (offset count : Nat) (bytes : List UInt8)
    (inPage : offset % pageBytes + count ≤ pageBytes) (position : Nat) :
    (image.storeInPage offset count bytes).byteAt position =
      if offset ≤ position then
        (bytes.take count)[position - offset]?.getD (image.byteAt position)
      else image.byteAt position := by
  have split := Nat.div_add_mod position pageBytes
  have splitOffset := Nat.div_add_mod offset pageBytes
  have small := Nat.mod_lt position (show 0 < pageBytes by decide)
  simp only [byteAt, page_storeInPage]
  by_cases same : position / pageBytes = offset / pageBytes
  · simp only [same, if_true]
    rw [Page.getElem_overlay _ _ _ small]
    rw [same] at split
    by_cases after : offset ≤ position
    · have inside : offset % pageBytes ≤ position % pageBytes := by omega
      have distance : position % pageBytes - offset % pageBytes = position - offset := by omega
      rw [if_pos after, if_pos inside, distance]
    · rw [if_neg after, if_neg (by omega)]
  · simp only [same, if_false]
    by_cases after : offset ≤ position
    · have apart : count ≤ position - offset := by
        have ordered : offset / pageBytes ≤ position / pageBytes := Nat.div_le_div_right after
        have next : offset / pageBytes + 1 ≤ position / pageBytes := by omega
        have scaled := Nat.mul_le_mul_left pageBytes next
        rw [Nat.mul_add, Nat.mul_one] at scaled
        omega
      have none : (bytes.take count)[position - offset]? = none :=
        List.getElem?_eq_none (Nat.le_trans (List.length_take_le count bytes) apart)
      rw [if_pos after, none]
      rfl
    · simp [after]

theorem byteAt_store (image : Image) (offset : Nat) (bytes : List UInt8) (position : Nat) :
    (image.store offset bytes).byteAt position =
      if offset ≤ position then bytes[position - offset]?.getD (image.byteAt position)
      else image.byteAt position := by
  fun_induction store image offset bytes with
  | case1 => simp
  | case2 image offset first rest room bytes induction =>
      have inPage : offset % pageBytes < pageBytes := Nat.mod_lt offset (by decide)
      have fits : offset % pageBytes + room ≤ pageBytes := by omega
      rw [induction, byteAt_storeInPage image offset room bytes fits]
      by_cases beyond : offset + room ≤ position
      · have after : offset ≤ position := by omega
        have shift : room + (position - (offset + room)) = position - offset := by omega
        have apart : (bytes.take room)[position - offset]? = none :=
          List.getElem?_eq_none (by simp only [List.length_take]; omega)
        rw [if_pos beyond, if_pos after, if_pos after, apart, List.getElem?_drop, shift]
        rfl
      · rw [if_neg beyond]
        split
        next => rw [List.getElem?_take_of_lt (by omega)]
        next => rfl

@[simp] theorem length_load (image : Image) (offset length : Nat) :
    (image.load offset length).length = length := by
  simp [load]

theorem getElem?_load (image : Image) (offset length index : Nat) :
    (image.load offset length)[index]? =
      if index < length then some (image.byteAt (offset + index)) else none := by
  by_cases inside : index < length <;> simp [load, inside]

end Image

end Remap.Media
