import Remap.Proofs.Media.Contents

/-!
# Words in the contents of a media

Records on a media are made of little-endian 32-bit words. A stored word is read back, and
storing a word leaves all words apart from it.
-/

namespace Remap.Media.Contents

def word (contents : Contents) (offset : Nat) : UInt32 :=
  .ofNat (LittleEndian.decode (contents.load offset 4))

def storeWord (contents : Contents) (offset : Nat) (value : UInt32) : Contents :=
  contents.store offset (LittleEndian.encode 4 value.toNat)

variable {contents left right : Contents} {offset other length start stop : Nat}
  {value : UInt32}

theorem store_append (first second : List UInt8) :
    contents.store offset (first ++ second) =
      (contents.store offset first).store (offset + first.length) second := by
  funext position
  by_cases before : position < offset + first.length
  · have front : ((contents.store offset first).store (offset + first.length) second) position =
        contents.store offset first position := store_outside (.inl before)
    rw [front]
    by_cases lower : offset ≤ position
    · rw [store_inside lower (by rw [List.length_append]; omega), store_inside lower (by omega),
        List.getElem_append_left]
    · rw [store_outside (by omega), store_outside (by omega)]
  · by_cases inside : position < offset + first.length + second.length
    · rw [store_inside (by omega) (by rw [List.length_append]; omega),
        store_inside (by omega) (by omega), List.getElem_append_right (by omega)]
      congr 1
      omega
    · rw [store_outside (.inr (by rw [List.length_append]; omega)), store_outside (by omega),
        store_outside (by omega)]

theorem word_storeWord_same : (contents.storeWord offset value).word offset = value := by
  have read : (contents.storeWord offset value).load offset 4 =
      LittleEndian.encode 4 value.toNat := by
    have width : (LittleEndian.encode 4 value.toNat).length = 4 := by simp
    have whole : (contents.storeWord offset value).load offset
        (LittleEndian.encode 4 value.toNat).length = LittleEndian.encode 4 value.toNat :=
      load_store_same
    rwa [width] at whole
  rw [word, read, LittleEndian.decode_encode_of_lt 4 value.toNat_lt, UInt32.ofNat_toNat]

theorem word_store_apart {bytes : List UInt8}
    (apart : other + 4 ≤ offset ∨ offset + bytes.length ≤ other) :
    (contents.store offset bytes).word other = contents.word other := by
  rw [word, load_store_apart apart, word]

theorem word_storeWord_apart (apart : other + 4 ≤ offset ∨ offset + 4 ≤ other) :
    (contents.storeWord offset value).word other = contents.word other :=
  word_store_apart (by simpa using apart)

theorem storeWord_word : contents.storeWord offset (contents.word offset) = contents := by
  have width : (contents.load offset 4).length = 4 := length_load
  have small := LittleEndian.decode_lt (contents.load offset 4)
  rw [width] at small
  have number : (contents.word offset).toNat = LittleEndian.decode (contents.load offset 4) := by
    rw [word, UInt32.toNat_ofNat']
    exact Nat.mod_eq_of_lt small
  have bytes : LittleEndian.encode 4 (LittleEndian.decode (contents.load offset 4)) =
      contents.load offset 4 := by
    have read := LittleEndian.encode_decode (contents.load offset 4)
    rwa [width] at read
  rw [storeWord, number, bytes, store_load_self]

theorem storeWord_comm {more : UInt32} (apart : offset + 4 ≤ other ∨ other + 4 ≤ offset) :
    (contents.storeWord offset value).storeWord other more =
      (contents.storeWord other more).storeWord offset value :=
  store_comm (by simpa using apart)

theorem word_congr (agree : left.AgreeOn right start stop)
    (lower : start ≤ offset) (upper : offset + 4 ≤ stop) :
    left.word offset = right.word offset := by
  rw [word, load_congr agree lower upper, word]

theorem word_eq_zero (zeros : ∀ position, offset ≤ position → position < offset + 4 →
    contents position = 0) : contents.word offset = 0 := by
  have agree : contents.AgreeOn (fun _ => 0) offset (offset + 4) := zeros
  rw [word_congr agree (Nat.le_refl _) (Nat.le_refl _)]
  rfl

theorem number_load {skip : Nat} (inside : skip + 4 ≤ length) :
    UInt32.ofNat (Bytes.number skip 4 (contents.load offset length)) =
      contents.word (offset + skip) := by
  rw [Bytes.number, slice_load inside, word]

end Remap.Media.Contents
