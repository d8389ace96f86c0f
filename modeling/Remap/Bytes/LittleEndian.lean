/-!
# Little-endian words

A word of `width` bytes is stored least significant byte first. Decoding undoes
encoding up to the width, and encoding undoes decoding exactly, so a field of a
record has one written form. Fields are addressed by their byte offset.
-/

namespace Remap.LittleEndian

def encode : (width : Nat) → (value : Nat) → List UInt8
  | 0, _ => []
  | width + 1, value => UInt8.ofNat value :: encode width (value / 256)

def decode : List UInt8 → Nat
  | [] => 0
  | byte :: rest => byte.toNat + 256 * decode rest

@[simp] theorem length_encode (width value : Nat) :
    (encode width value).length = width := by
  induction width generalizing value with
  | zero => rfl
  | succ width induction => simp [encode, induction]

theorem shift_succ (width : Nat) : 1 <<< (8 * (width + 1)) = 256 * 1 <<< (8 * width) := by
  rw [Nat.one_shiftLeft, Nat.one_shiftLeft, Nat.mul_succ, Nat.pow_add, Nat.mul_comm]

theorem decode_encode (width value : Nat) :
    decode (encode width value) = value % 1 <<< (8 * width) := by
  induction width generalizing value with
  | zero => simp [encode, decode, Nat.mod_one]
  | succ width induction =>
      have split : value % 1 <<< (8 * (width + 1)) =
          value % 256 + 256 * (value / 256 % 1 <<< (8 * width)) := by
        rw [shift_succ, Nat.mod_mul]
      simp [encode, decode, induction, split]

theorem decode_encode_of_lt (width : Nat) {value : Nat} (small : value < 1 <<< (8 * width)) :
    decode (encode width value) = value := by
  rw [decode_encode, Nat.mod_eq_of_lt small]

theorem decode_lt (bytes : List UInt8) : decode bytes < 1 <<< (8 * bytes.length) := by
  induction bytes with
  | nil => simp [decode]
  | cons byte rest induction =>
      have small : byte.toNat < 256 := byte.toNat_lt
      simp only [decode, List.length_cons, shift_succ]
      omega

theorem encode_decode (bytes : List UInt8) :
    encode bytes.length (decode bytes) = bytes := by
  induction bytes with
  | nil => rfl
  | cons byte rest induction =>
      have small : byte.toNat < 256 := byte.toNat_lt
      have high : (byte.toNat + 256 * decode rest) / 256 = decode rest := by omega
      have low : UInt8.ofNat (byte.toNat + 256 * decode rest) = byte := by
        apply UInt8.toNat_inj.mp
        rw [UInt8.toNat_ofNat']
        omega
      simp [encode, decode, high, low, induction]

example : encode 4 0x01020304 = [4, 3, 2, 1] := rfl

end Remap.LittleEndian

namespace Remap.Bytes

def slice (offset width : Nat) (bytes : List UInt8) : List UInt8 :=
  (bytes.drop offset).take width

def overwrite (offset : Nat) (field bytes : List UInt8) : List UInt8 :=
  bytes.take offset ++ field ++ bytes.drop (offset + field.length)

def chunks (width : Nat) : (count : Nat) → (bytes : List UInt8) → List (List UInt8)
  | 0, _ => []
  | count + 1, bytes => bytes.take width :: chunks width count (bytes.drop width)

def number (offset width : Nat) (bytes : List UInt8) : Nat :=
  LittleEndian.decode (slice offset width bytes)

theorem length_overwrite {offset : Nat} {field bytes : List UInt8}
    (inside : offset + field.length ≤ bytes.length) :
    (overwrite offset field bytes).length = bytes.length := by
  simp only [overwrite, List.length_append, List.length_take, List.length_drop]
  omega

end Remap.Bytes
