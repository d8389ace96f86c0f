/-!
# Hexadecimal text

Numbers are written in lower case after `0x`, either without padding or filled
with zeros to a fixed count of digits; a byte always takes two digits. Digits are
read in either case.
-/

namespace Remap.Hex

def digits (value : Nat) : List Char :=
  Nat.toDigits 16 value

def number (value : Nat) : String :=
  "0x" ++ String.ofList (digits value)

def padded (width value : Nat) : String :=
  let shown := digits value
  "0x" ++ String.ofList (List.replicate (width - shown.length) '0' ++ shown)

def byte (value : UInt8) : List Char :=
  [Nat.digitChar (value.toNat / 16), Nat.digitChar (value.toNat % 16)]

def bytes (values : List UInt8) : String :=
  String.ofList (values.flatMap byte)

def digit? (digit : Char) : Option Nat :=
  if '0' ≤ digit ∧ digit ≤ '9' then some (digit.toNat - '0'.toNat)
  else if 'a' ≤ digit ∧ digit ≤ 'f' then some (digit.toNat - 'a'.toNat + 10)
  else if 'A' ≤ digit ∧ digit ≤ 'F' then some (digit.toNat - 'A'.toNat + 10)
  else none

def value? (digits : List Char) : Option Nat :=
  digits.foldlM (fun value digit => return 16 * value + (← digit? digit)) 0

def bytes? : List Char → Option (List UInt8)
  | [] => some []
  | [_] => none
  | high :: low :: rest => do
      let value ← value? [high, low]
      return .ofNat value :: (← bytes? rest)

example : number 0x1f00 = "0x1f00" := by decide +kernel

example : padded 4 0x1f = "0x001f" := by decide +kernel

example : bytes [0, 0xab] = "00ab" := by decide +kernel

example : bytes? ['0', '0', 'a', 'B'] = some [0, 0xab] := by decide

end Remap.Hex
