/-!
# Decimal numbers

A number is read from an optional plus sign and at least one ASCII digit, with
any count of leading zeros and nothing else.
-/

namespace Remap.Text

def digitsValue (value : Nat) : List Char → Nat
  | [] => value
  | digit :: rest => digitsValue (10 * value + (digit.toNat - '0'.toNat)) rest

def unsigned? (characters : List Char) : Option Nat :=
  if characters ≠ [] ∧ characters.all Char.isDigit then
    some (digitsValue 0 characters)
  else
    none

def number? : List Char → Option Nat
  | '+' :: rest => unsigned? rest
  | characters => unsigned? characters

example : number? ['+', '0', '7'] = some 7 := by decide

example : number? ['+'] = none := by decide

end Remap.Text
