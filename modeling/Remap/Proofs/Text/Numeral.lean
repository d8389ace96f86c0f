import Mathlib.Data.List.TakeWhile
import Mathlib.Data.Nat.Digits.Defs
import Remap.Text.Blank
import Remap.Text.Decimal

/-!
# Numerals

A numeral is written as white space, at most one plus sign, ASCII digits of which there is at least
one, and white space again. A text is read as a number exactly if it is a numeral of that number.
A reader with a word of 32 bits only, which gives up as soon as a digit makes the word overflow,
reads the same numbers up to the largest word: leading zeros never make it give up.
-/

namespace Remap.Text

structure Numeral where
  front : List Char
  plus : Bool
  digits : List Char
  back : List Char
  front_blank : ∀ character ∈ front, isBlank character = true
  digits_ne_nil : digits ≠ []
  digits_ascii : ∀ digit ∈ digits, '0' ≤ digit ∧ digit ≤ '9'
  back_blank : ∀ character ∈ back, isBlank character = true

def digitValue (digit : Char) : Nat := digit.toNat - '0'.toNat

def sign (plus : Bool) : List Char := if plus then ['+'] else []

namespace Numeral

def signed (numeral : Numeral) : List Char :=
  sign numeral.plus ++ numeral.digits

def text (numeral : Numeral) : List Char := numeral.front ++ numeral.signed ++ numeral.back

def number (numeral : Numeral) : Nat :=
  Nat.ofDigits 10 (numeral.digits.reverse.map digitValue)

end Numeral

def Denotes (text : List Char) (number : Nat) : Prop :=
  ∃ numeral : Numeral, numeral.text = text ∧ numeral.number = number

section Digits

variable {digit : Char} {digits : List Char} {value : Nat}

theorem isDigit_iff : digit.isDigit = true ↔ '0' ≤ digit ∧ digit ≤ '9' := by
  simp [Char.isDigit, Char.le_def, UInt32.le_iff_toNat_le]

theorem not_blank_of_isDigit (isDigit : digit.isDigit = true) : isBlank digit = false := by
  have range : 48 ≤ digit.toNat ∧ digit.toNat ≤ 57 := by
    simpa [Char.isDigit, UInt32.le_iff_toNat_le] using isDigit
  simp [isBlank, blankRanges]
  omega

theorem not_blank_of_sign {plus : Bool} {character : Char} (member : character ∈ sign plus) :
    isBlank character = false := by
  cases plus with
  | true =>
      obtain rfl := List.mem_singleton.mp member
      decide
  | false => cases member

theorem unsigned?_eq_some_iff : unsigned? digits = some value ↔
    (digits ≠ [] ∧ ∀ digit ∈ digits, digit.isDigit = true) ∧ digitsValue 0 digits = value := by
  simp [unsigned?]

theorem digitsValue_eq_foldl (value : Nat) (digits : List Char) :
    digitsValue value digits =
      digits.foldl (fun value digit => 10 * value + digitValue digit) value := by
  induction digits generalizing value with
  | nil => rfl
  | cons digit rest induction => exact induction _

theorem digitsValue_eq (value : Nat) (digits : List Char) :
    digitsValue value digits =
      value * 10 ^ digits.length + Nat.ofDigits 10 (digits.reverse.map digitValue) := by
  rw [digitsValue_eq_foldl]
  induction digits generalizing value with
  | nil => simp
  | cons digit rest induction =>
      simp only [List.foldl_cons, induction, List.length_cons, List.reverse_cons, List.map_append,
        List.map_cons, List.map_nil, Nat.ofDigits_append, Nat.ofDigits_singleton, List.length_map,
        List.length_reverse, Nat.pow_succ]
      ring

theorem le_digitsValue (value : Nat) (digits : List Char) : value ≤ digitsValue value digits := by
  rw [digitsValue_eq]
  exact Nat.le_add_right_of_le (Nat.le_mul_of_pos_right value (Nat.pow_pos (by decide)))

end Digits

section Trim

variable {front middle back : List Char}

theorem trim_framed (front_blank : ∀ character ∈ front, isBlank character = true)
    (middle_dense : ∀ character ∈ middle, isBlank character = false)
    (back_blank : ∀ character ∈ back, isBlank character = true) :
    trim (front ++ middle ++ back) = middle := by
  have reverse_blank : ∀ character ∈ back.reverse, isBlank character = true := by
    simpa using back_blank
  rw [trim, List.append_assoc, List.dropWhile_append_of_pos front_blank]
  cases middle with
  | nil =>
      have nothing : back.dropWhile isBlank = [] := List.dropWhile_eq_nil_iff.mpr back_blank
      simp [nothing]
  | cons first rest =>
      have kept : isBlank first = false := middle_dense first List.mem_cons_self
      have whole : ((first :: rest) ++ back).dropWhile isBlank = (first :: rest) ++ back := by
        simp [kept]
      rw [whole, List.reverse_append, List.dropWhile_append_of_pos reverse_blank]
      have last : (first :: rest).reverse.dropWhile isBlank = (first :: rest).reverse := by
        rw [List.dropWhile_eq_self_iff]
        intro inside
        rw [middle_dense _ (List.mem_reverse.mp (List.getElem_mem inside))]
        exact Bool.false_ne_true
      rw [last, List.reverse_reverse]

theorem exists_trim (text : List Char) :
    ∃ front back, text = front ++ trim text ++ back ∧
      (∀ character ∈ front, isBlank character = true) ∧
      ∀ character ∈ back, isBlank character = true := by
  have front := List.takeWhile_append_dropWhile (p := isBlank) (l := text)
  have back := List.takeWhile_append_dropWhile (p := isBlank)
    (l := (text.dropWhile isBlank).reverse)
  refine ⟨text.takeWhile isBlank, ((text.dropWhile isBlank).reverse.takeWhile isBlank).reverse,
    ?_, fun character member => List.mem_takeWhile_imp member, fun character member =>
      List.mem_takeWhile_imp (List.mem_reverse.mp member)⟩
  rw [trim, List.append_assoc, ← List.reverse_append, back, List.reverse_reverse, front]

end Trim

theorem number?_eq_some_iff {characters : List Char} {number : Nat} :
    number? characters = some number ↔
      ∃ plus digits, sign plus ++ digits = characters ∧ digits ≠ [] ∧
        (∀ digit ∈ digits, digit.isDigit = true) ∧ digitsValue 0 digits = number := by
  constructor
  · intro read
    rw [number?.eq_def] at read
    split at read
    next rest =>
      obtain ⟨⟨nonempty, digits⟩, value⟩ := unsigned?_eq_some_iff.mp read
      exact ⟨true, rest, rfl, nonempty, digits, value⟩
    next =>
      obtain ⟨⟨nonempty, digits⟩, value⟩ := unsigned?_eq_some_iff.mp read
      exact ⟨false, characters, rfl, nonempty, digits, value⟩
  · rintro ⟨plus, digits, rfl, nonempty, ascii, value⟩
    have read : unsigned? digits = some number :=
      unsigned?_eq_some_iff.mpr ⟨⟨nonempty, ascii⟩, value⟩
    cases plus with
    | true => exact read
    | false =>
        obtain ⟨digit, rest, rfl⟩ := List.exists_cons_of_ne_nil nonempty
        have noSign : digit ≠ '+' := by
          rintro rfl
          exact absurd (ascii '+' List.mem_cons_self) (by decide)
        rw [sign, if_neg Bool.false_ne_true, List.nil_append, number?.eq_def]
        split
        next same => exact absurd (List.cons.inj same).1 noSign
        next => exact read

/-- After the white space at its ends is cut off, a text is read as a number if and only if it is a
numeral of that number. -/
theorem number?_trim_iff {text : List Char} {number : Nat} :
    number? (trim text) = some number ↔ Denotes text number := by
  constructor
  · intro read
    obtain ⟨plus, digits, trimmed, nonempty, ascii, value⟩ := number?_eq_some_iff.mp read
    obtain ⟨front, back, whole, front_blank, back_blank⟩ := exists_trim text
    refine ⟨⟨front, plus, digits, back, front_blank, nonempty,
      fun digit member => isDigit_iff.mp (ascii digit member), back_blank⟩, ?_, ?_⟩
    · rw [whole, ← trimmed]
      rfl
    · rw [← value, digitsValue_eq, Nat.zero_mul, Nat.zero_add]
      rfl
  · rintro ⟨numeral, rfl, rfl⟩
    have ascii : ∀ digit ∈ numeral.digits, digit.isDigit = true := fun digit member =>
      isDigit_iff.mpr (numeral.digits_ascii digit member)
    have dense : ∀ character ∈ numeral.signed, isBlank character = false := by
      intro character member
      rcases List.mem_append.mp member with inSign | inDigits
      · exact not_blank_of_sign inSign
      · exact not_blank_of_isDigit (ascii character inDigits)
    rw [Numeral.text, trim_framed numeral.front_blank dense numeral.back_blank,
      number?_eq_some_iff]
    refine ⟨numeral.plus, numeral.digits, rfl, numeral.digits_ne_nil, ascii, ?_⟩
    rw [digitsValue_eq, Nat.zero_mul, Nat.zero_add, Numeral.number]

example : Denotes ['\u2003', '+', '0', '7', '\n'] 7 := number?_trim_iff.mp (by decide)

theorem Denotes.unique {text : List Char} {number other : Nat} (left : Denotes text number)
    (right : Denotes text other) : number = other :=
  Option.some.inj ((number?_trim_iff.mpr left).symm.trans (number?_trim_iff.mpr right))

section Words

def word? (number : Nat) : Option UInt32 :=
  if number < UInt32.size then some (.ofNat number) else none

def takeDigits (word : UInt32) : List Char → Option UInt32
  | [] => some word
  | digit :: rest => do
      let tens ← word? (word.toNat * 10)
      if digit.isDigit then
        takeDigits (← word? (tens.toNat + digitValue digit)) rest
      else
        none

def unsignedWord? (characters : List Char) : Option UInt32 :=
  if characters = [] then none else takeDigits 0 characters

def readWord? : List Char → Option UInt32
  | '+' :: rest => unsignedWord? rest
  | characters => unsignedWord? characters

theorem word?_of_le {number larger : Nat} (le : number ≤ larger) (refused : word? number = none) :
    word? larger = none := by
  simp only [word?, ite_eq_right_iff, reduceCtorEq, imp_false] at refused ⊢
  omega

theorem toNat_of_word? {number : Nat} {word : UInt32} (fits : word? number = some word) :
    word.toNat = number := by
  rw [word?] at fits
  split at fits
  next small =>
    cases fits
    exact UInt32.toNat_ofNat_of_lt' small
  next => cases fits

/-- The word overflows at some digit if and only if the whole number is too large. -/
theorem takeDigits_eq (word : UInt32) (digits : List Char) :
    takeDigits word digits =
      if digits.all Char.isDigit then word? (digitsValue word.toNat digits) else none := by
  induction digits generalizing word with
  | nil =>
      have fits : word.toNat < UInt32.size := word.toNat_lt
      simp [takeDigits, digitsValue_eq_foldl, word?, fits]
  | cons digit rest induction =>
      have later : digitsValue word.toNat (digit :: rest) =
          digitsValue (10 * word.toNat + digitValue digit) rest := by
        simp only [digitsValue_eq_foldl, List.foldl_cons]
      have grown := le_digitsValue (10 * word.toNat + digitValue digit) rest
      rw [takeDigits, later, List.all_cons]
      cases tens : word? (word.toNat * 10) with
      | none =>
          -- the digits to come only add to a number that is too large already
          rw [word?_of_le (by omega) tens, ite_self]
          rfl
      | some tenfold =>
          rw [Option.bind_eq_bind, Option.bind_some, toNat_of_word? tens, Nat.mul_comm]
          by_cases ascii : digit.isDigit = true
          · rw [if_pos ascii, ascii, Bool.true_and]
            cases next : word? (10 * word.toNat + digitValue digit) with
            | none =>
                rw [word?_of_le grown next, ite_self]
                rfl
            | some following =>
                rw [Option.bind_some, induction, toNat_of_word? next]
          · simp [ascii]

theorem readWord?_eq (characters : List Char) :
    readWord? characters = (number? characters).bind word? := by
  have unsigned : ∀ characters, unsignedWord? characters = (unsigned? characters).bind word? := by
    intro characters
    rw [unsignedWord?, unsigned?, takeDigits_eq]
    by_cases nothing : characters = []
    · simp [nothing]
    · by_cases ascii : characters.all Char.isDigit = true <;> simp [nothing, ascii]
  fun_cases readWord? characters with
  | case1 rest => exact unsigned rest
  | case2 characters signless =>
      rw [number?.eq_2 _ signless]
      exact unsigned characters

end Words

end Remap.Text
