import Remap.Block.Layout.Alignment

/-!
# Arithmetic in words

Layouts are computed with words of 64 bits. Each operation here is one on words that yields
nothing where the result is no word, so a computation that yields a result went without an
overflow in all of its steps. What it yields is the result of the numbers.
-/

namespace Remap.Block.Word

def limit : Nat := 1 <<< 64

def ofNumber (value : Nat) : Option Nat := if value < limit then some value else none

def add (left right : Nat) : Option Nat := ofNumber (left + right)

def mul (left right : Nat) : Option Nat := ofNumber (left * right)

def sub (left right : Nat) : Option Nat := if right ≤ left then some (left - right) else none

def alignUp (value step : Nat) : Option Nat := do
  return alignDown (← sub (← add value step) 1) step

variable {left right value step : Nat}

theorem add_eq (inside : left + right < limit) : add left right = some (left + right) :=
  if_pos inside

theorem add_some (added : add left right = some value) : value = left + right := by
  rw [add, ofNumber] at added
  split at added
  next => exact (Option.some.inj added).symm
  next => cases added

theorem mul_eq (inside : left * right < limit) : mul left right = some (left * right) :=
  if_pos inside

theorem sub_eq (ordered : right ≤ left) : sub left right = some (left - right) := if_pos ordered

theorem sub_some (subtracted : sub left right = some value) :
    right ≤ left ∧ value = left - right := by
  rw [sub] at subtracted
  split at subtracted
  next ordered => exact ⟨ordered, (Option.some.inj subtracted).symm⟩
  next => cases subtracted

theorem alignUp_eq (inside : value + step < limit) (positive : 0 < step) :
    alignUp value step = some (Block.alignUp value step) := by
  rw [alignUp, add_eq inside]
  dsimp only [bind, Option.bind]
  rw [sub_eq (by omega)]
  rfl

end Remap.Block.Word
