import Remap.Proofs.Media.Contents

/-!
# Sequences of writes

The contents after some writes, one after the other. Writes inside a range leave all other
bytes alone.
-/

namespace Remap.Media.Contents

def storeAll (contents : Contents) (writes : List (Nat × List UInt8)) : Contents :=
  writes.foldl (fun contents write => contents.store write.1 write.2) contents

variable {contents left right : Contents} {start stop : Nat} {writes : List (Nat × List UInt8)}

theorem storeAll_append (first second : List (Nat × List UInt8)) :
    contents.storeAll (first ++ second) = (contents.storeAll first).storeAll second := by
  rw [storeAll, storeAll, storeAll, List.foldl_append]

theorem storeAll_apart {position : Nat}
    (apart : ∀ write ∈ writes, position < write.1 ∨ write.1 + write.2.length ≤ position) :
    contents.storeAll writes position = contents position := by
  induction writes generalizing contents with
  | nil => rfl
  | cons write rest induction =>
      refine (induction fun later member => apart later (List.mem_cons_of_mem write member)).trans ?_
      exact store_outside (apart write List.mem_cons_self)

theorem storeAll_outside
    (inside : ∀ write ∈ writes, start ≤ write.1 ∧ write.1 + write.2.length ≤ stop) :
    (contents.storeAll writes).AgreeOutside contents start stop := by
  intro position outside
  refine storeAll_apart fun write member => ?_
  have bounds := inside write member
  omega

theorem AgreeOn.storeAll (agree : left.AgreeOn right start stop)
    (writes : List (Nat × List UInt8)) :
    (left.storeAll writes).AgreeOn (right.storeAll writes) start stop := by
  induction writes generalizing left right with
  | nil => exact agree
  | cons write rest induction => exact induction (agree.store write.1 write.2)

end Remap.Media.Contents
