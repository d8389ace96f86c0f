import Remap.PageTable.Extent
import Remap.Proofs.PageTable.Inherit
import Remap.Proofs.PageTable.Walk

/-!
# Translation

A linear address is translated by a walk that reads one entry a level and collects what
the tables take away, until it meets a leaf. This is said of any words in the tables:
tables may be shared, lead back to themselves or not exist. The scan of a tree stops if
a pointer leads nowhere, and otherwise it finds the pieces of the translation.
-/

namespace Remap.PageTable

structure Translation where
  physical : Nat
  rights : UInt64
deriving DecidableEq, Repr

namespace Attribute

def translation (attr : Attribute) (offset : Nat) : Translation :=
  ⟨attr.base.toNat + offset, attr.rights⟩

end Attribute

section Pages

variable {level : Nat}

def pageStart (linear : Nat) : Nat := linear / pageBytes * pageBytes

theorem pageStart_aligned (linear : Nat) : pageStart linear % pageBytes = 0 :=
  Nat.mul_mod_left _ _

theorem pageStart_add (linear : Nat) : pageStart linear + linear % pageBytes = linear := by
  rw [pageStart, Nat.mul_comm, Nat.div_add_mod]

theorem pageStart_le (linear : Nat) : pageStart linear ≤ linear :=
  Nat.div_mul_le_self _ _

theorem lt_pageStart_add (linear : Nat) : linear < pageStart linear + pageBytes := by
  have split := pageStart_add linear
  have inPage : linear % pageBytes < pageBytes := Nat.mod_lt _ (by decide)
  omega

theorem slotOf_pageStart (linear : Nat) : slotOf level (pageStart linear) = slotOf level linear := by
  obtain ⟨pages, size⟩ := Nat.dvd_of_mod_eq_zero (levelSize_aligned level)
  apply Fin.ext
  change pageStart linear / levelSize level % tableEntries = linear / levelSize level % tableEntries
  rw [size, ← Nat.div_div_eq_div_mul, ← Nat.div_div_eq_div_mul, pageStart,
    Nat.mul_div_cancel _ (by decide)]

theorem offset_pageStart (linear : Nat) :
    pageStart linear % levelSize level + linear % pageBytes = linear % levelSize level := by
  obtain ⟨pages, size⟩ := Nat.dvd_of_mod_eq_zero (levelSize_aligned level)
  rw [size, pageStart, Nat.mul_comm (linear / pageBytes), Nat.mul_mod_mul_left, Nat.mod_mul,
    Nat.add_comm]

end Pages

theorem Entry.Fits.base_advance {level linear : Nat} {attr parent : Attribute}
    (fits : Entry.Fits level attr) (aligned : linear % pageBytes = 0) :
    ((attr.inherit parent).advance (linear % levelSize level)).base.toNat =
      attr.base.toNat + linear % levelSize level := by
  have room := fits.room
  have inside := Nat.mod_lt linear (levelSize_pos level)
  have step : linear % levelSize level % pageBytes = 0 := by
    rw [Nat.mod_mod_of_dvd _ (Nat.dvd_of_mod_eq_zero (levelSize_aligned level)), aligned]
  rw [Attribute.toNat_base_advance step, Attribute.base_inherit]
  exact Nat.mod_eq_of_lt (by omega)

namespace Scan

variable {α : Type} {walk : α → Scan} {values : List α} {cause : Error}

theorem all_passes_iff :
    (all walk values).failure = none ↔ ∀ value ∈ values, (walk value).failure = none := by
  induction values with
  | nil => simp [all, empty]
  | cons value rest induction =>
      rw [all, List.forall_mem_cons, ← induction]
      cases here : (walk value).failure <;> simp [here]

theorem all_found (passes : (all walk values).failure = none) :
    (all walk values).found = values.flatMap fun value => (walk value).found := by
  induction values with
  | nil => rfl
  | cons value rest induction =>
      rw [all] at passes ⊢
      cases here : (walk value).failure with
      | some cause => simp [here] at passes
      | none =>
          rw [here] at passes
          rw [List.flatMap_cons, ← induction passes]

theorem all_stopped (stopped : (all walk values).failure = some cause) :
    ∃ value ∈ values, (walk value).failure = some cause := by
  induction values with
  | nil => cases stopped
  | cons value rest induction =>
      rw [all] at stopped
      cases here : (walk value).failure with
      | some reason =>
          rw [here] at stopped
          exact ⟨value, List.mem_cons_self, stopped⟩
      | none =>
          rw [here] at stopped
          obtain ⟨other, member, stopped⟩ := induction stopped
          exact ⟨other, List.mem_cons_of_mem _ member, stopped⟩

end Scan

namespace Memory

def translateBelow (memory : Memory) :
    (level address : Nat) → (parent : Attribute) → (linear : Nat) → Option Translation
  | 0, _, _, _ => none
  | level + 1, address, parent, linear =>
      match memory.table address with
      | .error _ => none
      | .ok table =>
          match Entry.decode (table.word (slotOf (level + 1) linear)) (level + 1) with
          | .absent => none
          | .table child attr =>
              translateBelow memory level child.toNat (attr.inherit parent) linear
          | .leaf _ attr => some ((attr.inherit parent).translation
              (linear % levelSize (level + 1)))

/-- What the tree at `root` makes of a linear address; 0 stands for no tree. -/
def translate (memory : Memory) (mode : Mode) (root linear : Nat) : Option Translation :=
  if root = 0 then none else memory.translateBelow mode.maxLevel root .permissive linear

inductive Leads (memory : Memory) : (level address lower target : Nat) → Prop
  | self {level address : Nat} : Leads memory level address level address
  | step {level address lower target : Nat} {table : Table} {index : Fin tableEntries}
      {child : UInt64} {attr : Attribute} (found : memory.table address = .ok table)
      (pointer : Entry.decode (table.word index) (level + 1) = .table child attr)
      (onward : Leads memory level child.toNat lower target) :
      Leads memory (level + 1) address lower target

/-- The tree at `root` has a pointer that leads nowhere, be it `root` itself. -/
def Broken (memory : Memory) (mode : Mode) (root : Nat) : Prop :=
  root ≠ 0 ∧ ∃ lower target cause, memory.Leads mode.maxLevel root lower target ∧
    memory.table target = .error cause

variable {memory : Memory} {level address origin slot lower target linear : Nat}
  {parent attr : Attribute} {table : Table} {cause : Error} {index : Fin tableEntries}
  {entry : Entry} {child : UInt64}

def pageBelow (memory : Memory) :
    (level address : Nat) → (parent : Attribute) → (linear : Nat) → Option Attribute
  | 0, _, _, _ => none
  | level + 1, address, parent, linear =>
      match memory.table address with
      | .error _ => none
      | .ok table =>
          match Entry.decode (table.word (slotOf (level + 1) linear)) (level + 1) with
          | .absent => none
          | .table child attr => pageBelow memory level child.toNat (attr.inherit parent) linear
          | .leaf _ attr => some ((attr.inherit parent).advance (linear % levelSize (level + 1)))

theorem translateBelow_eq : memory.translateBelow level address parent linear =
    (memory.pageBelow level address parent (pageStart linear)).map
      (·.translation (linear % pageBytes)) := by
  induction level generalizing address parent with
  | zero => rfl
  | succ level induction =>
      rw [translateBelow, pageBelow, slotOf_pageStart]
      cases memory.table address with
      | error cause => rfl
      | ok table =>
          dsimp only
          generalize found : Entry.decode (table.word (slotOf (level + 1) linear)) (level + 1) =
            entry
          cases entry with
          | absent => rfl
          | table child attr => exact induction
          | leaf size attr =>
              have fits := (Entry.decode_leaf found).2
              simp only [Option.map_some, Attribute.translation, Attribute.rights_advance,
                fits.base_advance (pageStart_aligned linear), Attribute.base_inherit, Nat.add_assoc,
                offset_pageStart]

section Failure

theorem table_error (failed : memory.table address = .error cause) :
    ∃ misuse, cause = .invalidParameter misuse := by
  rw [Memory.table, Memory.index] at failed
  split at failed
  next => exact ⟨_, (Except.error.inj failed).symm⟩
  next =>
    split at failed
    next => exact ⟨_, (Except.error.inj failed).symm⟩
    next => cases failed

def leavesAt (memory : Memory) (level : Nat) (parent : Attribute) (slot : Nat) (entry : Entry) :
    Scan :=
  match entry with
  | .absent => .empty
  | .table child attr => memory.leaves level child.toNat (attr.inherit parent) slot
  | .leaf _ attr => .single ⟨slot, levelSize (level + 1), attr.inherit parent⟩

theorem leaves_eq (found : memory.table address = .ok table) (parent : Attribute) :
    memory.leaves (level + 1) address parent origin =
      Scan.all (fun index : Fin tableEntries => memory.leavesAt level parent
        (origin + index.val * levelSize (level + 1)) (.decode (table.word index) (level + 1)))
        table.present := by
  rw [leaves, found]
  rfl

theorem mem_present (pointer : Entry.decode (table.word index) level = .table child attr) :
    index ∈ table.present := by
  refine List.mem_filter.mpr ⟨List.mem_finRange _, ?_⟩
  cases present : table.word index &&& Flag.present.mask == 0 with
  | false => simpa [bne] using present
  | true =>
      rw [Entry.decode, present, if_pos rfl] at pointer
      cases pointer

/-- A walk stops if and only if some pointer leads nowhere. -/
theorem leaves_passes_iff (positive : level ≠ 0) :
    (memory.leaves level address parent origin).failure = none ↔
      ∀ lower target, memory.Leads level address lower target →
        ∃ table, memory.table target = .ok table := by
  induction level generalizing address parent origin with
  | zero => exact absurd rfl positive
  | succ level induction =>
      cases found : memory.table address with
      | error cause =>
          rw [leaves, found]
          constructor
          · intro passes
            cases passes
          · intro resolves
            obtain ⟨table, resolved⟩ := resolves _ _ .self
            rw [found] at resolved
            cases resolved
      | ok table =>
          rw [leaves_eq found, Scan.all_passes_iff]
          constructor
          · intro passes lower target leads
            cases leads with
            | self => exact ⟨table, found⟩
            | step also pointer onward =>
                cases found.symm.trans also
                have inner : level ≠ 0 := by
                  have := Entry.decode_table pointer
                  omega
                have here := passes _ (mem_present pointer)
                rw [pointer, leavesAt, induction inner] at here
                exact here lower target onward
          · intro resolves index _
            generalize pointer : Entry.decode (table.word index) (level + 1) = entry
            cases entry with
            | absent => rfl
            | leaf size attr => rfl
            | table child attr =>
                have inner : level ≠ 0 := by
                  have := Entry.decode_table pointer
                  omega
                rw [leavesAt, induction inner]
                intro lower target onward
                exact resolves lower target (.step found pointer onward)

theorem leaves_stopped (stopped : (memory.leaves level address parent origin).failure =
    some cause) : ∃ misuse, cause = .invalidParameter misuse := by
  induction level generalizing address parent origin with
  | zero => cases stopped
  | succ level induction =>
      cases found : memory.table address with
      | error reason =>
          rw [leaves, found] at stopped
          cases stopped
          exact table_error found
      | ok table =>
          rw [leaves_eq found] at stopped
          obtain ⟨index, -, stopped⟩ := Scan.all_stopped stopped
          generalize Entry.decode (table.word index) (level + 1) = entry at stopped
          cases entry with
          | absent => cases stopped
          | leaf size attr => cases stopped
          | table child attr => exact induction stopped

end Failure

end Memory

end Remap.PageTable
