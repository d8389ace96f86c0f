import Remap.Proofs.PageTable.Separate
import Remap.Proofs.PageTable.Translation

/-!
# Pointers to a table

Where each table is reached through one entry, there is one pointer to each table of a tree
among the tables that pointers lead to, and none to the table that the tree hangs from.
-/

namespace Remap.PageTable

namespace Memory

structure Refers (memory : Memory) (level address lower source : Nat) (index : Fin tableEntries)
    (target : Nat) : Prop where
  leads : memory.Leads level address (lower + 1) source
  points : ∃ table child attr, memory.table source = .ok table ∧
    Entry.decode (table.word index) (lower + 1) = .table child attr ∧ child.toNat = target

variable {memory : Memory} {level address lower source target : Nat} {index : Fin tableEntries}

theorem Leads.spans (leads : memory.Leads level address lower target) :
    memory.view.Spans level address target := by
  induction leads with
  | self => exact .inl rfl
  | @step level address lower target table index child attr found pointer onward induction =>
      obtain ⟨-, rfl⟩ := table_ok found
      refine .inr ⟨index, ?_⟩
      rw [Tables.entry, pointer]
      exact induction

theorem Refers.cases (refers : memory.Refers (level + 1) address lower source index target) :
    (lower = level ∧ source = address ∧ ∃ child attr,
      memory.view.entry (level + 1) address index = .table child attr ∧ child.toNat = target) ∨
    ∃ through child attr, memory.view.entry (level + 1) address through = .table child attr ∧
      memory.Refers level child.toNat lower source index target := by
  obtain ⟨leads, points⟩ := refers
  cases leads with
  | self =>
      obtain ⟨table, child, attr, found, pointer, target_eq⟩ := points
      obtain ⟨-, rfl⟩ := table_ok found
      exact .inl ⟨rfl, rfl, child, attr, pointer, target_eq⟩
  | @step _ _ _ _ table through child attr found pointer onward =>
      obtain ⟨-, rfl⟩ := table_ok found
      exact .inr ⟨through, child, attr, pointer, onward, points⟩

theorem not_refers_zero : ¬memory.Refers 0 address lower source index target := by
  rintro ⟨leads, -⟩
  cases leads

theorem Refers.uses (refers : memory.Refers level address lower source index target) :
    ∃ through, memory.view.Uses level (memory.view.entry level address through) target := by
  induction level generalizing address with
  | zero => exact absurd refers not_refers_zero
  | succ level induction =>
      rcases refers.cases with ⟨-, -, child, attr, found, rfl⟩ |
        ⟨through, child, attr, found, onward⟩
      · refine ⟨index, ?_⟩
        rw [found]
        exact .inl rfl
      · refine ⟨through, ?_⟩
        rw [found]
        exact .inr (induction onward)

theorem refers_of_uses (has : ∀ target, memory.view.Spans level address target → memory.Has target)
    {through : Fin tableEntries}
    (used : memory.view.Uses level (memory.view.entry level address through) target) :
    ∃ lower source index, memory.Refers level address lower source index target := by
  induction level generalizing address through with
  | zero => cases used
  | succ level induction =>
      have table_eq := (has address (.inl rfl)).table_eq
      generalize found : memory.view.entry (level + 1) address through = entry at used
      cases entry with
      | absent => cases used
      | leaf size attr => cases used
      | table child attr =>
          rcases used with rfl | ⟨place, used⟩
          · exact ⟨level, address, through, .self, _, child, attr, table_eq, found, rfl⟩
          · have inner (target : Nat) (spanned : memory.view.Spans level child.toNat target) :
                memory.Has target := by
              refine has target (.inr ⟨through, ?_⟩)
              rw [found]
              exact spanned
            obtain ⟨lower, source, index, refers⟩ := induction inner used
            exact ⟨lower, source, index, .step table_eq found refers.leads, refers.points⟩

theorem Refers.ne_self (separate : memory.view.SeparateBelow level address)
    (refers : memory.Refers level address lower source index target) : target ≠ address := by
  rintro rfl
  obtain ⟨through, used⟩ := refers.uses
  exact (separate through).2.1 used

theorem Refers.unique {other from_ : Nat} {place : Fin tableEntries}
    (separate : memory.view.SeparateBelow level address)
    (first : memory.Refers level address lower source index target)
    (second : memory.Refers level address other from_ place target) :
    other = lower ∧ from_ = source ∧ place = index := by
  induction level generalizing address with
  | zero => exact absurd first not_refers_zero
  | succ level induction =>
      have same {left right : Fin tableEntries} {child next : UInt64} {attr rights : Attribute}
          (found : memory.view.entry (level + 1) address left = .table child attr)
          (used : memory.view.Spans level child.toNat target)
          (also_found : memory.view.entry (level + 1) address right = .table next rights)
          (also : memory.view.Spans level next.toNat target) : right = left ∧ next = child := by
        have places : right = left := by
          refine Decidable.byContradiction fun apart => ?_
          refine (separate left).2.2 right apart target ?_ ?_
          · rw [found]
            exact used
          · rw [also_found]
            exact also
        subst places
        rw [found] at also_found
        cases also_found
        exact ⟨rfl, rfl⟩
      have inner {through : Fin tableEntries} {child : UInt64} {attr : Attribute}
          (found : memory.view.entry (level + 1) address through = .table child attr) :
          memory.view.SeparateBelow level child.toNat := by
        have below := (separate through).1
        rw [found] at below
        exact below
      rcases first.cases with ⟨rfl, rfl, child, attr, found, rfl⟩ |
        ⟨through, child, attr, found, onward⟩
      · rcases second.cases with ⟨rfl, rfl, next, rights, also, here⟩ |
          ⟨another, next, rights, also, later⟩
        · exact ⟨rfl, rfl, (same found (.inl rfl) also (.inl here.symm)).1⟩
        · -- the target would be below itself
          obtain ⟨-, rfl⟩ := same found (.inl rfl) also (.inr later.uses)
          exact absurd rfl (later.ne_self (inner found))
      · rcases second.cases with ⟨rfl, rfl, next, rights, also, rfl⟩ |
          ⟨another, next, rights, also, later⟩
        · obtain ⟨-, rfl⟩ := same found (.inr onward.uses) also (.inl rfl)
          exact absurd rfl (onward.ne_self (inner found))
        · obtain ⟨-, rfl⟩ := same found (.inr onward.uses) also (.inr later.uses)
          exact induction (inner found) onward later

end Memory

end Remap.PageTable
