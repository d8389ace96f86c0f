import Remap.Proofs.PageTable.Rewrites
import Remap.Proofs.PageTable.Spend

/-!
# Committing rewrites the nodes of a tree

A commit that succeeds rewrites the nodes below a table as the edit does, whatever the tables
allow and wherever the unused pages are. It changes nothing but the tables of the tree and
unused pages, and it marks what it did just if a node changed.
-/

namespace Remap.PageTable

/-- The unused pages lie in the physical address space, so pointers can hold their addresses. -/
def Workspace.Addressable (space : Workspace) : Prop :=
  ∀ address, space.memory.Has address → space.buffer.Spare address → address < spaceSize

theorem Spends.addressable {before after : Progress} {count : Nat}
    (spends : Spends count before after) (fits : before.space.Addressable) :
    after.space.Addressable :=
  fun address has spare =>
    fits address (has.of_size_eq spends.size_eq.symm) (spends.spare spare)

theorem Grown.nodes {level child : Nat} {table : Table} {before between : Progress}
    (grown : Grown level child table before between)
    (parts : ∀ place, Workspace.Plain (.decode (table.word place) level))
    (place : Fin tableEntries) :
    between.space.memory.view.nodes level child place = .plain (table.word place) := by
  rw [Tables.nodes, grown.here, Tables.node_plain (parts place)]

/-- A change of one entry keeps the tables apart if what is below the new entry is new or was
below the old one. -/
theorem Tables.SeparateBelow.update {before after : Tables} {level address : Nat}
    {index : Fin tableEntries} (separate : before.SeparateBelow level address)
    (entry_other : ∀ other, other ≠ index →
      after.entry level address other = before.entry level address other)
    (same_other : ∀ other, other ≠ index →
      SameBelow before after level (before.entry level address other))
    (here : after.Separate level (after.entry level address index))
    (fresh : ∀ target, after.Uses level (after.entry level address index) target →
      target ≠ address ∧ ∀ other, other ≠ index →
        ¬before.Uses level (before.entry level address other) target) :
    after.SeparateBelow level address := by
  have uses {other : Fin tableEntries} (apart : other ≠ index) {target : Nat} :
      after.Uses level (after.entry level address other) target ↔
        before.Uses level (before.entry level address other) target := by
    rw [entry_other other apart]
    exact (same_other other apart).uses_iff
  intro place
  by_cases changed : place = index
  · subst changed
    refine ⟨here, fun used => (fresh address used).1 rfl, ?_⟩
    intro other apart target used also
    exact (fresh target used).2 other apart ((uses apart).mp also)
  · obtain ⟨inner, unused, distinct⟩ := separate place
    refine ⟨?_, fun used => unused ((uses changed).mp used), ?_⟩
    · rw [entry_other place changed]
      exact (same_other place changed).separate inner
    · intro other apart target used also
      by_cases there : other = index
      · subst there
        exact (fresh target also).2 place changed ((uses changed).mp used)
      · exact distinct other apart target ((uses changed).mp used) ((uses there).mp also)

/-! Work on an entry, or on some entries of a table, keeps the tables apart, changes nothing
outside of them but pages that it takes, and is marked just if a node is another one afterwards. -/

structure SlotRework (edit : Edit) (level address : Nat) (parent : Attribute) (slot : Nat)
    (index : Fin tableEntries) (before after : Progress) : Prop where
  spends : ∃ count, Spends count before after
  separate : after.space.memory.view.Separate level
    (after.space.memory.view.entry level address index)
  uses : ∀ target, after.space.memory.view.Uses level
      (after.space.memory.view.entry level address index) target →
    before.space.memory.view.Uses level (before.space.memory.view.entry level address index)
      target ∨ Gained before after target
  others : ∀ other, other ≠ index → (after.space.memory.view address).word other =
    (before.space.memory.view address).word other
  frame : ∀ target, target ≠ address → before.space.memory.Has target →
    ¬before.space.memory.view.Uses level
      (before.space.memory.view.entry level address index) target →
    ¬before.space.buffer.Spare target →
    after.space.memory.view target = before.space.memory.view target
  rewrites : edit.Rewrites level parent slot (before.space.memory.view.nodes level address index)
    (after.space.memory.view.nodes level address index)
  marked : after = before ∨ after.modified = true ∧ (before.modified = true ∨
    after.space.memory.view.nodes level address index ≠
      before.space.memory.view.nodes level address index)

structure TableRework (edit : Edit) (level address : Nat) (parent : Attribute) (origin : Nat)
    (slots : List (Fin tableEntries)) (before after : Progress) : Prop where
  spends : ∃ count, Spends count before after
  separate : after.space.memory.view.SeparateBelow level address
  spans : ∀ target, after.space.memory.view.Spans level address target →
    before.space.memory.view.Spans level address target ∨ Gained before after target
  frame : ∀ target, before.space.memory.Has target →
    ¬before.space.memory.view.Spans level address target → ¬before.space.buffer.Spare target →
    after.space.memory.view target = before.space.memory.view target
  rewrites : ∀ index ∈ slots, edit.Rewrites level parent (origin + index.val * levelSize level)
    (before.space.memory.view.nodes level address index)
    (after.space.memory.view.nodes level address index)
  others : ∀ index, index ∉ slots → after.space.memory.view.nodes level address index =
    before.space.memory.view.nodes level address index
  marked : after = before ∨ after.modified = true ∧ (before.modified = true ∨ ∃ index ∈ slots,
    after.space.memory.view.nodes level address index ≠
      before.space.memory.view.nodes level address index)

section Tables

variable {edit : Edit} {level address origin slot : Nat} {parent : Attribute}
  {index : Fin tableEntries} {slots rest : List (Fin tableEntries)}
  {before between after : Progress}

theorem SlotRework.entry_other
    (rework : SlotRework edit level address parent slot index before after)
    {other : Fin tableEntries} (apart : other ≠ index) :
    after.space.memory.view.entry level address other =
      before.space.memory.view.entry level address other := by
  rw [Tables.entry, rework.others other apart, Tables.entry]

section Slot

variable (owns : before.space.Owns level address)
  (rework : SlotRework edit level address parent slot index before after)

include owns rework

theorem SlotRework.same_other {other : Fin tableEntries} (apart : other ≠ index) :
    Tables.SameBelow before.space.memory.view after.space.memory.view level
      (before.space.memory.view.entry level address other) := by
  intro target used
  have spanned : before.space.memory.view.Spans level address target := .inr ⟨other, used⟩
  apply rework.frame target
  · rintro rfl
    exact (owns.separate other).2.1 used
  · exact owns.has target spanned
  · exact (owns.separate other).2.2 index apart.symm target used
  · exact owns.apart target spanned

theorem SlotRework.nodes_other {other : Fin tableEntries} (apart : other ≠ index) :
    after.space.memory.view.nodes level address other =
      before.space.memory.view.nodes level address other := by
  rw [Tables.nodes, rework.others other apart]
  exact (rework.same_other owns apart).node_eq

theorem SlotRework.separateBelow : after.space.memory.view.SeparateBelow level address := by
  apply owns.separate.update (fun _ => rework.entry_other)
    (fun _ => rework.same_other owns) rework.separate
  intro target used
  rcases rework.uses target used with old | gained
  · refine ⟨?_, fun other apart => (owns.separate index).2.2 other apart target old⟩
    rintro rfl
    exact (owns.separate index).2.1 old
  · have spare := gained.took.2.1
    refine ⟨?_, fun other apart used => owns.apart target (.inr ⟨other, used⟩) spare⟩
    rintro rfl
    exact owns.apart target (.inl rfl) spare

end Slot

theorem SlotRework.table (owns : before.space.Owns level address)
    (rework : SlotRework edit level address parent (origin + index.val * levelSize level) index
      before after) :
    TableRework edit level address parent origin [index] before after where
  spends := rework.spends
  separate := rework.separateBelow owns
  spans := by
    rintro target (here | ⟨place, used⟩)
    · exact .inl (.inl here)
    · by_cases changed : place = index
      · subst changed
        exact (rework.uses target used).imp_left fun old => .inr ⟨place, old⟩
      · rw [rework.entry_other changed] at used
        exact .inl (.inr ⟨place, (rework.same_other owns changed).uses_iff.mp used⟩)
  frame := by
    intro target has outside unspare
    exact rework.frame target (fun here => outside (.inl here)) has
      (fun used => outside (.inr ⟨index, used⟩)) unspare
  rewrites := by
    intro place member
    obtain rfl := List.mem_singleton.mp member
    exact rework.rewrites
  others := by
    intro place apart
    exact rework.nodes_other owns fun same => apart (List.mem_singleton.mpr same)
  marked := by
    rcases rework.marked with idle | ⟨marked, changed⟩
    · exact .inl idle
    · refine .inr ⟨marked, changed.imp_right fun differs => ?_⟩
      exact ⟨index, List.mem_singleton_self index, differs⟩

theorem TableRework.nil (owns : before.space.Owns level address) :
    TableRework edit level address parent origin [] before before where
  spends := ⟨0, .refl⟩
  separate := owns.separate
  spans _ spanned := .inl spanned
  frame _ _ _ _ := rfl
  rewrites _ member := absurd member List.not_mem_nil
  others _ _ := rfl
  marked := .inl rfl

theorem TableRework.owns (owns : before.space.Owns level address)
    (rework : TableRework edit level address parent origin slots before after) :
    after.space.Owns level address := by
  obtain ⟨count, spends⟩ := rework.spends
  refine ⟨rework.separate, ?_, ?_⟩
  · intro target spanned
    rcases rework.spans target spanned with old | gained
    · exact spends.has (owns.has target old)
    · exact gained.has
  · intro target spanned spare
    rcases rework.spans target spanned with old | gained
    · exact owns.apart target old (spends.spare spare)
    · exact gained.took.2.2 spare

theorem TableRework.cons
    (first : TableRework edit level address parent origin [index] before between)
    (second : TableRework edit level address parent origin rest between after)
    (fresh : index ∉ rest) :
    TableRework edit level address parent origin (index :: rest) before after := by
  obtain ⟨early, spent⟩ := first.spends
  obtain ⟨late, spends⟩ := second.spends
  have apart {place : Fin tableEntries} (member : place ∈ rest) : place ∉ [index] := by
    intro same
    rw [List.mem_singleton.mp same] at member
    exact fresh member
  constructor
  · exact ⟨early + late, spent.trans spends⟩
  · exact second.separate
  · intro target spanned
    rcases second.spans target spanned with middle | gained
    · exact (first.spans target middle).imp_right spends.gained_after
    · exact .inr (spent.gained_before gained)
  · intro target has outside unspare
    rw [← first.frame target has outside unspare]
    apply second.frame target (spent.has has)
    · intro spanned
      rcases first.spans target spanned with old | gained
      · exact outside old
      · exact unspare gained.took.2.1
    · exact fun spare => unspare (spent.spare spare)
  · intro place member
    rcases List.mem_cons.mp member with rfl | later
    · rw [second.others place fresh]
      exact first.rewrites place (List.mem_singleton_self place)
    · rw [← first.others place (apart later)]
      exact second.rewrites place later
  · intro place outside
    obtain ⟨differs, later⟩ := not_or.mp (fun member => outside (List.mem_cons.mpr member))
    rw [second.others place later, first.others place fun same =>
      differs (List.mem_singleton.mp same)]
  · rcases first.marked with rfl | ⟨marked, changed⟩
    · rcases second.marked with idle | ⟨marked, changed⟩
      · exact .inl idle
      · refine .inr ⟨marked, changed.imp_right ?_⟩
        rintro ⟨place, member, differs⟩
        exact ⟨place, List.mem_cons_of_mem _ member, differs⟩
    · have still : after.modified = true := by
        rcases second.marked with rfl | later
        · exact marked
        · exact later.1
      refine .inr ⟨still, changed.imp_right ?_⟩
      rintro ⟨place, member, differs⟩
      obtain rfl := List.mem_singleton.mp member
      refine ⟨place, List.mem_cons_self, ?_⟩
      rwa [second.others place fresh]

end Tables

end Remap.PageTable
