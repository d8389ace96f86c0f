import Remap.Proofs.PageTable.Rework

/-!
# Work of a commit

Keeping an entry, storing one, going on in a table and going on in a new one are each work on
one entry, by which its node is rewritten. So a commit below a table rewrites all its nodes, by
induction on the level.
-/

namespace Remap.PageTable

def Action.unplaced : Action → Action
  | .enter _ below => .enter 0 below
  | action => action

namespace Edit

variable {edit : Edit} {level address slot origin child : Nat} {parent below : Attribute}
  {index : Fin tableEntries} {current entry : Entry} {action : Action} {table : Table}
  {before between after : Progress}

theorem action_unplaced : edit.action level slot parent current.unplaced =
    Action.unplaced <$> edit.action level slot parent current := by
  cases current with
  | absent =>
      rw [Entry.unplaced, action_absent]
      · split
        next =>
          split
          next => split <;> rfl
          next => rfl
        next => rfl
      · exact fun _ _ => Entry.noConfusion
  | table pointed attr =>
      rw [Entry.unplaced, action_table, action_table]
      cases complete : edit.writesLeaf level slot (.table pointed attr) with
      | true =>
          have same : edit.writesLeaf level slot (.table 0 attr) = true := complete
          rw [same]
          rfl
      | false =>
          have same : edit.writesLeaf level slot (.table 0 attr) = false := complete
          rw [same]
          rfl
  | leaf size attr =>
      rw [Entry.unplaced, action_leaf]
      · split
        next => rfl
        next =>
          dsimp only
          split <;> rfl
      · exact fun _ _ => Entry.noConfusion

theorem action_node (acted : edit.action (level + 1) slot parent
      (before.space.memory.view.entry (level + 1) address index) = .ok action) :
    edit.action (level + 1) slot parent
      ((before.space.memory.view.nodes (level + 1) address index).entry (level + 1)) =
        .ok action.unplaced := by
  rw [Tables.entry] at acted
  rw [Tables.nodes, Tables.entry_node, action_unplaced, acted]
  rfl

section Entries

theorem kept_rework (owns : before.space.Owns (level + 1) address)
    (acted : edit.action (level + 1) slot parent
      (before.space.memory.view.entry (level + 1) address index) = .ok .keep) :
    SlotRework edit (level + 1) address parent slot index before before where
  spends := ⟨0, .refl⟩
  separate := (owns.separate index).1
  uses _ used := .inl used
  others _ _ := rfl
  frame _ _ _ _ _ := rfl
  rewrites := .keep (action_node acted)
  marked := .inl rfl

theorem stored_rework (acted : edit.action (level + 1) slot parent
      (before.space.memory.view.entry (level + 1) address index) = .ok (.store entry))
    (ran : (Commit.setEntry address index entry).Yields before () after) :
    SlotRework edit (level + 1) address parent slot index before after := by
  obtain ⟨puts, -⟩ := Commit.yields_setEntry ran
  have plain : Workspace.Plain (.decode entry.encode (level + 1)) := by
    obtain ⟨writes, rfl⟩ := store_cases acted
    exact Workspace.plain_leafAt (Nat.succ_pos level) (writes_of_writesLeaf writes).low
  have word_eq : (after.space.memory.view address).word index = entry.encode := by
    rw [puts.here, Table.word_setWord_same]
  have node_eq : after.space.memory.view.nodes (level + 1) address index = .plain entry.encode := by
    rw [Tables.nodes, word_eq, Tables.node_plain plain]
  constructor
  · exact ⟨0, Commit.yields_setEntry_spends ran⟩
  · rw [Tables.entry, word_eq]
    exact plain.tidy.separate
  · intro target used
    rw [Tables.entry, word_eq] at used
    exact absurd used plain.not_uses
  · intro other apart
    rw [puts.here, Table.word_setWord_other apart]
  · intro target apart has _ _
    exact puts.elsewhere target has apart
  · rw [node_eq]
    exact .store (action_node acted)
  · rcases Commit.yields_setEntry_cases ran with ⟨-, idle⟩ | ⟨differs, marked, -⟩
    · exact .inl idle
    · refine .inr ⟨marked, .inr ?_⟩
      rw [node_eq, Tables.nodes]
      rcases before.space.memory.view.node_cases level
        ((before.space.memory.view address).word index) with ⟨_, _, -, other⟩ | ⟨-, same⟩
      · rw [other]
        exact Node.noConfusion
      · rw [same]
        exact fun same => differs (Node.plain.inj same).symm

theorem entered_rework {pointed : UInt64} {attr : Attribute}
    (owns : before.space.Owns (level + 1) address)
    (found : before.space.memory.view.entry (level + 1) address index = .table pointed attr)
    (acted : edit.action (level + 1) slot parent
      (before.space.memory.view.entry (level + 1) address index) = .ok (.enter pointed.toNat below))
    {slots : List (Fin tableEntries)}
    (worked : TableRework edit level pointed.toNat below slot slots before after)
    (inner : ∀ place, edit.Rewrites level below (slot + place.val * levelSize level)
      (before.space.memory.view.nodes level pointed.toNat place)
      (after.space.memory.view.nodes level pointed.toNat place)) :
    SlotRework edit (level + 1) address parent slot index before after := by
  have unused := (owns.separate index).2.1
  rw [found] at unused
  have kept := worked.frame address (owns.has address (.inl rfl)) unused
    (owns.apart address (.inl rfl))
  have entry_eq : after.space.memory.view.entry (level + 1) address index =
      .table pointed attr := by
    rw [← found, Tables.entry, kept, Tables.entry]
  have before_eq : before.space.memory.view.nodes (level + 1) address index =
      .table (Entry.marks ((before.space.memory.view address).word index))
        (before.space.memory.view.nodes level pointed.toNat) := Tables.node_table found
  have after_eq : after.space.memory.view.nodes (level + 1) address index =
      .table (Entry.marks ((before.space.memory.view address).word index))
        (after.space.memory.view.nodes level pointed.toNat) := by
    rw [← kept]
    exact Tables.node_table entry_eq
  constructor
  · exact worked.spends
  · rw [entry_eq]
    exact worked.separate
  · rw [entry_eq, found]
    exact worked.spans
  · intro other _
    rw [kept]
  · intro target _ has outside unspare
    rw [found] at outside
    exact worked.frame target has outside unspare
  · have entered := action_node acted
    rw [before_eq] at entered ⊢
    rw [after_eq]
    exact .enter entered inner
  · rcases worked.marked with idle | ⟨marked, changed⟩
    · exact .inl idle
    · refine .inr ⟨marked, changed.imp_right ?_⟩
      rintro ⟨place, -, differs⟩ same
      rw [before_eq, after_eq] at same
      exact differs (congrFun (Node.table.inj same).2 place)

structure Pointed (level address : Nat) (index : Fin tableEntries) (child : Nat) (table : Table)
    (before between : Progress) : Prop extends
    Linked level address index child table before between where
  found : Entry.decode (Entry.pointer child).encode (level + 1) = .pointer child
  number : (UInt64.ofNat child).toNat = child
  modified : between.modified = true

theorem yields_link_pointed (inner : level ≠ 0) (owns : before.space.Owns (level + 1) address)
    (fits : before.space.Addressable)
    (plain : Workspace.Plain (before.space.memory.view.entry (level + 1) address index))
    (parts : ∀ place, Workspace.Plain (.decode (table.word place) level))
    (ran : (Commit.link address index table).Yields before child between) :
    Pointed level address index child table before between := by
  have self := owns.has address (.inl rfl)
  have linked := Commit.yields_link self (owns.apart address (.inl rfl))
    (fun _ place _ => (parts place).not_uses) ran
  have small : child < spaceSize :=
    fits child (linked.grown.has.of_size_eq linked.spends.size_eq.symm) linked.grown.took
  have found := Entry.decode_encode_pointer (by omega : level + 1 ≠ 1) linked.grown.has.1 small
  refine ⟨linked, found, ?_, ?_⟩
  · rw [UInt64.toNat_ofNat']
    simp only [spaceSize, Nat.reduceShiftLeft] at *
    omega
  · obtain ⟨page, middle, allocated, ran⟩ := Commit.yields_bind ran
    obtain ⟨done, last, stored, ran⟩ := Commit.yields_bind ran
    obtain ⟨rfl, rfl⟩ := Commit.yields_pure ran
    rcases Commit.yields_setEntry_cases stored with ⟨same, -⟩ | ⟨-, marked, -⟩
    · have self_eq : middle.space.memory.view address = before.space.memory.view address := by
        apply (Commit.yields_allocate allocated).1.elsewhere address self
        rintro rfl
        exact owns.apart address (.inl rfl) linked.grown.took
      rw [Tables.entry, ← self_eq, same, found] at plain
      exact absurd rfl (plain _ _)
    · exact marked

theorem linked_rework (owns : before.space.Owns (level + 1) address)
    (linked : Pointed level address index child table before between)
    (plain : Workspace.Plain (before.space.memory.view.entry (level + 1) address index))
    {slots : List (Fin tableEntries)}
    (worked : TableRework edit level child below slot slots between after)
    (rewrites : edit.Rewrites (level + 1) parent slot
      (.plain ((before.space.memory.view address).word index))
      (.table Attribute.grantMask (after.space.memory.view.nodes level child))) :
    SlotRework edit (level + 1) address parent slot index before after := by
  obtain ⟨count, spends⟩ := worked.spends
  have unspare := owns.apart address (.inl rfl)
  have kept := worked.frame address (linked.spends.has (owns.has address (.inl rfl)))
    (linked.grown.outside unspare) fun spare => unspare (linked.spends.spare spare)
  have word_eq : (after.space.memory.view address).word index = (Entry.pointer child).encode := by
    rw [kept, linked.here, Table.word_setWord_same]
  have entry_eq : after.space.memory.view.entry (level + 1) address index = .pointer child := by
    rw [Tables.entry, word_eq, linked.found]
  have before_eq : before.space.memory.view.nodes (level + 1) address index =
      .plain ((before.space.memory.view address).word index) := Tables.node_plain plain
  have after_eq : after.space.memory.view.nodes (level + 1) address index =
      .table Attribute.grantMask (after.space.memory.view.nodes level child) := by
    rw [Tables.nodes, Tables.node_table entry_eq, word_eq, Entry.marks_pointer, linked.number]
  constructor
  · exact ⟨1 + count, linked.spends.trans spends⟩
  · rw [entry_eq, Entry.pointer]
    have separate := worked.separate
    rw [← linked.number] at separate
    exact separate
  · intro target used
    rw [entry_eq] at used
    have spanned : after.space.memory.view.Spans level child target := by
      rw [← linked.number]
      exact used
    rcases worked.spans target spanned with middle | gained
    · rw [linked.grown.only middle]
      exact .inr (spends.gained_after linked.gained)
    · exact .inr (linked.spends.gained_before gained)
  · intro other apart
    rw [kept, linked.here, Table.word_setWord_other apart]
  · intro target apart has _ unused
    rw [worked.frame target (linked.spends.has has) (linked.grown.outside unused)
      fun spare => unused (linked.spends.spare spare)]
    exact linked.elsewhere target apart has unused
  · rw [before_eq, after_eq]
    exact rewrites
  · have marked : after.modified = true := by
      rcases worked.marked with rfl | ⟨marked, -⟩
      · exact linked.modified
      · exact marked
    refine .inr ⟨marked, .inr ?_⟩
    rw [before_eq, after_eq]
    exact Node.noConfusion

end Entries

theorem rewritten
    (rework : TableRework edit level address parent origin (edit.slots level origin) before after)
    (index : Fin tableEntries) :
    edit.Rewrites level parent (origin + index.val * levelSize level)
      (before.space.memory.view.nodes level address index)
      (after.space.memory.view.nodes level address index) := by
  by_cases member : index ∈ edit.slots level origin
  · exact rework.rewrites index member
  · rw [rework.others index member]
    apply Rewrites.apart
    exact Bool.eq_false_iff.mpr fun met => member (mem_slots.mpr met)

def Reworks (edit : Edit) (level slot : Nat)
    (descend : (address : Nat) → (parent : Attribute) → (origin : Nat) → Commit Unit) : Prop :=
  ∀ (address : Nat) (parent : Attribute) (before after : Progress), parent.Grants →
    before.space.Addressable → before.space.Owns level address →
    (descend address parent slot).Yields before () after →
    TableRework edit level address parent slot (edit.slots level slot) before after

variable {descend : (address : Nat) → (parent : Attribute) → (origin : Nat) → Commit Unit}

theorem linkedEntry_rework (lower : edit.Reworks level slot descend) (inner : level ≠ 0)
    (grants : below.Grants) (fits : before.space.Addressable)
    (owns : before.space.Owns (level + 1) address)
    (plain : Workspace.Plain (before.space.memory.view.entry (level + 1) address index))
    (parts : ∀ place, Workspace.Plain (.decode (table.word place) level))
    (rewrites : ∀ entries : Fin tableEntries → Node,
      (∀ place, edit.Rewrites level below (slot + place.val * levelSize level)
        (.plain (table.word place)) (entries place)) →
      edit.Rewrites (level + 1) parent slot
        (.plain ((before.space.memory.view address).word index))
        (.table Attribute.grantMask entries))
    (ran : (do
        let child ← Commit.link address index table
        descend child below slot : Commit Unit).Yields before () after) :
    SlotRework edit (level + 1) address parent slot index before after := by
  obtain ⟨child, between, ran, descended⟩ := Commit.yields_bind ran
  have linked := yields_link_pointed inner owns fits plain parts ran
  have worked := lower child below between after grants (linked.spends.addressable fits)
    linked.grown.owns descended
  apply linked_rework owns linked plain worked
  apply rewrites
  intro place
  rw [← linked.grown.nodes parts]
  exact rewritten worked place

section Aligned

variable (start : edit.start % pageBytes = 0) (length : edit.length % pageBytes = 0)

include start length

theorem inner_of_onward {next : Nat × Source × Attribute} (aligned : slot % pageBytes = 0)
    (met : edit.meets slot (levelSize (level + 1)) = true) (plain : Workspace.Plain current)
    (acted : edit.action (level + 1) slot parent current = .ok action)
    (onward : action.onward = some next) : level ≠ 0 :=
  inner_of_not_writesLeaf start length aligned met plain (not_writesLeaf_of_onward acted onward)

theorem commitEntry_rework (aligned : slot % pageBytes = 0)
    (met : edit.meets slot (levelSize (level + 1)) = true)
    (lower : level ≠ 0 → edit.Reworks level slot descend) (grants : parent.Grants)
    (fits : before.space.Addressable) (owns : before.space.Owns (level + 1) address)
    (ran : (edit.commitEntry descend level address parent slot index).Yields before () after) :
    SlotRework edit (level + 1) address parent slot index before after := by
  have new : (Attribute.permissive.inherit parent).Grants :=
    Attribute.grants_permissive.inherit grants
  obtain ⟨action, acted, ran⟩ := yields_commitEntry ran
  cases action with
  | keep =>
      obtain ⟨-, rfl⟩ := Commit.yields_pure ran
      exact kept_rework owns acted
  | store entry => exact stored_rework acted ran
  | enter target below =>
      obtain ⟨pointed, attr, found, rfl, rfl⟩ := enter_cases acted
      have inner : level ≠ 0 := by
        have := Entry.decode_table found
        omega
      have worked := lower inner pointed.toNat _ before after
        ((Entry.decode_table_grants found).inherit grants) fits
        ((owns.ownsSlots [index]).owns (List.mem_singleton_self index) found) ran
      exact entered_rework owns found acted worked (rewritten worked)
  | grow below =>
      obtain ⟨found, rfl⟩ := grow_cases acted
      have plain := Workspace.plain_of_absent found
      have inner := inner_of_onward start length aligned met plain acted rfl
      apply linkedEntry_rework (lower inner) inner new fits owns plain Workspace.plain_blank ?_ ran
      intro entries rewrites
      apply Rewrites.grow inner acted
      intro place
      have rewritten := rewrites place
      rw [Table.word_blank] at rewritten
      exact rewritten
  | split leaf below =>
      obtain ⟨size, attr, found, rfl, rfl⟩ := split_cases acted
      have plain := Workspace.plain_of_leaf found
      have inner := inner_of_onward start length aligned met plain acted rfl
      have whole := (Entry.decode_leaf found).2.inherit grants
      apply linkedEntry_rework (lower inner) inner new fits owns plain
        (Workspace.plain_part whole (Nat.pos_of_ne_zero inner)) ?_ ran
      intro entries rewrites
      apply Rewrites.split inner acted
      intro place
      have rewritten := rewrites place
      rw [Table.word_ofParts] at rewritten
      exact rewritten

omit start length in
theorem loop_rework {body : Fin tableEntries → Commit Unit} {slots : List (Fin tableEntries)}
    (each : ∀ index ∈ slots, ∀ before after : Progress, before.space.Addressable →
      before.space.Owns level address → (body index).Yields before () after →
      TableRework edit level address parent origin [index] before after)
    (distinct : slots.Nodup) (fits : before.space.Addressable)
    (owns : before.space.Owns level address) (ran : (slots.forM body).Yields before () after) :
    TableRework edit level address parent origin slots before after := by
  induction slots generalizing before with
  | nil =>
      obtain ⟨-, rfl⟩ := Commit.yields_pure ran
      exact .nil owns
  | cons index rest induction =>
      obtain ⟨fresh, distinct⟩ := List.nodup_cons.mp distinct
      obtain ⟨done, between, first, others⟩ := Commit.yields_bind ran
      have here := each index List.mem_cons_self before between fits owns first
      obtain ⟨count, spends⟩ := here.spends
      have there := induction (fun index member => each index (List.mem_cons_of_mem _ member))
        distinct (spends.addressable fits) (here.owns owns) others
      exact here.cons there fresh

/-- Committing the edit below a table rewrites its nodes. -/
theorem commitBelow_reworks (positive : level ≠ 0) (aligned : origin % levelSize (level + 1) = 0) :
    edit.Reworks level origin (edit.commitBelow level) := by
  induction level generalizing origin with
  | zero => exact absurd rfl positive
  | succ level induction =>
      intro address parent before after grants fits owns ran
      rw [commitBelow] at ran
      refine loop_rework ?_ (slots_nodup edit (level + 1) origin) fits owns ran
      intro index member before after fits owns ran
      have met := mem_slots.mp member
      have slotAligned := slot_aligned aligned positive index.val
      exact (commitEntry_rework start length (page_of_slot slotAligned) met
        (fun inner => induction inner slotAligned) grants fits owns ran).table owns

end Aligned

end Edit

end Remap.PageTable
