import Remap.Proofs.PageTable.Counting
import Remap.Proofs.PageTable.Separate

/-!
# Committing takes the pages counted

A commit below a table that the buffer has enough pages for does not fail, and takes as many
pages as were counted. Work on one entry leaves the entries still to come as they were, so
what was counted for them before the commit holds until it gets there. A new table counts as
much as the table that was imagined in its place.
-/

namespace Remap.PageTable

namespace Commit

open Progress

variable {before : Progress} {address : Nat}

theorem pure_yields {α : Type} (value : α) : (pure value : Commit α).Yields before value before :=
  rfl

theorem modify_yields (change : Progress → Progress) :
    (modify change : Commit Unit).Yields before () (change before) :=
  rfl

theorem table_yields (has : before.space.memory.Has address) :
    (Commit.table address).Yields before (before.space.memory.view address) before := by
  have whole : Commit.table address before = (before.space.memory.table address, before) := rfl
  rw [Yields, whole, has.table_eq]

theorem modifyTable_yields (has : before.space.memory.Has address) (change : Table → Table) :
    (modifyTable address change).Yields before () (before.withMemory
      (before.space.memory.modifyPage (Memory.indexOf address) change)) := by
  rw [Yields, modifyTable, has.index_eq]
  rfl

theorem setEntry_yields (has : before.space.memory.Has address) (index : Fin tableEntries)
    (entry : Entry) : ∃ after, (setEntry address index entry).Yields before () after := by
  by_cases changed : (before.space.memory.view address).word index ≠ entry.encode
  · have written := modifyTable_yields has fun table => table.setWord index entry.encode
    refine ⟨{ before.withMemory (before.space.memory.modifyPage (Memory.indexOf address)
      fun table => table.setWord index entry.encode) with modified := true },
      (table_yields has).bind ?_⟩
    rw [if_pos changed]
    exact written.bind (modify_yields _)
  · refine ⟨before, (table_yields has).bind ?_⟩
    rw [if_neg changed]
    exact pure_yields ()

theorem allocate_yields (room : pageBytes ≤ before.space.buffer.remaining)
    (has : before.space.memory.Has
      (before.space.buffer.base + (before.space.buffer.remaining - pageBytes)))
    (table : Table) : ∃ child after, (allocate table).Yields before child after := by
  let buffer : Buffer := { before.space.buffer with
    remaining := before.space.buffer.remaining - pageBytes }
  have taken : takePage.Yields before
      (before.space.buffer.base + (before.space.buffer.remaining - pageBytes))
      (before.withBuffer buffer) := by
    rw [Yields, takePage, Buffer.takePage?, if_neg (Nat.not_lt.mpr room)]
    rfl
  have there : (before.withBuffer buffer).space.memory.Has
      (before.space.buffer.base + (before.space.buffer.remaining - pageBytes)) := by
    rw [memory_withBuffer]
    exact has
  exact ⟨_, _, taken.bind ((modifyTable_yields there fun _ => table).bind (pure_yields _))⟩

end Commit

structure Spends (count : Nat) (before after : Progress) : Prop where
  size_eq : after.space.memory.tables.size = before.space.memory.tables.size
  base_eq : after.space.buffer.base = before.space.buffer.base
  whole_eq : after.space.buffer.size = before.space.buffer.size
  remaining_eq : after.space.buffer.remaining + count * pageBytes = before.space.buffer.remaining
  pages_eq : after.pages = before.pages + count

structure Gained (before after : Progress) (address : Nat) : Prop where
  took : before.space.Took after.space address
  has : after.space.memory.Has address

namespace Spends

variable {before between after : Progress} {count more address : Nat}

theorem refl : Spends 0 before before :=
  ⟨rfl, rfl, rfl, by rw [Nat.zero_mul, Nat.add_zero], rfl⟩

theorem trans (first : Spends count before between) (second : Spends more between after) :
    Spends (count + more) before after where
  size_eq := second.size_eq.trans first.size_eq
  base_eq := second.base_eq.trans first.base_eq
  whole_eq := second.whole_eq.trans first.whole_eq
  remaining_eq := by
    have early := first.remaining_eq
    have late := second.remaining_eq
    rw [Nat.add_mul]
    omega
  pages_eq := by
    rw [second.pages_eq, first.pages_eq, Nat.add_assoc]

theorem has (spends : Spends count before after) (has : before.space.memory.Has address) :
    after.space.memory.Has address :=
  has.of_size_eq spends.size_eq

theorem spare (spends : Spends count before after) (spare : after.space.buffer.Spare address) :
    before.space.buffer.Spare address := by
  have base := spends.base_eq
  have remaining := spends.remaining_eq
  rw [Buffer.Spare] at *
  omega

theorem lends (spends : Spends count before after)
    (lends : before.space.memory.Lends before.space.buffer) :
    after.space.memory.Lends after.space.buffer where
  base_aligned := by
    rw [spends.base_eq]
    exact lends.base_aligned
  remaining_aligned := by
    have remaining := spends.remaining_eq
    have aligned := lends.remaining_aligned
    simp only [pageBytes] at *
    omega
  remaining_le := by
    have remaining := spends.remaining_eq
    have le := lends.remaining_le
    rw [spends.whole_eq]
    omega
  has address aligned spare := spends.has (lends.has address aligned (spends.spare spare))

theorem gained_before (spends : Spends count before between)
    (gained : Gained between after address) : Gained before after address :=
  ⟨⟨gained.took.1, spends.spare gained.took.2.1, gained.took.2.2⟩, gained.has⟩

theorem gained_after (spends : Spends count between after)
    (gained : Gained before between address) : Gained before after address :=
  ⟨⟨gained.took.1, gained.took.2.1, fun spare => gained.took.2.2 (spends.spare spare)⟩,
    spends.has gained.has⟩

end Spends

namespace Commit

variable {before between after : Progress} {address child : Nat} {index : Fin tableEntries}
  {entry : Entry} {table : Table}

theorem yields_modifyTable_memory {change : Table → Table}
    (ran : (modifyTable address change).Yields before () after) :
    ∃ memory, after = before.withMemory memory := by
  cases placed : before.space.memory.index address with
  | error cause =>
      rw [Yields, modifyTable, placed] at ran
      cases ran
  | ok index =>
      rw [Yields, modifyTable, placed] at ran
      cases ran
      exact ⟨_, rfl⟩

theorem yields_takePage_buffer (ran : takePage.Yields before child after) :
    ∃ buffer, after = before.withBuffer buffer := by
  rw [Yields, takePage] at ran
  cases taken : before.space.buffer.takePage? with
  | none =>
      rw [taken] at ran
      cases ran
  | some pair =>
      rw [taken] at ran
      cases ran
      exact ⟨_, rfl⟩

theorem yields_setEntry_cases (ran : (setEntry address index entry).Yields before () after) :
    ((before.space.memory.view address).word index = entry.encode ∧ after = before) ∨
      ((before.space.memory.view address).word index ≠ entry.encode ∧ after.modified = true ∧
        after.pages = before.pages) := by
  obtain ⟨table, between, read, ran⟩ := yields_bind ran
  obtain ⟨-, rfl, rfl⟩ := yields_table read
  split at ran
  next changed =>
    obtain ⟨done, written, modified, ran⟩ := yields_bind ran
    obtain ⟨memory, rfl⟩ := yields_modifyTable_memory modified
    cases ran
    exact .inr ⟨changed, rfl, rfl⟩
  next same =>
    obtain ⟨-, rfl⟩ := yields_pure ran
    exact .inl ⟨Decidable.not_not.mp same, rfl⟩

theorem yields_setEntry_spends (ran : (setEntry address index entry).Yields before () after) :
    Spends 0 before after := by
  obtain ⟨puts, buffer_eq⟩ := yields_setEntry ran
  refine ⟨puts.size_eq, ?_, ?_, ?_, ?_⟩
  · rw [buffer_eq]
  · rw [buffer_eq]
  · rw [buffer_eq, Nat.zero_mul, Nat.add_zero]
  · rcases yields_setEntry_cases ran with ⟨-, rfl⟩ | ⟨-, -, pages_eq⟩
    · rfl
    · exact pages_eq

theorem yields_allocate_gained (ran : (allocate table).Yields before child after) :
    Spends 1 before after ∧ Gained before after child ∧ after.modified = before.modified := by
  obtain ⟨puts, room, child_eq, buffer_eq⟩ := yields_allocate ran
  obtain ⟨page, between, taken, ran⟩ := yields_bind ran
  obtain ⟨done, written, stored, ran⟩ := yields_bind ran
  obtain ⟨rfl, rfl⟩ := yields_pure ran
  obtain ⟨memory, rfl⟩ := yields_modifyTable_memory stored
  obtain ⟨buffer, rfl⟩ := yields_takePage_buffer taken
  have has := puts.has.of_size_eq puts.size_eq
  refine ⟨⟨puts.size_eq, ?_, ?_, ?_, rfl⟩, ⟨⟨has.1, ?_, ?_⟩, has⟩, rfl⟩
  · rw [buffer_eq]
  · rw [buffer_eq]
  · rw [buffer_eq, Nat.one_mul]
    exact Nat.sub_add_cancel room
  · rw [Buffer.Spare, child_eq]
    simp only [pageBytes] at *
    omega
  · rw [buffer_eq, Buffer.Spare, child_eq]
    dsimp only
    omega

end Commit

/-! Work that takes pages changes nothing but unused pages and the tree that it is for: that of one
table, or what is below one entry, and the entry itself. -/

structure TableSpends (level address count : Nat) (before after : Progress) : Prop where
  spends : Spends count before after
  frame : ∀ target, before.space.memory.Has target →
    ¬before.space.memory.view.Spans level address target → ¬before.space.buffer.Spare target →
    after.space.memory.view target = before.space.memory.view target

structure SlotSpends (level address : Nat) (index : Fin tableEntries) (count : Nat)
    (before after : Progress) : Prop where
  spends : Spends count before after
  others : ∀ other, other ≠ index → after.space.memory.view.entry level address other =
    before.space.memory.view.entry level address other
  frame : ∀ target, target ≠ address → before.space.memory.Has target →
    ¬before.space.memory.view.Uses level
      (before.space.memory.view.entry level address index) target →
    ¬before.space.buffer.Spare target →
    after.space.memory.view target = before.space.memory.view target

section Slots

variable {before between after : Progress} {level address count more child : Nat}
  {index : Fin tableEntries} {slots rest : List (Fin tableEntries)}

theorem SlotSpends.refl : SlotSpends level address index 0 before before :=
  ⟨.refl, fun _ _ => rfl, fun _ _ _ _ _ => rfl⟩

theorem SlotSpends.agrees (worked : SlotSpends level address index count before after)
    (owns : before.space.OwnsSlots level address (index :: rest)) {other : Fin tableEntries}
    (member : other ∈ rest) (apart : other ≠ index) :
    before.space.memory.Agrees after.space.memory level
      (before.space.memory.view.entry level address other) := by
  have listed := List.mem_cons_of_mem index member
  intro target used
  have has := owns.has other listed target used
  refine ⟨has, worked.spends.has has, worked.frame target ?_ has ?_ ?_⟩
  · rintro rfl
    exact owns.self_unused other listed used
  · exact owns.distinct other listed index List.mem_cons_self apart.symm target used
  · exact owns.apart other listed target used

theorem SlotSpends.ownsSlots (worked : SlotSpends level address index count before after)
    (owns : before.space.OwnsSlots level address (index :: rest)) (fresh : index ∉ rest) :
    after.space.OwnsSlots level address rest := by
  have apart {other : Fin tableEntries} (member : other ∈ rest) : other ≠ index := by
    rintro rfl
    exact fresh member
  have same {other : Fin tableEntries} (member : other ∈ rest) :=
    (worked.agrees owns member (apart member)).sameBelow
  have used {other : Fin tableEntries} (member : other ∈ rest) {target : Nat}
      (later : after.space.memory.view.Uses level
        (after.space.memory.view.entry level address other) target) :
      before.space.memory.view.Uses level
        (before.space.memory.view.entry level address other) target := by
    rw [worked.others other (apart member)] at later
    exact (same member).uses_iff.mp later
  constructor
  · exact worked.spends.has owns.self_has
  · exact fun spare => owns.self_apart (worked.spends.spare spare)
  · intro other member later
    exact owns.self_unused other (List.mem_cons_of_mem _ member) (used member later)
  · intro other member
    rw [worked.others other (apart member)]
    exact (same member).separate (owns.separate other (List.mem_cons_of_mem _ member))
  · intro other member target later
    exact worked.spends.has
      (owns.has other (List.mem_cons_of_mem _ member) target (used member later))
  · intro other member target later spare
    exact owns.apart other (List.mem_cons_of_mem _ member) target (used member later)
      (worked.spends.spare spare)
  · intro first member second listed different target later also
    exact owns.distinct first (List.mem_cons_of_mem _ member) second
      (List.mem_cons_of_mem _ listed) different target (used member later) (used listed also)

theorem stored_spends (owns : before.space.OwnsSlots level address slots) (entry : Entry) :
    ∃ after, (Commit.setEntry address index entry).Yields before () after ∧
      SlotSpends level address index 0 before after := by
  obtain ⟨after, ran⟩ := Commit.setEntry_yields owns.self_has index entry
  obtain ⟨puts, -⟩ := Commit.yields_setEntry ran
  refine ⟨after, ran, Commit.yields_setEntry_spends ran, ?_, ?_⟩
  · intro other apart
    rw [Tables.entry, puts.here, Table.word_setWord_other apart, Tables.entry]
  · intro target apart has _ _
    exact puts.elsewhere target has apart

theorem entered_spends {pointed : UInt64} {attr : Attribute}
    (owns : before.space.OwnsSlots (level + 1) address slots) (member : index ∈ slots)
    (found : before.space.memory.view.entry (level + 1) address index = .table pointed attr)
    (worked : TableSpends level pointed.toNat count before after) :
    SlotSpends (level + 1) address index count before after := by
  have unused := owns.self_unused index member
  rw [found] at unused
  have kept := worked.frame address owns.self_has unused owns.self_apart
  refine ⟨worked.spends, ?_, ?_⟩
  · intro other _
    rw [Tables.entry, kept, Tables.entry]
  · intro target _ has apart unspare
    rw [found] at apart
    exact worked.frame target has apart unspare

structure Grown (level child : Nat) (table : Table) (before between : Progress) : Prop where
  has : between.space.memory.Has child
  here : between.space.memory.view child = table
  took : before.space.buffer.Spare child
  apart : ¬between.space.buffer.Spare child
  unused : ∀ index target, ¬between.space.memory.view.Uses level
    (between.space.memory.view.entry level child index) target

theorem Grown.only {table : Table} (grown : Grown level child table before between) {target : Nat}
    (spanned : between.space.memory.view.Spans level child target) : target = child := by
  rcases spanned with here | ⟨index, used⟩
  · exact here
  · exact absurd used (grown.unused index target)

theorem Grown.outside {table : Table} (grown : Grown level child table before between)
    {target : Nat} (unspare : ¬before.space.buffer.Spare target) :
    ¬between.space.memory.view.Spans level child target := by
  intro spanned
  rw [grown.only spanned] at unspare
  exact unspare grown.took

theorem Grown.owns {table : Table} (grown : Grown level child table before between) :
    between.space.Owns level child := by
  refine ⟨?_, ?_, ?_⟩
  · intro index
    refine ⟨?_, grown.unused index child, fun _ _ target used => ?_⟩
    · have unused := grown.unused index
      cases level with
      | zero => exact trivial
      | succ level =>
          generalize between.space.memory.view.entry (level + 1) child index = entry at unused
          cases entry with
          | absent => exact trivial
          | leaf size attr => exact trivial
          | table pointed attr => exact absurd (.inl rfl) (unused pointed.toNat)
    · exact absurd used (grown.unused index target)
  · intro target spanned
    rw [grown.only spanned]
    exact grown.has
  · intro target spanned
    rw [grown.only spanned]
    exact grown.apart

theorem grown_spends {table : Table} (owns : before.space.OwnsSlots (level + 1) address slots)
    (linked : SlotSpends (level + 1) address index count before between)
    (grown : Grown level child table before between)
    (worked : TableSpends level child more between after) :
    SlotSpends (level + 1) address index (count + more) before after := by
  have kept := worked.frame address (linked.spends.has owns.self_has)
    (grown.outside owns.self_apart) fun spare => owns.self_apart (linked.spends.spare spare)
  refine ⟨linked.spends.trans worked.spends, ?_, ?_⟩
  · intro other apart
    rw [← linked.others other apart, Tables.entry, kept, Tables.entry]
  · intro target apart has unused unspare
    rw [worked.frame target (linked.spends.has has) (grown.outside unspare)
      fun spare => unspare (linked.spends.spare spare)]
    exact linked.frame target apart has unused unspare

theorem lends_allocate (lends : before.space.memory.Lends before.space.buffer)
    (room : pageBytes ≤ before.space.buffer.remaining) (table : Table) :
    ∃ child between, (Commit.allocate table).Yields before child between := by
  have base := lends.base_aligned
  have remaining := lends.remaining_aligned
  apply Commit.allocate_yields room
  apply lends.has
  · simp only [pageBytes] at *
    omega
  · rw [Buffer.Spare]
    simp only [pageBytes] at *
    omega

structure Linked (level address : Nat) (index : Fin tableEntries) (child : Nat) (table : Table)
    (before between : Progress) : Prop where
  spends : Spends 1 before between
  grown : Grown level child table before between
  here : between.space.memory.view address =
    (before.space.memory.view address).setWord index (Entry.pointer child).encode
  elsewhere : ∀ target, target ≠ address → before.space.memory.Has target →
    ¬before.space.buffer.Spare target →
    between.space.memory.view target = before.space.memory.view target

theorem Linked.gained {table : Table}
    (linked : Linked level address index child table before between) :
    Gained before between child :=
  ⟨⟨linked.grown.has.1, linked.grown.took, linked.grown.apart⟩, linked.grown.has⟩

theorem Commit.yields_link {table : Table} (has : before.space.memory.Has address)
    (unspare : ¬before.space.buffer.Spare address)
    (unused : ∀ tables : Tables, ∀ place target,
      ¬tables.Uses level (.decode (table.word place) level) target)
    (ran : (Commit.link address index table).Yields before child between) :
    Linked level address index child table before between := by
  obtain ⟨page, middle, allocated, ran⟩ := Commit.yields_bind ran
  obtain ⟨done, last, stored, ran⟩ := Commit.yields_bind ran
  obtain ⟨rfl, rfl⟩ := Commit.yields_pure ran
  obtain ⟨spends, gained, -⟩ := Commit.yields_allocate_gained allocated
  obtain ⟨grown, -⟩ := Commit.yields_allocate allocated
  obtain ⟨puts, buffer_eq⟩ := Commit.yields_setEntry stored
  have apart : child ≠ address := by
    rintro rfl
    exact unspare gained.took.2.1
  have here : between.space.memory.view child = table := by
    rw [puts.elsewhere child gained.has apart, grown.here]
  refine ⟨spends.trans (Commit.yields_setEntry_spends stored), ⟨?_, here, gained.took.2.1, ?_, ?_⟩,
    ?_, ?_⟩
  · exact gained.has.of_size_eq puts.size_eq
  · rw [buffer_eq]
    exact gained.took.2.2
  · intro place target
    rw [Tables.entry, here]
    exact unused _ place target
  · rw [puts.here, grown.elsewhere address has apart.symm]
  · intro target other exists_ unspare
    have fresh : target ≠ child := by
      rintro rfl
      exact unspare gained.took.2.1
    rw [puts.elsewhere target (exists_.of_size_eq grown.size_eq) other,
      grown.elsewhere target exists_ fresh]

theorem Linked.slotSpends {table : Table}
    (linked : Linked level address index child table before between) :
    SlotSpends (level + 1) address index 1 before between := by
  refine ⟨linked.spends, ?_, fun target apart has _ => linked.elsewhere target apart has⟩
  intro other apart
  rw [Tables.entry, linked.here, Table.word_setWord_other apart, Tables.entry]

theorem linked_spends (index : Fin tableEntries)
    (owns : before.space.OwnsSlots (level + 1) address slots)
    (lends : before.space.memory.Lends before.space.buffer)
    (room : pageBytes ≤ before.space.buffer.remaining) {table : Table}
    (unused : ∀ tables : Tables, ∀ place target,
      ¬tables.Uses level (.decode (table.word place) level) target) :
    ∃ child between, (Commit.link address index table).Yields before child between ∧
      Linked level address index child table before between := by
  obtain ⟨child, middle, allocated⟩ := lends_allocate lends room table
  obtain ⟨spends, -, -⟩ := Commit.yields_allocate_gained allocated
  obtain ⟨between, stored⟩ := Commit.setEntry_yields (spends.has owns.self_has) index
    (.pointer child)
  have ran : (Commit.link address index table).Yields before child between :=
    allocated.bind (stored.bind (Commit.pure_yields child))
  exact ⟨child, between, ran, Commit.yields_link owns.self_has owns.self_apart unused ran⟩

end Slots

namespace Edit

variable {edit : Edit} {level slot origin address count : Nat} {parent below : Attribute}
  {index : Fin tableEntries} {slots : List (Fin tableEntries)} {before : Progress}
  {descend : (address : Nat) → (parent : Attribute) → (origin : Nat) → Commit Unit}

def Affords (edit : Edit) (level slot : Nat)
    (descend : (address : Nat) → (parent : Attribute) → (origin : Nat) → Commit Unit) : Prop :=
  ∀ (address : Nat) (parent : Attribute) (before : Progress) (count : Nat), parent.Grants →
    before.space.memory.Lends before.space.buffer → before.space.Owns level address →
    edit.demandBelow before.space.memory level (.stored address) parent slot = .ok count →
    count * pageBytes ≤ before.space.buffer.remaining →
    ∃ after, (descend address parent slot).Yields before () after ∧
      TableSpends level address count before after

theorem linkedEntry_spends (affords : edit.Affords level slot descend) (grants : below.Grants)
    (lends : before.space.memory.Lends before.space.buffer)
    (owns : before.space.OwnsSlots (level + 1) address slots) {source : Source} {table : Table}
    (unused : ∀ tables : Tables, ∀ place target,
      ¬tables.Uses level (.decode (table.word place) level) target)
    (imagined : ∀ child between, Grown level child table before between →
      edit.demandBelow between.space.memory level (.stored child) below slot =
        edit.demandBelow before.space.memory level source below slot)
    (counted : (1 + ·) <$> edit.demandBelow before.space.memory level source below slot = .ok count)
    (room : count * pageBytes ≤ before.space.buffer.remaining) :
    ∃ after, (do
        let child ← Commit.link address index table
        descend child below slot : Commit Unit).Yields before () after ∧
      SlotSpends (level + 1) address index count before after := by
  cases lower : edit.demandBelow before.space.memory level source below slot with
  | error cause =>
      rw [lower] at counted
      cases counted
  | ok more =>
      rw [lower] at counted
      cases counted
      have enough : pageBytes + more * pageBytes ≤ before.space.buffer.remaining := by
        rw [Nat.add_mul, Nat.one_mul] at room
        exact room
      obtain ⟨child, between, ran, linked⟩ :=
        linked_spends index owns lends (Nat.le_trans (Nat.le_add_right _ _) enough) unused
      have remaining := linked.spends.remaining_eq
      obtain ⟨after, descended, inner⟩ := affords child below between more grants
        (linked.spends.lends lends) linked.grown.owns
        ((imagined child between linked.grown).trans lower) (by omega)
      exact ⟨after, ran.bind descended, grown_spends owns linked.slotSpends linked.grown inner⟩

theorem blank_unused (tables : Tables) (place : Fin tableEntries) (target : Nat) :
    ¬tables.Uses level (.decode (Table.blank.word place) level) target :=
  (Workspace.plain_blank place).not_uses

theorem grown_blank (level : Nat) {child : Nat} {between : Progress}
    (ran : (Commit.allocate Table.blank).Yields before child between) :
    Grown level child Table.blank before between := by
  obtain ⟨-, gained, -⟩ := Commit.yields_allocate_gained ran
  obtain ⟨puts, -⟩ := Commit.yields_allocate ran
  refine ⟨gained.has, puts.here, gained.took.2.1, gained.took.2.2, ?_⟩
  intro place target
  rw [Tables.entry, puts.here]
  exact blank_unused _ place target

theorem demand_blank {child : Nat} {between : Progress}
    (grown : Grown level child Table.blank before between) :
    edit.demandBelow between.space.memory level (.stored child) below slot =
      edit.demandBelow before.space.memory level .blank below slot := by
  apply demandBelow_congr
  constructor
  · intro index
    rw [Source.entry_stored grown.has, Tables.entry, grown.here, Table.word_blank,
      Entry.decode_zero]
    rfl
  · exact Source.like_blank.agrees

section Parts

variable {leaf : Attribute} (fits : Entry.Fits (level + 1) leaf)

include fits

theorem decode_part (positive : level ≠ 0) (index : Fin tableEntries) :
    Entry.decode ((Table.ofParts leaf level).word index) level = splitEntry leaf level index := by
  rw [Table.word_ofParts]
  exact Entry.decode_encode_leaf (splitEntry_fits (Nat.pos_of_ne_zero positive) fits)

theorem parts_unused (tables : Tables) (place : Fin tableEntries) (target : Nat) :
    ¬tables.Uses level (.decode ((Table.ofParts leaf level).word place) level) target := by
  cases level with
  | zero => exact id
  | succ level =>
      rw [decode_part fits (Nat.succ_ne_zero level)]
      exact id

/-- The parts of a leaf are read back as they were imagined. -/
theorem demand_parts {child : Nat} {between : Progress}
    (grown : Grown level child (Table.ofParts leaf level) before between) :
    edit.demandBelow between.space.memory level (.stored child) below slot =
      edit.demandBelow before.space.memory level (.parts leaf) below slot := by
  cases level with
  | zero => rw [demandBelow, demandBelow]
  | succ level =>
      apply demandBelow_congr
      constructor
      · intro index
        rw [Source.entry_stored grown.has, Tables.entry, grown.here,
          decode_part fits (Nat.succ_ne_zero level)]
        rfl
      · exact Source.like_parts.agrees

end Parts

theorem commitEntry_yields {after : Progress} {action : Action}
    (descend : (address : Nat) → (parent : Attribute) → (origin : Nat) → Commit Unit)
    (has : before.space.memory.Has address)
    (acted : edit.action (level + 1) slot parent
      (before.space.memory.view.entry (level + 1) address index) = .ok action)
    (ran : (perform descend level address slot index action).Yields before () after) :
    (edit.commitEntry descend level address parent slot index).Yields before () after := by
  refine (Commit.table_yields has).bind ?_
  dsimp only
  rw [Tables.entry] at acted
  rw [acted]
  cases action <;> exact ran

theorem commitEntry_spends (affords : edit.Affords level slot descend) (grants : parent.Grants)
    (lends : before.space.memory.Lends before.space.buffer)
    (owns : before.space.OwnsSlots (level + 1) address slots) (member : index ∈ slots)
    (counted : edit.entryDemand before.space.memory level parent slot
      (before.space.memory.view.entry (level + 1) address index) = .ok count)
    (room : count * pageBytes ≤ before.space.buffer.remaining) :
    ∃ after, (edit.commitEntry descend level address parent slot index).Yields before () after ∧
      SlotSpends (level + 1) address index count before after := by
  rw [entryDemand] at counted
  have new : (Attribute.permissive.inherit parent).Grants :=
    Attribute.grants_permissive.inherit grants
  cases acted : edit.action (level + 1) slot parent
      (before.space.memory.view.entry (level + 1) address index) with
  | error cause =>
      rw [acted] at counted
      cases counted
  | ok action =>
      have commits {after : Progress}
          (ran : (perform descend level address slot index action).Yields before () after) :=
        commitEntry_yields descend owns.self_has acted ran
      rw [acted] at counted
      dsimp only at counted
      cases onward : action.onward with
      | none =>
          rw [onward] at counted
          cases counted
          cases action with
          | keep => exact ⟨before, commits (Commit.pure_yields ()), .refl⟩
          | store entry =>
              obtain ⟨after, stored, worked⟩ := stored_spends owns entry
              exact ⟨after, commits stored, worked⟩
          | enter address below => cases onward
          | grow below => cases onward
          | split leaf below => cases onward
      | some next =>
          obtain ⟨pages, source, below⟩ := next
          rw [onward] at counted
          dsimp only at counted
          rcases onward_cases acted onward with
            ⟨pointed, attr, found, rfl⟩ | ⟨-, rfl⟩ | ⟨size, attr, found, rfl⟩
          · cases onward
            have inherited := (Entry.decode_table_grants found).inherit grants
            cases lower : edit.demandBelow before.space.memory level (.stored pointed.toNat)
                (attr.inherit parent) slot with
            | error cause =>
                rw [lower] at counted
                cases counted
            | ok more =>
                rw [lower] at counted
                have more_eq : 0 + more = count := Except.ok.inj counted
                rw [Nat.zero_add] at more_eq
                subst more_eq
                obtain ⟨after, descended, worked⟩ := affords pointed.toNat _ before more inherited
                  lends (owns.owns member found) lower room
                exact ⟨after, commits descended, entered_spends owns member found worked⟩
          · cases onward
            obtain ⟨after, ran, worked⟩ := linkedEntry_spends affords new lends owns blank_unused
              (fun _ _ grown => demand_blank grown) counted room
            exact ⟨after, commits ran, worked⟩
          · cases onward
            have fits := (Entry.decode_leaf found).2.inherit grants
            obtain ⟨after, ran, worked⟩ := linkedEntry_spends affords new lends owns
              (parts_unused fits) (fun _ _ grown => demand_parts fits grown) counted room
            exact ⟨after, commits ran, worked⟩

theorem loop_spends (body : Fin tableEntries → Commit Unit)
    (cost : Memory → Fin tableEntries → Except Error Nat)
    (each : ∀ slots : List (Fin tableEntries), ∀ index ∈ slots, ∀ (before : Progress) (count : Nat),
      before.space.memory.Lends before.space.buffer → before.space.OwnsSlots level address slots →
      cost before.space.memory index = .ok count →
      count * pageBytes ≤ before.space.buffer.remaining →
      ∃ after, (body index).Yields before () after ∧
        SlotSpends level address index count before after)
    (stable : ∀ (before after : Memory) (index : Fin tableEntries), before.Has address →
      after.Has address → after.view.entry level address index =
        before.view.entry level address index →
      before.Agrees after level (before.view.entry level address index) →
      cost after index = cost before index)
    (distinct : slots.Nodup) (lends : before.space.memory.Lends before.space.buffer)
    (owns : before.space.OwnsSlots level address slots)
    (counted : total (cost before.space.memory) slots = .ok count)
    (room : count * pageBytes ≤ before.space.buffer.remaining) :
    ∃ after, (slots.forM body).Yields before () after ∧ Spends count before after ∧
      ∀ target, target ≠ address → before.space.memory.Has target →
        (∀ index ∈ slots, ¬before.space.memory.view.Uses level
          (before.space.memory.view.entry level address index) target) →
        ¬before.space.buffer.Spare target →
        after.space.memory.view target = before.space.memory.view target := by
  induction slots generalizing before count with
  | nil =>
      cases counted
      exact ⟨before, Commit.pure_yields (), .refl, fun _ _ _ _ _ => rfl⟩
  | cons index rest induction =>
      obtain ⟨fresh, distinct⟩ := List.nodup_cons.mp distinct
      obtain ⟨first, others, here, later, rfl⟩ := total_cons_ok counted
      rw [Nat.add_mul] at room
      obtain ⟨between, ran, worked⟩ := each (index :: rest) index List.mem_cons_self before first
        lends owns here (Nat.le_trans (Nat.le_add_right _ _) room)
      have agrees {other : Fin tableEntries} (member : other ∈ rest) :=
        worked.agrees owns member fun same => fresh (same ▸ member)
      have entry_eq {other : Fin tableEntries} (member : other ∈ rest) :=
        worked.others other fun same => fresh (same ▸ member)
      have remaining := worked.spends.remaining_eq
      have recounted : total (cost between.space.memory) rest = .ok others := by
        rw [← later]
        apply total_congr
        intro other member
        exact stable _ _ other owns.self_has (worked.spends.has owns.self_has) (entry_eq member)
          (agrees member)
      obtain ⟨after, onward, spends, frame⟩ := induction distinct (worked.spends.lends lends)
        (worked.ownsSlots owns fresh) recounted (by omega)
      refine ⟨after, ran.bind onward, worked.spends.trans spends, ?_⟩
      intro target apart has unused unspare
      have same := worked.frame target apart has (unused index List.mem_cons_self) unspare
      rw [← same]
      apply frame target apart (worked.spends.has has)
      · intro other member used
        rw [entry_eq member] at used
        exact unused other (List.mem_cons_of_mem _ member)
          ((agrees member).sameBelow.uses_iff.mp used)
      · exact fun spare => unspare (worked.spends.spare spare)

/-- Committing below a table takes the pages counted for it. -/
theorem commitBelow_affords : edit.Affords level origin (edit.commitBelow level) := by
  induction level generalizing origin with
  | zero =>
      intro address parent before count _ _ _ counted _
      cases counted
      exact ⟨before, Commit.pure_yields (), .refl, fun _ _ _ _ => rfl⟩
  | succ level induction =>
      intro address parent before count grants lends owns counted room
      rw [demandBelow_eq] at counted
      have each : ∀ slots : List (Fin tableEntries), ∀ index ∈ slots,
          ∀ (before : Progress) (count : Nat),
          before.space.memory.Lends before.space.buffer →
          before.space.OwnsSlots (level + 1) address slots →
          edit.slotDemand before.space.memory level (.stored address) parent origin index =
            .ok count →
          count * pageBytes ≤ before.space.buffer.remaining →
          ∃ after, (edit.commitEntry (edit.commitBelow level) level address parent
              (origin + index.val * levelSize (level + 1)) index).Yields before () after ∧
            SlotSpends (level + 1) address index count before after := by
        intro slots index member before count lends owns counted room
        rw [slotDemand_stored owns.self_has] at counted
        exact commitEntry_spends induction grants lends owns member counted room
      -- work on one entry leaves what was counted for those that come later
      have stable : ∀ (before after : Memory) (index : Fin tableEntries), before.Has address →
          after.Has address → after.view.entry (level + 1) address index =
            before.view.entry (level + 1) address index →
          before.Agrees after (level + 1) (before.view.entry (level + 1) address index) →
          edit.slotDemand after level (.stored address) parent origin index =
            edit.slotDemand before level (.stored address) parent origin index := by
        intro before after index has later entry_eq agrees
        rw [slotDemand_stored has, slotDemand_stored later, entry_eq]
        exact entryDemand_congr (fun _ _ _ like => demandBelow_congr like) agrees
      obtain ⟨after, ran, spends, frame⟩ := loop_spends _
        (fun memory => edit.slotDemand memory level (.stored address) parent origin)
        each stable (slots_nodup edit (level + 1) origin) lends (owns.ownsSlots _) counted room
      refine ⟨after, ran, spends, ?_⟩
      intro target has outside unspare
      refine frame target ?_ has ?_ unspare
      · rintro rfl
        exact outside (.inl rfl)
      · intro index _ used
        exact outside (.inr ⟨index, used⟩)

end Edit

end Remap.PageTable
