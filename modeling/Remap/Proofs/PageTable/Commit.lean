import Remap.Proofs.PageTable.Revision

/-!
# Committing revises every page

Each way to deal with an entry is work on that entry: storing a leaf, going on in the
table below, or putting a new table there first. By induction on the level a commit
below a table makes of every page what the edit makes of it.
-/

namespace Remap.PageTable

namespace Workspace

variable {before after : Workspace} {level slot child : Nat} {pointed : UInt64}
  {index : Fin tableEntries} {change : Nat → Option Attribute → Option Attribute}

def Plain (entry : Entry) : Prop := ∀ pointed attr, entry ≠ .table pointed attr

theorem Plain.not_uses {tables : Tables} {entry : Entry} {address : Nat} (plain : Plain entry) :
    ¬tables.Uses level entry address := by
  intro used
  cases level with
  | zero => cases used
  | succ level =>
      cases entry with
      | absent => cases used
      | leaf size attr => cases used
      | table pointed attr => exact plain pointed attr rfl

theorem Plain.tidy {tables : Tables} {entry : Entry} (plain : Plain entry) :
    tables.Tidy level entry := by
  cases level with
  | zero => exact trivial
  | succ level =>
      cases entry with
      | absent => exact trivial
      | leaf size attr => exact trivial
      | table pointed attr => exact absurd rfl (plain pointed attr)

theorem Plain.page_eq {tables other : Tables} {entry : Entry} (plain : Plain entry)
    (linear : Nat) : tables.page level entry linear = other.page level entry linear := by
  apply Tables.SameBelow.page_eq
  intro address used
  exact absurd used plain.not_uses

theorem plain_of_absent {entry : Entry} (absent : entry = .absent) : Plain entry := by
  rw [absent]
  exact fun _ _ => Entry.noConfusion

theorem plain_of_leaf {entry : Entry} {size : LeafSize} {attr : Attribute}
    (leaf : entry = .leaf size attr) : Plain entry := by
  rw [leaf]
  exact fun _ _ => Entry.noConfusion

/-- A leaf that is stored is never read back as a pointer, whatever its attribute. -/
theorem plain_leafAt {attr : Attribute} (positive : 1 ≤ level) (low : level ≤ 3) :
    Plain (.decode (Entry.leafAt level attr).encode level) := by
  intro pointed other found
  have inner := Entry.decode_table found
  have large : level = 2 ∨ level = 3 := by omega
  rw [Entry.encode_leafAt large, Entry.decode, if_neg inner, Entry.encodeLarge_size] at found
  split at found
  next => cases found
  next =>
    rw [if_pos ⟨large, by decide⟩] at found
    cases found

theorem plain_blank (place : Fin tableEntries) :
    Plain (.decode (Table.blank.word place) level) := by
  apply plain_of_absent
  rw [Table.word_blank, Entry.decode_zero]

theorem plain_part {leaf : Attribute} (fits : Entry.Fits (level + 1) leaf) (positive : 1 ≤ level)
    (place : Fin tableEntries) : Plain (.decode ((Table.ofParts leaf level).word place) level) := by
  rw [Table.word_ofParts]
  exact plain_leafAt positive (Nat.le_of_succ_le fits.low)

theorem slot_kept (ready : before.Ready)
    (holds : before.Holds (level + 1) (.table pointed .permissive))
    (same : ∀ linear, slot ≤ linear → linear < slot + levelSize level → linear % pageBytes = 0 →
      before.memory.view.page level (before.memory.view.entry level pointed.toNat index) linear =
        change linear (before.memory.view.page level
          (before.memory.view.entry level pointed.toNat index) linear)) :
    SlotRevision change level pointed index slot before before where
  follows := .refl ready
  tidy := (holds.tidy.2 index).1
  uses _ used := .inl used
  others _ _ := rfl
  frame _ _ _ _ _ := rfl
  page := same

theorem entry_setWord_other {tables written : Tables} {word : UInt64} {other : Fin tableEntries}
    (stored : written pointed.toNat = (tables pointed.toNat).setWord index word)
    (apart : other ≠ index) :
    written.entry level pointed.toNat other = tables.entry level pointed.toNat other := by
  rw [Tables.entry, stored, Table.word_setWord_other apart, Tables.entry]

theorem entry_setWord_same {tables written : Tables} {word : UInt64}
    (stored : written pointed.toNat = (tables pointed.toNat).setWord index word) :
    written.entry level pointed.toNat index = .decode word level := by
  rw [Tables.entry, stored, Table.word_setWord_same]

theorem slot_stored {entry : Entry} (ready : before.Ready)
    (puts : before.memory.Puts pointed.toNat
      ((before.memory.view pointed.toNat).setWord index entry.encode) after.memory)
    (buffer_eq : after.buffer = before.buffer) (plain : Plain (.decode entry.encode level))
    (page : ∀ linear, slot ≤ linear → linear < slot + levelSize level → linear % pageBytes = 0 →
      before.memory.view.page level (.decode entry.encode level) linear =
        change linear (before.memory.view.page level
          (before.memory.view.entry level pointed.toNat index) linear)) :
    SlotRevision change level pointed index slot before after where
  follows := {
    size_eq := puts.size_eq
    base_eq := by rw [buffer_eq]
    remaining_le := Nat.le_of_eq (congrArg Buffer.remaining buffer_eq)
    remaining_aligned := by rw [buffer_eq]; exact ready.remaining_aligned }
  tidy := by
    rw [entry_setWord_same puts.here]
    exact plain.tidy
  uses := by
    intro address used
    rw [entry_setWord_same puts.here] at used
    exact absurd used plain.not_uses
  others _ apart := entry_setWord_other puts.here apart
  frame _ apart has _ _ := puts.elsewhere _ has apart
  page := by
    intro linear low high aligned
    rw [entry_setWord_same puts.here, ← page linear low high aligned]
    exact plain.page_eq linear

theorem slot_entered {target : UInt64}
    (holds : before.Holds (level + 1 + 1) (.table pointed .permissive))
    (found : before.memory.view.entry (level + 1) pointed.toNat index = .table target .permissive)
    (revised : TableRevision change level target slot before after) :
    SlotRevision change (level + 1) pointed index slot before after := by
  have self := holds.self_unused index
  rw [found] at self
  have kept : after.memory.view pointed.toNat = before.memory.view pointed.toNat :=
    revised.frame pointed.toNat holds.self_has self holds.self_apart
  have entry_eq (other : Fin tableEntries) :
      after.memory.view.entry (level + 1) pointed.toNat other =
        before.memory.view.entry (level + 1) pointed.toNat other := by
    rw [Tables.entry, kept, Tables.entry]
  constructor
  · exact revised.follows
  · rw [entry_eq, found]
    exact revised.tidy
  · rw [entry_eq, found]
    exact revised.uses
  · intro other _
    exact entry_eq other
  · intro address _
    rw [found]
    exact revised.frame address
  · rw [entry_eq, found]
    exact revised.page

structure Allocated (table : Table) (child : Nat) (before after : Workspace) : Prop where
  puts : before.memory.Puts child table after.memory
  aligned : child % pageBytes = 0
  small : child < spaceSize
  number : (UInt64.ofNat child).toNat = child
  follows : before.Follows after
  took : before.Took after child

theorem allocated {table : Table} {before after : Progress} (ready : before.space.Ready)
    (ran : (Commit.allocate table).Yields before child after) :
    Allocated table child before.space after.space := by
  obtain ⟨puts, enough, child_eq, taken⟩ := Commit.yields_allocate ran
  have base := ready.base_aligned
  have remaining := ready.remaining_aligned
  have aligned : child % pageBytes = 0 := by
    simp only [pageBytes] at *
    omega
  have spare : before.space.buffer.Spare child := by
    rw [Buffer.Spare]
    simp only [pageBytes] at *
    omega
  have small : child < spaceSize :=
    Nat.lt_of_lt_of_le (ready.spare child aligned spare).2.2 ready.small
  refine ⟨puts, aligned, small, ?_, ?_, aligned, spare, ?_⟩
  · rw [UInt64.toNat_ofNat']
    simp only [spaceSize, Nat.reduceShiftLeft] at *
    omega
  · refine ⟨puts.size_eq, ?_, ?_, ?_⟩
    · rw [taken]
    · rw [taken]
      exact Nat.sub_le _ _
    · rw [taken]
      simp only [pageBytes] at *
      omega
  · rw [taken, Buffer.Spare]
    dsimp only
    omega

theorem entry_pointer {tables : Tables} {table : Table} (stored : tables child = table)
    (number : (UInt64.ofNat child).toNat = child) (place : Fin tableEntries) :
    tables.entry level (UInt64.ofNat child).toNat place = .decode (table.word place) level := by
  rw [number, Tables.entry, stored]

theorem tidy_pointer {tables : Tables} {table : Table} (stored : tables child = table)
    (number : (UInt64.ofNat child).toNat = child)
    (plain : ∀ place, Plain (.decode (table.word place) level)) :
    tables.Tidy (level + 1) (.pointer child) := by
  refine ⟨rfl, ?_⟩
  intro place
  rw [entry_pointer stored number]
  refine ⟨(plain place).tidy, (plain place).not_uses, ?_⟩
  intro other _ address used
  exact absurd used (plain place).not_uses

theorem uses_pointer {tables : Tables} {table : Table} {address : Nat}
    (stored : tables child = table) (number : (UInt64.ofNat child).toNat = child)
    (plain : ∀ place, Plain (.decode (table.word place) level))
    (used : tables.Uses (level + 1) (.pointer child) address) : address = child := by
  rcases used with rfl | ⟨place, used⟩
  · exact number
  · rw [entry_pointer stored number] at used
    exact absurd used (plain place).not_uses

/-- A new table is put in place of an entry; it maps what the entry did. -/
theorem slot_linked {table : Table} {before after : Progress} (inner : level + 1 ≠ 1)
    (ready : before.space.Ready)
    (holds : before.space.Holds (level + 1 + 1) (.table pointed .permissive))
    (ran : (Commit.link pointed.toNat index table).Yields before child after)
    (plain : ∀ place, Plain (.decode (table.word place) level))
    (page : ∀ linear, slot ≤ linear → linear < slot + levelSize (level + 1) →
      linear % pageBytes = 0 →
      before.space.memory.view.page level (.decode (table.word (slotOf level linear)) level)
          linear =
        before.space.memory.view.page (level + 1)
          (before.space.memory.view.entry (level + 1) pointed.toNat index) linear) :
    SlotRevision (fun _ page => page) (level + 1) pointed index slot before.space after.space ∧
      after.space.memory.view.entry (level + 1) pointed.toNat index = .pointer child ∧
      (UInt64.ofNat child).toNat = child := by
  obtain ⟨address, between, first, ran⟩ := Commit.yields_bind ran
  obtain ⟨done, last, second, ran⟩ := Commit.yields_bind ran
  obtain ⟨rfl, rfl⟩ := Commit.yields_pure ran
  have allocated := allocated ready first
  obtain ⟨puts, buffer_eq⟩ := Commit.yields_setEntry second
  have apart : child ≠ pointed.toNat := by
    rintro rfl
    exact holds.self_apart allocated.took.2.1
  have table_eq : after.space.memory.view child = table := by
    rw [puts.elsewhere child (allocated.puts.has.of_size_eq allocated.puts.size_eq) apart,
      allocated.puts.here]
  have self_eq : between.space.memory.view pointed.toNat = before.space.memory.view pointed.toNat :=
    allocated.puts.elsewhere pointed.toNat holds.self_has apart.symm
  have here := puts.here
  rw [self_eq] at here
  have entry_eq : after.space.memory.view.entry (level + 1) pointed.toNat index =
      .pointer child := by
    rw [entry_setWord_same here,
      Entry.decode_encode_pointer inner allocated.aligned allocated.small]
  have follows : before.space.Follows after.space := {
    size_eq := puts.size_eq.trans allocated.puts.size_eq
    base_eq := by rw [buffer_eq, allocated.follows.base_eq]
    remaining_le := by rw [buffer_eq]; exact allocated.follows.remaining_le
    remaining_aligned := by rw [buffer_eq]; exact allocated.follows.remaining_aligned }
  have took : before.space.Took after.space child := by
    rw [Took, buffer_eq]
    exact allocated.took
  refine ⟨?_, entry_eq, allocated.number⟩
  constructor
  · exact follows
  · rw [entry_eq]
    exact tidy_pointer table_eq allocated.number plain
  · rw [entry_eq]
    intro address used
    rw [uses_pointer table_eq allocated.number plain used]
    exact .inr took
  · intro other apart
    exact entry_setWord_other here apart
  · intro address other has _ unspare
    have different : address ≠ child := by
      rintro rfl
      exact unspare allocated.took.2.1
    rw [puts.elsewhere address (has.of_size_eq allocated.puts.size_eq) other,
      allocated.puts.elsewhere address has different]
  · intro linear low high aligned
    rw [entry_eq, Entry.pointer, Tables.page, entry_pointer table_eq allocated.number,
      ← page linear low high aligned]
    exact (plain _).page_eq linear

end Workspace

namespace Edit

open Workspace

def perform (descend : (address : Nat) → (parent : Attribute) → (origin : Nat) → Commit Unit)
    (level address slot : Nat) (index : Fin tableEntries) : Action → Commit Unit
  | .keep => return
  | .store entry => Commit.setEntry address index entry
  | .enter child below => descend child below slot
  | .grow below => do
      let child ← Commit.link address index Table.blank
      descend child below slot
  | .split leaf below => do
      let child ← Commit.link address index (Table.ofParts leaf level)
      descend child below slot

variable {edit : Edit} {level address slot origin : Nat} {parent : Attribute} {pointed : UInt64}
  {index : Fin tableEntries} {before after : Progress}
  {descend : (address : Nat) → (parent : Attribute) → (origin : Nat) → Commit Unit}

theorem yields_commitEntry
    (ran : (edit.commitEntry descend level address parent slot index).Yields before () after) :
    ∃ action, edit.action (level + 1) slot parent
        (before.space.memory.view.entry (level + 1) address index) = .ok action ∧
      (perform descend level address slot index action).Yields before () after := by
  obtain ⟨table, between, read, ran⟩ := Commit.yields_bind ran
  obtain ⟨-, rfl, rfl⟩ := Commit.yields_table read
  dsimp only at ran
  rw [Tables.entry]
  cases acted : edit.action (level + 1) slot parent
      (.decode ((between.space.memory.view address).word index) (level + 1)) with
  | error cause =>
      rw [acted] at ran
      exact absurd ran Commit.yields_throw
  | ok action =>
      rw [acted] at ran
      refine ⟨action, rfl, ?_⟩
      cases action <;> exact ran

section Entries

variable (proper : edit.Proper) (aligned : origin % levelSize (level + 1 + 1) = 0)
  (slot_eq : slot = origin + index.val * levelSize (level + 1))
  (lower : level ≠ 0 → ∀ (target : UInt64) (before after : Progress), before.space.Ready →
    before.space.Holds (level + 1) (.table target .permissive) →
    (descend target.toNat .permissive slot).Yields before () after →
    TableRevision edit.revise level target slot before.space after.space)
  (ready : before.space.Ready)
  (holds : before.space.Holds (level + 1 + 1) (.table pointed .permissive))

include aligned slot_eq

theorem place_aligned : slot % levelSize (level + 1) = 0 := by
  rw [slot_eq]
  exact slot_aligned aligned (by omega) index.val

include proper ready holds

theorem stored_revises (writes : edit.Writes (level + 1) slot)
    (includes : edit.mask.includesBase = true) (selected : edit.mask.has .present = true)
    (ran : (Commit.setEntry pointed.toNat index
      (.leafAt (level + 1) (edit.updated .empty slot))).Yields before () after) :
    TableRevision (fun linear page => if slotOf (level + 1) linear = index then
      edit.revise linear page else page) (level + 1) pointed origin before.space after.space := by
  have slotAligned := place_aligned aligned slot_eq
  have positive : 1 ≤ level + 1 := by omega
  obtain ⟨puts, buffer_eq⟩ := Commit.yields_setEntry ran
  apply SlotRevision.table holds _ (by omega) aligned slot_eq
  apply slot_stored ready puts buffer_eq (plain_leafAt positive writes.low)
  intro linear low high page
  exact page_fresh proper writes positive slotAligned includes selected low high page _

theorem refilled_revises {size : LeafSize} {attr : Attribute}
    (writes : edit.Writes (level + 1) slot)
    (found : before.space.memory.view.entry (level + 1) pointed.toNat index = .leaf size attr)
    (ran : (Commit.setEntry pointed.toNat index
      (.leafAt (level + 1) (edit.updated attr slot))).Yields before () after) :
    TableRevision (fun linear page => if slotOf (level + 1) linear = index then
      edit.revise linear page else page) (level + 1) pointed origin before.space after.space := by
  have slotAligned := place_aligned aligned slot_eq
  have positive : 1 ≤ level + 1 := by omega
  obtain ⟨puts, buffer_eq⟩ := Commit.yields_setEntry ran
  have fits := (Entry.decode_leaf found).2
  apply SlotRevision.table holds _ (by omega) aligned slot_eq
  apply slot_stored ready puts buffer_eq (plain_leafAt positive writes.low)
  intro linear low high page
  rw [found, Tables.page]
  exact page_refill proper writes slotAligned fits low high page

omit proper

theorem entered_revises {target : UInt64} {attr : Attribute}
    {change : Nat → Option Attribute → Option Attribute}
    (found : before.space.memory.view.entry (level + 1) pointed.toNat index = .table target attr)
    (descended : (descend target.toNat attr slot).Yields before () after)
    (revises : level ≠ 0 → before.space.Ready →
      before.space.Holds (level + 1) (.table target .permissive) →
      (descend target.toNat .permissive slot).Yields before () after →
      TableRevision change level target slot before.space after.space) :
    TableRevision (fun linear page => if slotOf (level + 1) linear = index then
      change linear page else page) (level + 1) pointed origin before.space after.space := by
  have inner : level ≠ 0 := by
    have := Entry.decode_table found
    omega
  have below := holds.below index
  rw [found] at below
  obtain ⟨rfl, -⟩ := below.tidy
  apply SlotRevision.table holds _ (by omega) aligned slot_eq
  exact slot_entered holds found (revises inner ready below descended)

/-- Going on in a new table that maps what the entry did works on the pages below it. -/
theorem linked_revises {table : Table} {child : Nat} {between : Progress}
    {change : Nat → Option Attribute → Option Attribute} (inner : level ≠ 0)
    (linked : (Commit.link pointed.toNat index table).Yields before child between)
    (descended : (descend child .permissive slot).Yields between () after)
    (revises : between.space.Ready → between.space.Holds (level + 1) (.pointer child) →
      (descend (UInt64.ofNat child).toNat .permissive slot).Yields between () after →
      TableRevision change level (.ofNat child) slot between.space after.space)
    (plain : ∀ place, Plain (.decode (table.word place) level))
    (page : ∀ linear, slot ≤ linear → linear < slot + levelSize (level + 1) →
      linear % pageBytes = 0 →
      before.space.memory.view.page level (.decode (table.word (slotOf level linear)) level)
          linear =
        before.space.memory.view.page (level + 1)
          (before.space.memory.view.entry (level + 1) pointed.toNat index) linear) :
    TableRevision (fun linear page => if slotOf (level + 1) linear = index then
      change linear page else page) (level + 1) pointed origin before.space after.space := by
  obtain ⟨revised, entry_eq, number⟩ := slot_linked (by omega) ready holds linked plain page
  have first := revised.table holds (by omega) aligned slot_eq
  have readied := first.follows.ready ready
  have held := first.holds ready holds
  have below := held.below index
  rw [entry_eq] at below
  rw [← number] at descended
  have entered := slot_entered held entry_eq (revises readied below descended)
  refine (first.trans (entered.table held (by omega) aligned slot_eq)).congr ?_
  intro linear page _ _
  split <;> rfl

theorem grown_revises {child : Nat} {between : Progress}
    {change : Nat → Option Attribute → Option Attribute} (inner : level ≠ 0)
    (found : before.space.memory.view.entry (level + 1) pointed.toNat index = .absent)
    (linked : (Commit.link pointed.toNat index Table.blank).Yields before child between)
    (descended : (descend child .permissive slot).Yields between () after)
    (revises : between.space.Ready → between.space.Holds (level + 1) (.pointer child) →
      (descend (UInt64.ofNat child).toNat .permissive slot).Yields between () after →
      TableRevision change level (.ofNat child) slot between.space after.space) :
    TableRevision (fun linear page => if slotOf (level + 1) linear = index then
      change linear page else page) (level + 1) pointed origin before.space after.space := by
  apply linked_revises aligned slot_eq ready holds inner linked descended revises plain_blank
  intro linear _ _ _
  rw [found, Table.word_blank, Entry.decode_zero, Tables.page_absent, Tables.page_absent]

theorem split_revises {size : LeafSize} {leaf : Attribute} {child : Nat} {between : Progress}
    {change : Nat → Option Attribute → Option Attribute} (inner : level ≠ 0)
    (found : before.space.memory.view.entry (level + 1) pointed.toNat index = .leaf size leaf)
    (linked : (Commit.link pointed.toNat index (Table.ofParts leaf level)).Yields before child
      between)
    (descended : (descend child .permissive slot).Yields between () after)
    (revises : between.space.Ready → between.space.Holds (level + 1) (.pointer child) →
      (descend (UInt64.ofNat child).toNat .permissive slot).Yields between () after →
      TableRevision change level (.ofNat child) slot between.space after.space) :
    TableRevision (fun linear page => if slotOf (level + 1) linear = index then
      change linear page else page) (level + 1) pointed origin before.space after.space := by
  have fits := (Entry.decode_leaf found).2
  have lowest : 1 ≤ level := Nat.pos_of_ne_zero inner
  apply linked_revises aligned slot_eq ready holds inner linked descended revises
    (plain_part fits lowest)
  intro linear _ _ page
  rw [found, Tables.page, Table.word_ofParts]
  exact page_part lowest fits page

include lower

include proper

theorem commitEntry_revises (met : edit.meets slot (levelSize (level + 1)) = true)
    (ran : (edit.commitEntry descend level pointed.toNat .permissive slot index).Yields before ()
      after) :
    TableRevision (fun linear page => if slotOf (level + 1) linear = index then
      edit.revise linear page else page) (level + 1) pointed origin before.space after.space := by
  have slotAligned := place_aligned aligned slot_eq
  obtain ⟨action, acted, ran⟩ := yields_commitEntry ran
  have decides := action_decides acted
  generalize found : before.space.memory.view.entry (level + 1) pointed.toNat index = current
    at decides
  cases decides with
  | skip still =>
      obtain ⟨-, rfl⟩ := Commit.yields_pure ran
      apply SlotRevision.table holds _ (by omega) aligned slot_eq
      apply slot_kept ready holds
      intro linear _ _ _
      rw [found, Tables.page, revise_none still]
  | fill writes creates mask =>
      exact stored_revises proper aligned slot_eq ready holds writes
        (includes_of_maskCreates mask) (selected_of_creates creates).1 ran
  | refill writes =>
      exact refilled_revises proper aligned slot_eq ready holds writes found ran
  | replace writes complete =>
      obtain ⟨includes, selected⟩ := of_isComplete complete
      exact stored_revises proper aligned slot_eq ready holds writes includes selected ran
  | retain same =>
      obtain ⟨-, rfl⟩ := Commit.yields_pure ran
      have fits := (Entry.decode_leaf found).2
      apply SlotRevision.table holds _ (by omega) aligned slot_eq
      apply slot_kept ready holds
      intro linear low high page
      rw [found, Tables.page]
      exact (revise_retained proper slotAligned fits.present same low high page).symm
  | enter =>
      exact entered_revises aligned slot_eq ready holds found ran
        fun inner => lower inner _ before after
  | grow leaf =>
      have inner : level ≠ 0 :=
        inner_of_not_writesLeaf proper.start_aligned proper.length_aligned
          (page_of_slot slotAligned) met (by simp) leaf
      obtain ⟨child, between, linked, descended⟩ := Commit.yields_bind ran
      exact grown_revises aligned slot_eq ready holds inner found linked descended
        (lower inner _ between after)
  | split leaf =>
      have inner : level ≠ 0 :=
        inner_of_not_writesLeaf proper.start_aligned proper.length_aligned
          (page_of_slot slotAligned) met (by simp) leaf
      obtain ⟨child, between, linked, descended⟩ := Commit.yields_bind ran
      exact split_revises aligned slot_eq ready holds inner found linked descended
        (lower inner _ between after)

end Entries

theorem loop_revises {body : Fin tableEntries → Commit Unit} {slots : List (Fin tableEntries)}
    {change : Nat → Option Attribute → Option Attribute}
    (each : ∀ index ∈ slots, ∀ before after : Progress, before.space.Ready →
      before.space.Holds (level + 1) (.table pointed .permissive) →
      (body index).Yields before () after →
      TableRevision (fun linear page => if slotOf level linear = index then change linear page
        else page) level pointed origin before.space after.space)
    (distinct : slots.Nodup) (ready : before.space.Ready)
    (holds : before.space.Holds (level + 1) (.table pointed .permissive))
    (ran : (slots.forM body).Yields before () after) :
    TableRevision (fun linear page => if slots.contains (slotOf level linear) then
      change linear page else page) level pointed origin before.space after.space := by
  induction slots generalizing before with
  | nil =>
      obtain ⟨-, rfl⟩ := Commit.yields_pure ran
      refine (TableRevision.refl ready holds).congr ?_
      intro linear page _ _
      rw [List.contains_nil, if_neg Bool.false_ne_true]
  | cons index rest induction =>
      obtain ⟨done, between, first, others⟩ := Commit.yields_bind ran
      have here := each index List.mem_cons_self before between ready holds first
      obtain ⟨fresh, distinct⟩ := List.nodup_cons.mp distinct
      have there := induction
        (fun index member => each index (List.mem_cons_of_mem _ member)) distinct
        (here.follows.ready ready) (here.holds ready holds) others
      refine (here.trans there).congr ?_
      intro linear page _ _
      rw [List.contains_cons]
      by_cases same : slotOf level linear = index
      · have later : rest.contains index = false :=
          Bool.eq_false_iff.mpr fun listed => fresh (List.contains_iff_mem.mp listed)
        rw [same, beq_self_eq_true, Bool.true_or, later, if_neg Bool.false_ne_true, if_pos rfl,
          if_pos rfl]
      · rw [if_neg same, beq_false_of_ne same, Bool.false_or]

/-- Committing the edit below a table revises every page of it. -/
theorem commitBelow_revises (proper : edit.Proper) (positive : level ≠ 0)
    (aligned : origin % levelSize (level + 1) = 0) (ready : before.space.Ready)
    (holds : before.space.Holds (level + 1) (.table pointed .permissive))
    (ran : (edit.commitBelow level pointed.toNat .permissive origin).Yields before () after) :
    TableRevision edit.revise level pointed origin before.space after.space := by
  induction level generalizing pointed origin before after with
  | zero => exact absurd rfl positive
  | succ level induction =>
      rw [commitBelow] at ran
      have each : ∀ index ∈ edit.slots (level + 1) origin, ∀ before after : Progress,
          before.space.Ready →
          before.space.Holds (level + 1 + 1) (.table pointed .permissive) →
          (edit.commitEntry (edit.commitBelow level) level pointed.toNat .permissive
            (origin + index.val * levelSize (level + 1)) index).Yields before () after →
          TableRevision (fun linear page => if slotOf (level + 1) linear = index then
            edit.revise linear page else page) (level + 1) pointed origin before.space
            after.space := by
        intro index member before after ready holds ran
        have met := mem_slots.mp member
        have slotAligned := slot_aligned aligned positive index.val
        exact commitEntry_revises proper aligned rfl
          (fun inner target before after ready holds ran =>
            induction inner slotAligned ready holds ran)
          ready holds met ran
      refine (loop_revises each (slots_nodup edit (level + 1) origin) ready holds ran).congr ?_
      intro linear page low high
      by_cases member : slotOf (level + 1) linear ∈ edit.slots (level + 1) origin
      · rw [if_pos (List.contains_iff_mem.mpr member)]
      · have range := slotOf_range aligned positive low high
        have apart : edit.meets (origin + (slotOf (level + 1) linear).val * levelSize (level + 1))
            (levelSize (level + 1)) = false :=
          Bool.eq_false_iff.mpr fun met => member (mem_slots.mpr met)
        rw [if_neg (fun listed => member (List.contains_iff_mem.mp listed)),
          revise_of_not_met apart range.1 range.2]

end Edit

end Remap.PageTable
