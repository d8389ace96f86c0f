import Remap.Proofs.PageTable.Action

/-!
# Revisions of a table

Work on one entry of a table may change the tables below that entry and take unused
pages, and nothing else. So the rest of the tree maps what it did, and work on one
entry after the other adds up to work on the table.
-/

namespace Remap.PageTable

def Buffer.Spare (buffer : Buffer) (address : Nat) : Prop :=
  buffer.base ≤ address ∧ address < buffer.base + buffer.remaining

theorem Buffer.not_spare_empty {address : Nat} : ¬Buffer.empty.Spare address := by
  rintro ⟨-, below⟩
  exact Nat.not_lt_zero address below

namespace Workspace

variable {before between after : Workspace} {level address : Nat} {entry : Entry}
  {pointed : UInt64}

/-! Work on an entry needs that unused pages exist, and that the tables below the entry are not
among them. It leaves a memory of the same size, and takes pages from the buffer at most. -/

structure Ready (space : Workspace) : Prop where
  base_aligned : space.buffer.base % pageBytes = 0
  remaining_aligned : space.buffer.remaining % pageBytes = 0
  spare : ∀ address, address % pageBytes = 0 → space.buffer.Spare address →
    space.memory.Has address
  small : Memory.firstAddress + space.memory.reserved ≤ spaceSize

structure Holds (space : Workspace) (level : Nat) (entry : Entry) : Prop where
  tidy : space.memory.view.Tidy level entry
  has : ∀ address, space.memory.view.Uses level entry address → space.memory.Has address
  apart : ∀ address, space.memory.view.Uses level entry address → ¬space.buffer.Spare address

structure Follows (before after : Workspace) : Prop where
  size_eq : after.memory.tables.size = before.memory.tables.size
  base_eq : after.buffer.base = before.buffer.base
  remaining_le : after.buffer.remaining ≤ before.buffer.remaining
  remaining_aligned : after.buffer.remaining % pageBytes = 0

def Took (before after : Workspace) (address : Nat) : Prop :=
  address % pageBytes = 0 ∧ before.buffer.Spare address ∧ ¬after.buffer.Spare address

theorem Follows.refl (ready : before.Ready) : before.Follows before :=
  ⟨rfl, rfl, Nat.le_refl _, ready.remaining_aligned⟩

theorem Follows.trans (first : before.Follows between) (second : between.Follows after) :
    before.Follows after where
  size_eq := second.size_eq.trans first.size_eq
  base_eq := second.base_eq.trans first.base_eq
  remaining_le := Nat.le_trans second.remaining_le first.remaining_le
  remaining_aligned := second.remaining_aligned

theorem Follows.spare (follows : before.Follows after) (spare : after.buffer.Spare address) :
    before.buffer.Spare address := by
  have base := follows.base_eq
  have remaining := follows.remaining_le
  rw [Buffer.Spare] at *
  omega

theorem Follows.ready (follows : before.Follows after) (ready : before.Ready) : after.Ready where
  base_aligned := follows.base_eq ▸ ready.base_aligned
  remaining_aligned := follows.remaining_aligned
  spare := by
    intro address aligned spare
    exact (ready.spare address aligned (follows.spare spare)).of_size_eq follows.size_eq
  small := by
    rw [Memory.reserved, follows.size_eq]
    exact ready.small

theorem Took.trans_left (took : before.Took between address) (follows : between.Follows after) :
    before.Took after address :=
  ⟨took.1, took.2.1, fun spare => took.2.2 (follows.spare spare)⟩

theorem Took.trans_right (follows : before.Follows between) (took : between.Took after address) :
    before.Took after address :=
  ⟨took.1, follows.spare took.2.1, took.2.2⟩

theorem Holds.below {attr : Attribute} (holds : before.Holds (level + 1) (.table pointed attr))
    (index : Fin tableEntries) :
    before.Holds level (before.memory.view.entry level pointed.toNat index) where
  tidy := (holds.tidy.2 index).1
  has address uses := holds.has address (.inr ⟨index, uses⟩)
  apart address uses := holds.apart address (.inr ⟨index, uses⟩)

theorem Holds.self_has {attr : Attribute}
    (holds : before.Holds (level + 1) (.table pointed attr)) : before.memory.Has pointed.toNat :=
  holds.has pointed.toNat (.inl rfl)

theorem Holds.self_apart {attr : Attribute}
    (holds : before.Holds (level + 1) (.table pointed attr)) :
    ¬before.buffer.Spare pointed.toNat :=
  holds.apart pointed.toNat (.inl rfl)

theorem Holds.self_unused {attr : Attribute}
    (holds : before.Holds (level + 1) (.table pointed attr)) (index : Fin tableEntries) :
    ¬before.memory.view.Uses level (before.memory.view.entry level pointed.toNat index)
      pointed.toNat :=
  (holds.tidy.2 index).2.1

theorem Holds.of_uses {new : Entry} (holds : before.Holds level entry) (ready : before.Ready)
    (follows : before.Follows after) (tidy : after.memory.view.Tidy level new)
    (uses : ∀ address, after.memory.view.Uses level new address →
      before.memory.view.Uses level entry address ∨ before.Took after address) :
    after.Holds level new where
  tidy := tidy
  has := by
    intro address used
    rcases uses address used with old | took
    · exact (holds.has address old).of_size_eq follows.size_eq
    · exact (ready.spare address took.1 took.2.1).of_size_eq follows.size_eq
  apart := by
    intro address used spare
    rcases uses address used with old | took
    · exact holds.apart address old (follows.spare spare)
    · exact took.2.2 spare

structure TableRevision (change : Nat → Option Attribute → Option Attribute) (level : Nat)
    (pointed : UInt64) (origin : Nat) (before after : Workspace) : Prop where
  follows : before.Follows after
  tidy : after.memory.view.Tidy (level + 1) (.table pointed .permissive)
  uses : ∀ address, after.memory.view.Uses (level + 1) (.table pointed .permissive) address →
    before.memory.view.Uses (level + 1) (.table pointed .permissive) address ∨
      before.Took after address
  frame : ∀ address, before.memory.Has address →
    ¬before.memory.view.Uses (level + 1) (.table pointed .permissive) address →
    ¬before.buffer.Spare address → after.memory.view address = before.memory.view address
  page : ∀ linear, origin ≤ linear → linear < origin + levelSize (level + 1) →
    linear % pageBytes = 0 →
    after.memory.view.page (level + 1) (.table pointed .permissive) linear =
      change linear (before.memory.view.page (level + 1) (.table pointed .permissive) linear)

structure SlotRevision (change : Nat → Option Attribute → Option Attribute) (level : Nat)
    (pointed : UInt64) (index : Fin tableEntries) (slot : Nat) (before after : Workspace) :
    Prop where
  follows : before.Follows after
  tidy : after.memory.view.Tidy level (after.memory.view.entry level pointed.toNat index)
  uses : ∀ address,
    after.memory.view.Uses level (after.memory.view.entry level pointed.toNat index) address →
    before.memory.view.Uses level (before.memory.view.entry level pointed.toNat index) address ∨
      before.Took after address
  others : ∀ other, other ≠ index →
    after.memory.view.entry level pointed.toNat other =
      before.memory.view.entry level pointed.toNat other
  frame : ∀ address, address ≠ pointed.toNat → before.memory.Has address →
    ¬before.memory.view.Uses level (before.memory.view.entry level pointed.toNat index) address →
    ¬before.buffer.Spare address → after.memory.view address = before.memory.view address
  page : ∀ linear, slot ≤ linear → linear < slot + levelSize level → linear % pageBytes = 0 →
    after.memory.view.page level (after.memory.view.entry level pointed.toNat index) linear =
      change linear
        (before.memory.view.page level (before.memory.view.entry level pointed.toNat index) linear)

variable {change further : Nat → Option Attribute → Option Attribute} {origin slot : Nat}
  {index : Fin tableEntries}

theorem TableRevision.holds (revised : TableRevision change level pointed origin before after)
    (ready : before.Ready) (holds : before.Holds (level + 1) (.table pointed .permissive)) :
    after.Holds (level + 1) (.table pointed .permissive) :=
  holds.of_uses ready revised.follows revised.tidy revised.uses

theorem TableRevision.refl (ready : before.Ready)
    (holds : before.Holds (level + 1) (.table pointed .permissive)) :
    TableRevision (fun _ page => page) level pointed origin before before where
  follows := .refl ready
  tidy := holds.tidy
  uses _ used := .inl used
  frame _ _ _ _ := rfl
  page _ _ _ _ := rfl

theorem TableRevision.trans
    (first : TableRevision change level pointed origin before between)
    (second : TableRevision further level pointed origin between after) :
    TableRevision (fun linear page => further linear (change linear page)) level pointed origin
      before after where
  follows := first.follows.trans second.follows
  tidy := second.tidy
  uses := by
    intro address used
    rcases second.uses address used with middle | took
    · rcases first.uses address middle with old | took
      · exact .inl old
      · exact .inr (took.trans_left second.follows)
    · exact .inr (took.trans_right first.follows)
  frame := by
    intro address has unused kept
    have middle : ¬between.memory.view.Uses (level + 1) (.table pointed .permissive) address := by
      intro used
      rcases first.uses address used with old | took
      · exact unused old
      · exact kept took.2.1
    have spare : ¬between.buffer.Spare address := fun spare => kept (first.follows.spare spare)
    rw [second.frame address (has.of_size_eq first.follows.size_eq) middle spare,
      first.frame address has unused kept]
  page := by
    intro linear low high aligned
    rw [second.page linear low high aligned, first.page linear low high aligned]

theorem TableRevision.congr (revised : TableRevision change level pointed origin before after)
    (same : ∀ linear page, origin ≤ linear → linear < origin + levelSize (level + 1) →
      change linear page = further linear page) :
    TableRevision further level pointed origin before after where
  follows := revised.follows
  tidy := revised.tidy
  uses := revised.uses
  frame := revised.frame
  page := by
    intro linear low high aligned
    rw [revised.page linear low high aligned, same linear _ low high]

section Slot

variable (holds : before.Holds (level + 1) (.table pointed .permissive))
  (revised : SlotRevision change level pointed index slot before after)

include holds revised

theorem SlotRevision.same_other {other : Fin tableEntries} (apart : other ≠ index) :
    Tables.SameBelow before.memory.view after.memory.view level
      (before.memory.view.entry level pointed.toNat other) := by
  intro address used
  obtain ⟨-, inner⟩ := holds.tidy
  obtain ⟨-, self, distinct⟩ := inner other
  have whole : before.memory.view.Uses (level + 1) (.table pointed .permissive) address :=
    .inr ⟨other, used⟩
  apply revised.frame address
  · rintro rfl
    exact self used
  · exact holds.has address whole
  · exact distinct index (Ne.symm apart) address used
  · exact holds.apart address whole

theorem SlotRevision.apart_other {other : Fin tableEntries} (apart : other ≠ index)
    (used : before.memory.view.Uses level (before.memory.view.entry level pointed.toNat other)
      address) :
    ¬after.memory.view.Uses level (after.memory.view.entry level pointed.toNat index) address := by
  intro here
  rcases revised.uses address here with old | took
  · exact (holds.tidy.2 other).2.2 index (Ne.symm apart) address used old
  · exact holds.apart address (.inr ⟨other, used⟩) took.2.1

theorem SlotRevision.uses_other {other : Fin tableEntries} (apart : other ≠ index) :
    after.memory.view.Uses level (after.memory.view.entry level pointed.toNat other) address ↔
      before.memory.view.Uses level (before.memory.view.entry level pointed.toNat other)
        address := by
  rw [revised.others other apart]
  exact (revised.same_other holds apart).uses_iff

theorem SlotRevision.tidy_table :
    after.memory.view.Tidy (level + 1) (.table pointed .permissive) := by
  refine ⟨rfl, ?_⟩
  intro place
  by_cases here : place = index
  · subst here
    refine ⟨revised.tidy, ?_, ?_⟩
    · intro used
      rcases revised.uses _ used with old | took
      · exact (holds.tidy.2 place).2.1 old
      · exact holds.apart _ (.inl rfl) took.2.1
    · intro other apart address used otherUsed
      exact revised.apart_other holds apart ((revised.uses_other holds apart).mp otherUsed) used
  · refine ⟨?_, ?_, ?_⟩
    · rw [revised.others place here]
      exact (revised.same_other holds here).tidy (holds.tidy.2 place).1
    · intro used
      exact (holds.tidy.2 place).2.1 ((revised.uses_other holds here).mp used)
    · intro other apart address used otherUsed
      have old := (revised.uses_other holds here).mp used
      by_cases there : other = index
      · subst there
        exact revised.apart_other holds here old otherUsed
      · exact (holds.tidy.2 place).2.2 other apart address old
          ((revised.uses_other holds there).mp otherUsed)

/-- Work on one entry is work on the table. -/
theorem SlotRevision.table (positive : level ≠ 0) (aligned : origin % levelSize (level + 1) = 0)
    (slot_eq : slot = origin + index.val * levelSize level) :
    TableRevision (fun linear page => if slotOf level linear = index then change linear page
      else page) level pointed origin before after where
  follows := revised.follows
  tidy := revised.tidy_table holds
  uses := by
    rintro address (rfl | ⟨place, used⟩)
    · exact .inl (.inl rfl)
    · by_cases here : place = index
      · subst here
        rcases revised.uses address used with old | took
        · exact .inl (.inr ⟨place, old⟩)
        · exact .inr took
      · exact .inl (.inr ⟨place, (revised.uses_other holds here).mp used⟩)
  frame := by
    intro address has unused kept
    apply revised.frame address
    · rintro rfl
      exact unused (.inl rfl)
    · exact has
    · intro used
      exact unused (.inr ⟨index, used⟩)
    · exact kept
  page := by
    intro linear low high page
    rw [Tables.page, Tables.page]
    by_cases here : slotOf level linear = index
    · have range := slotOf_range aligned positive low high
      rw [here, ← slot_eq] at range
      rw [if_pos here, here]
      exact revised.page linear range.1 range.2 page
    · rw [if_neg here, revised.others _ here]
      exact (revised.same_other holds here).page_eq linear

end Slot

end Workspace

end Remap.PageTable
