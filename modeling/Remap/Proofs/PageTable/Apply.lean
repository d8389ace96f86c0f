import Remap.Proofs.PageTable.Commit

/-!
# An edit of a whole tree

An edit that succeeds makes of every page of the tree what it makes of that page
alone, whether or not there was a tree before.
-/

namespace Remap.PageTable

namespace Workspace

variable {space after : Workspace} {levels linear : Nat} {edit : Edit}

def Uses (space : Workspace) (levels address : Nat) : Prop :=
  space.root ≠ 0 ∧ space.memory.view.Uses (levels + 1) (.pointer space.root) address

def page (space : Workspace) (levels linear : Nat) : Option Attribute :=
  if space.root = 0 then none
  else space.memory.view.page (levels + 1) (.pointer space.root) linear

structure Sound (space : Workspace) (levels : Nat) : Prop where
  ready : space.Ready
  number : (UInt64.ofNat space.root).toNat = space.root
  holds : space.root ≠ 0 → space.Holds (levels + 1) (.pointer space.root)

structure Reshaped (levels : Nat) (before after : Workspace) : Prop where
  follows : before.Follows after
  number : (UInt64.ofNat after.root).toNat = after.root
  tidy : after.root ≠ 0 → after.memory.view.Tidy (levels + 1) (.pointer after.root)
  uses : ∀ address, after.Uses levels address →
    before.Uses levels address ∨ before.Took after address

structure Edited (edit : Edit) (levels : Nat) (before after : Workspace) : Prop
    extends Reshaped levels before after where
  page : ∀ linear, linear < levelSize (levels + 1) → linear % pageBytes = 0 →
    after.page levels linear = edit.revise linear (before.page levels linear)

theorem Reshaped.refl (sound : space.Sound levels) : Reshaped levels space space where
  follows := .refl sound.ready
  number := sound.number
  tidy := fun rooted => (sound.holds rooted).tidy
  uses _ used := .inl used

theorem edited_self (sound : space.Sound levels)
    (same : ∀ linear, edit.revise linear (space.page levels linear) = space.page levels linear) :
    Edited edit levels space space where
  toReshaped := .refl sound
  page linear _ _ := (same linear).symm

end Workspace

namespace Edit

open Workspace

variable {edit : Edit} {before last : Progress} {root : Nat}

theorem reshaped_of_revision {levels : Nat} {old between after : Workspace}
    {change : Nat → Option Attribute → Option Attribute}
    (number : (UInt64.ofNat root).toNat = root) (follows : old.Follows between)
    (uses : ∀ address, between.memory.view.Uses (levels + 1) (.pointer root) address →
      old.Uses levels address ∨ old.Took between address)
    (revised : TableRevision change levels (.ofNat root) 0 between after) :
    Reshaped levels old { after with root } := by
  have later : between.Follows { after with root } :=
    ⟨revised.follows.size_eq, revised.follows.base_eq, revised.follows.remaining_le,
      revised.follows.remaining_aligned⟩
  refine ⟨follows.trans later, number, fun _ => revised.tidy, ?_⟩
  rintro address ⟨-, used⟩
  rcases revised.uses address used with middle | took
  · rcases uses address middle with early | took
    · exact .inl early
    · exact .inr (took.trans_left later)
  · exact .inr (Took.trans_right follows took)

theorem edited_of_revision {levels : Nat} {old between after : Workspace} (rooted : root ≠ 0)
    (number : (UInt64.ofNat root).toNat = root) (follows : old.Follows between)
    (uses : ∀ address, between.memory.view.Uses (levels + 1) (.pointer root) address →
      old.Uses levels address ∨ old.Took between address)
    (page : ∀ linear, between.memory.view.page (levels + 1) (.pointer root) linear =
      old.page levels linear)
    (revised : TableRevision edit.revise levels (.ofNat root) 0 between after) :
    Edited edit levels old { after with root } := by
  refine ⟨reshaped_of_revision number follows uses revised, ?_⟩
  intro linear inside aligned
  have whole := revised.page linear (Nat.zero_le _) (by omega) aligned
  rw [Workspace.page, if_neg rooted, ← page]
  exact whole

theorem rooted_edited (proper : edit.Proper) (sound : before.space.Sound edit.mode.maxLevel)
    (rooted : before.space.root ≠ 0)
    (ran : (edit.commitBelow edit.mode.maxLevel before.space.root .permissive 0).Yields before ()
      last) :
    Edited edit edit.mode.maxLevel before.space
      { last.space with root := before.space.root } := by
  rw [← sound.number] at ran
  apply edited_of_revision rooted sound.number (.refl sound.ready)
  · intro address used
    exact .inl ⟨rooted, used⟩
  · intro linear
    rw [Workspace.page, if_neg rooted]
  · exact commitBelow_revises proper edit.mode.maxLevel_ne_zero (Nat.zero_mod _) sound.ready
      (sound.holds rooted) ran

structure Rooted (level root : Nat) (before after : Workspace) : Prop
    extends Allocated Table.blank root before after where
  rooted : root ≠ 0
  holds : after.Holds (level + 1) (.pointer root)
  alone : ∀ address, after.memory.view.Uses (level + 1) (.pointer root) address → address = root

theorem rooted_of_allocate {between : Progress} (level : Nat) (ready : before.space.Ready)
    (allocated : (Commit.allocate Table.blank).Yields before root between) :
    Rooted level root before.space between.space := by
  have allocated := Workspace.allocated ready allocated
  have stored := allocated.puts.here
  have alone (address : Nat)
      (used : between.space.memory.view.Uses (level + 1) (.pointer root) address) :
      address = root :=
    uses_pointer stored allocated.number plain_blank used
  have has := allocated.puts.has.of_size_eq allocated.puts.size_eq
  refine ⟨allocated, ?_, ⟨tidy_pointer stored allocated.number plain_blank, ?_, ?_⟩, alone⟩
  · rintro rfl
    exact absurd has.2.1 (by decide)
  · intro address used
    rw [alone address used]
    exact has
  · intro address used
    rw [alone address used]
    exact allocated.took.2.2

theorem Rooted.uses {level : Nat} {old between : Workspace} (grown : Rooted level root old between)
    (address : Nat) (used : between.memory.view.Uses (level + 1) (.pointer root) address) :
    old.Uses level address ∨ old.Took between address := by
  rw [grown.alone address used]
  exact .inr grown.took

theorem grown_edited {between : Progress} (proper : edit.Proper)
    (sound : before.space.Sound edit.mode.maxLevel) (unrooted : before.space.root = 0)
    (allocated : (Commit.allocate Table.blank).Yields before root between)
    (ran : (edit.commitBelow edit.mode.maxLevel root .permissive 0).Yields between () last) :
    Edited edit edit.mode.maxLevel before.space { last.space with root } := by
  have grown := rooted_of_allocate edit.mode.maxLevel sound.ready allocated
  rw [← grown.number] at ran
  apply edited_of_revision grown.rooted grown.number grown.follows grown.uses
  · intro linear
    rw [Entry.pointer, Tables.page, entry_pointer grown.puts.here grown.number, Table.word_blank,
      Entry.decode_zero, Tables.page_absent, Workspace.page, if_pos unrooted]
  · exact commitBelow_revises proper edit.mode.maxLevel_ne_zero (Nat.zero_mod _)
      (grown.follows.ready sound.ready) grown.holds ran

theorem commitRoot_edited (proper : edit.Proper) (sound : before.space.Sound edit.mode.maxLevel)
    (ran : edit.commitRoot.Yields before root last) :
    Edited edit edit.mode.maxLevel before.space { last.space with root } := by
  obtain ⟨progress, between, got, ran⟩ := Commit.yields_bind ran
  cases got
  dsimp only at ran
  by_cases rooted : before.space.root = 0
  · rw [if_neg (by simpa using rooted)] at ran
    cases creates : edit.creates with
    | true =>
        rw [creates, if_pos rfl] at ran
        obtain ⟨address, between, allocated, ran⟩ := Commit.yields_bind ran
        obtain ⟨done, final, committed, ran⟩ := Commit.yields_bind ran
        obtain ⟨rfl, rfl⟩ := Commit.yields_pure ran
        exact grown_edited proper sound rooted allocated committed
    | false =>
        rw [creates, if_neg (by decide)] at ran
        obtain ⟨rfl, rfl⟩ := Commit.yields_pure ran
        rw [← rooted]
        apply edited_self sound
        intro linear
        rw [Workspace.page, if_pos rooted, revise_none creates]
  · rw [if_pos rooted] at ran
    obtain ⟨done, between, committed, ran⟩ := Commit.yields_bind ran
    obtain ⟨rfl, rfl⟩ := Commit.yields_pure ran
    exact rooted_edited proper sound rooted committed

theorem commit_edited {space after : Workspace} {outcome : Outcome} (proper : edit.Proper)
    (sound : space.Sound edit.mode.maxLevel) (ran : edit.commit space = (.ok outcome, after)) :
    Edited edit edit.mode.maxLevel space after := by
  rw [commit] at ran
  rcases committed : edit.commitRoot { space, pages := 0, modified := false } with ⟨result, last⟩
  have whole : edit.commitRoot.run { space, pages := 0, modified := false } = (result, last) :=
    committed
  rw [whole] at ran
  cases result with
  | error cause => cases ran
  | ok root =>
      obtain ⟨-, rfl⟩ := Prod.mk.inj ran
      exact commitRoot_edited proper sound committed

theorem checkRange_ok (checked : edit.checkRange = .ok ()) :
    edit.start % pageBytes = 0 ∧ edit.length % pageBytes = 0 ∧
      edit.stop ≤ edit.mode.linearLimit := by
  rw [checkRange] at checked
  split at checked
  next => cases checked
  next aligned =>
    split at checked
    next => cases checked
    next inside =>
      rw [not_or, Decidable.not_not, Decidable.not_not] at aligned
      exact ⟨aligned.1, aligned.2, Nat.le_of_not_lt inside⟩

section Checks

variable {space after : Workspace} {outcome : Outcome} {cause : Error}

theorem apply_unsupported (unsupported : edit.mode.isSupported = false) :
    edit.apply space = (.error (.unsupported edit.mode), space) :=
  if_pos unsupported

theorem apply_empty (supported : edit.mode.isSupported = true) (empty : edit.length = 0) :
    edit.apply space = (.ok .none, space) := by
  rw [apply, if_neg (by simp [supported]), if_pos empty]

theorem apply_invalid (supported : edit.mode.isSupported = true) (length : edit.length ≠ 0)
    (checked : edit.checkRange = .error cause) : edit.apply space = (.error cause, space) := by
  rw [apply, if_neg (by simp [supported]), if_neg length, checked]
  rfl

theorem apply_eq (supported : edit.mode.isSupported = true) (length : edit.length ≠ 0)
    (checked : edit.checkRange = .ok ()) : edit.apply space =
      match edit.demand space.memory space.root with
      | .error cause => (.error cause, space)
      | .ok pages =>
          if space.buffer.remaining < pages * pageBytes then
            (.error (.tooSmall (pages * pageBytes)), space)
          else edit.commit space := by
  rw [apply, if_neg (by simp [supported]), if_neg length, checked]
  rfl

theorem apply_ok (ran : edit.apply space = (.ok outcome, after)) :
    edit.mode.isSupported = true ∧ ((edit.length = 0 ∧ outcome = .none ∧ after = space) ∨
      (edit.length ≠ 0 ∧ edit.checkRange = .ok () ∧
        edit.commit space = (.ok outcome, after))) := by
  cases supported : edit.mode.isSupported with
  | false =>
      rw [apply_unsupported supported] at ran
      cases ran
  | true =>
      by_cases length : edit.length = 0
      · rw [apply_empty supported length] at ran
        cases ran
        exact ⟨rfl, .inl ⟨length, rfl, rfl⟩⟩
      · cases checked : edit.checkRange with
        | error cause =>
            rw [apply_invalid supported length checked] at ran
            cases ran
        | ok =>
            refine ⟨rfl, .inr ⟨length, rfl, ?_⟩⟩
            rw [apply_eq supported length checked] at ran
            split at ran
            next => cases ran
            next =>
              split at ran
              next => cases ran
              next => exact ran

end Checks

/-- An edit that succeeds makes of every page what it makes of that page alone. -/
theorem apply_edited {space after : Workspace} {outcome : Outcome}
    (defined : edit.requested.Defined) (whole : edit.mask.Whole)
    (sound : space.Sound edit.mode.maxLevel) (ran : edit.apply space = (.ok outcome, after)) :
    Edited edit edit.mode.maxLevel space after ∧
      (edit.length ≠ 0 → edit.stop ≤ levelSize (edit.mode.maxLevel + 1)) := by
  obtain ⟨supported, ⟨empty, -, rfl⟩ | ⟨-, checked, committed⟩⟩ := apply_ok ran
  · refine ⟨?_, fun length => absurd empty length⟩
    apply edited_self sound
    intro linear
    apply revise_outside
    rw [stop, empty]
    omega
  · obtain ⟨start, length, inside⟩ := checkRange_ok checked
    have proper : edit.Proper := ⟨defined, whole, supported, start, length⟩
    refine ⟨commit_edited proper sound committed, fun _ => ?_⟩
    rw [← Mode.linearLimit_eq]
    exact inside

end Edit

end Remap.PageTable
