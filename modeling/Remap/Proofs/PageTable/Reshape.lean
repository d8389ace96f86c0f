import Remap.Proofs.PageTable.Apply
import Remap.Proofs.PageTable.Frugal

/-!
# Trees stay sound under every edit

A mask may select some bits of the base address only. What such an edit makes of a page
depends on the leaf that maps it, but the shape of the tree does not: a stored leaf is never
read back as a pointer, and new tables are taken pages. So every edit between page boundaries
leaves a tidy tree, made of tables that were there and of pages taken.
-/

namespace Remap.PageTable

namespace Workspace

variable {before between after : Workspace} {level origin : Nat} {pointed : UInt64}
  {change : Nat → Option Attribute → Option Attribute}

def TableReshaped (level : Nat) (pointed : UInt64) (origin : Nat) (before after : Workspace) :
    Prop :=
  TableRevision (fun linear _ => after.memory.view.page (level + 1) (.table pointed .permissive)
    linear) level pointed origin before after

theorem TableRevision.reshaped (revised : TableRevision change level pointed origin before after) :
    TableReshaped level pointed origin before after :=
  ⟨revised.follows, revised.tidy, revised.uses, revised.frame, fun _ _ _ _ => rfl⟩

end Workspace

namespace Edit

open Workspace

variable {edit : Edit} {level slot origin : Nat} {pointed : UInt64} {index : Fin tableEntries}
  {before after last : Progress} {root : Nat}

section Entries

variable {descend : (address : Nat) → (parent : Attribute) → (origin : Nat) → Commit Unit}
  (aligned : origin % levelSize (level + 1 + 1) = 0)
  (slot_eq : slot = origin + index.val * levelSize (level + 1))
  (ready : before.space.Ready)
  (holds : before.space.Holds (level + 1 + 1) (.table pointed .permissive))

include aligned slot_eq ready holds

theorem kept_reshapes : TableReshaped (level + 1) pointed origin before.space before.space := by
  have kept : SlotRevision (fun _ page => page) (level + 1) pointed index slot before.space
      before.space :=
    slot_kept ready holds fun _ _ _ _ => rfl
  exact (kept.table holds (by omega) aligned slot_eq).reshaped

theorem stored_reshapes {attr : Attribute} (low : level + 1 ≤ 3)
    (ran : (Commit.setEntry pointed.toNat index (.leafAt (level + 1) attr)).Yields before ()
      after) : TableReshaped (level + 1) pointed origin before.space after.space := by
  obtain ⟨puts, buffer_eq⟩ := Commit.yields_setEntry ran
  have stored : SlotRevision (fun linear _ => before.space.memory.view.page (level + 1)
      (.decode (Entry.leafAt (level + 1) attr).encode (level + 1)) linear) (level + 1) pointed
      index slot before.space after.space :=
    slot_stored ready puts buffer_eq (plain_leafAt (by omega) low) fun _ _ _ _ => rfl
  exact (stored.table holds (by omega) aligned slot_eq).reshaped

variable (start : edit.start % pageBytes = 0) (length : edit.length % pageBytes = 0)
  (lower : level ≠ 0 → ∀ (target : UInt64) (before after : Progress), before.space.Ready →
    before.space.Holds (level + 1) (.table target .permissive) →
    (descend target.toNat .permissive slot).Yields before () after →
    TableReshaped level target slot before.space after.space)

include start length lower

theorem commitEntry_reshapes (met : edit.meets slot (levelSize (level + 1)) = true)
    (ran : (edit.commitEntry descend level pointed.toNat .permissive slot index).Yields before ()
      after) : TableReshaped (level + 1) pointed origin before.space after.space := by
  have slot_aligned := page_of_slot (place_aligned aligned slot_eq)
  obtain ⟨action, acted, ran⟩ := yields_commitEntry ran
  have decides := action_decides acted
  generalize found : before.space.memory.view.entry (level + 1) pointed.toNat index = current
    at decides
  cases decides with
  | skip | retain =>
      obtain ⟨-, rfl⟩ := Commit.yields_pure ran
      exact kept_reshapes aligned slot_eq ready holds
  | fill writes | refill writes | replace writes =>
      exact stored_reshapes aligned slot_eq ready holds writes.low ran
  | enter =>
      exact (entered_revises aligned slot_eq ready holds found ran
        fun inner => lower inner _ before after).reshaped
  | grow leaf =>
      have inner : level ≠ 0 :=
        inner_of_not_writesLeaf start length slot_aligned met (by simp) leaf
      obtain ⟨child, between, linked, descended⟩ := Commit.yields_bind ran
      exact (grown_revises aligned slot_eq ready holds inner found linked descended
        (lower inner _ between after)).reshaped
  | split leaf =>
      have inner : level ≠ 0 :=
        inner_of_not_writesLeaf start length slot_aligned met (by simp) leaf
      obtain ⟨child, between, linked, descended⟩ := Commit.yields_bind ran
      exact (split_revises aligned slot_eq ready holds inner found linked descended
        (lower inner _ between after)).reshaped

end Entries

theorem loop_reshapes {body : Fin tableEntries → Commit Unit} {slots : List (Fin tableEntries)}
    (each : ∀ index ∈ slots, ∀ before after : Progress, before.space.Ready →
      before.space.Holds (level + 1) (.table pointed .permissive) →
      (body index).Yields before () after →
      TableReshaped level pointed origin before.space after.space)
    (ready : before.space.Ready)
    (holds : before.space.Holds (level + 1) (.table pointed .permissive))
    (ran : (slots.forM body).Yields before () after) :
    TableReshaped level pointed origin before.space after.space := by
  induction slots generalizing before with
  | nil =>
      obtain ⟨-, rfl⟩ := Commit.yields_pure ran
      exact (TableRevision.refl ready holds).reshaped
  | cons index rest induction =>
      obtain ⟨done, between, first, others⟩ := Commit.yields_bind ran
      have here := each index List.mem_cons_self before between ready holds first
      have there := induction (fun index member => each index (List.mem_cons_of_mem _ member))
        (here.follows.ready ready) (TableRevision.holds here ready holds) others
      exact (TableRevision.trans here there).reshaped

section Aligned

variable (start : edit.start % pageBytes = 0) (length : edit.length % pageBytes = 0)

include start length

/-- Committing any edit below a table keeps the shape of the tree. -/
theorem commitBelow_reshapes (positive : level ≠ 0) (aligned : origin % levelSize (level + 1) = 0)
    (ready : before.space.Ready)
    (holds : before.space.Holds (level + 1) (.table pointed .permissive))
    (ran : (edit.commitBelow level pointed.toNat .permissive origin).Yields before () after) :
    TableReshaped level pointed origin before.space after.space := by
  induction level generalizing pointed origin before after with
  | zero => exact absurd rfl positive
  | succ level induction =>
      rw [commitBelow] at ran
      apply loop_reshapes _ ready holds ran
      intro index member before after ready holds ran
      have met := mem_slots.mp member
      exact commitEntry_reshapes aligned rfl ready holds start length
        (fun inner target before after ready holds ran =>
          induction inner (slot_aligned aligned positive index.val) ready holds ran)
        met ran

theorem commitFrom_reshaped (before : Progress) (sound : before.space.Sound edit.mode.maxLevel)
    (ran : (edit.commitFrom before.space.root).Yields before root last) :
    Reshaped edit.mode.maxLevel before.space { last.space with root } := by
  rw [commitFrom] at ran
  split at ran
  next rooted =>
    obtain ⟨done, between, committed, ran⟩ := Commit.yields_bind ran
    obtain ⟨rfl, rfl⟩ := Commit.yields_pure ran
    rw [← sound.number] at committed
    have worked := commitBelow_reshapes start length edit.mode.maxLevel_ne_zero (Nat.zero_mod _)
      sound.ready (sound.holds rooted) committed
    exact reshaped_of_revision sound.number (.refl sound.ready)
      (fun address used => .inl ⟨rooted, used⟩) worked
  next unrooted =>
    split at ran
    next =>
      obtain ⟨address, between, allocated, ran⟩ := Commit.yields_bind ran
      obtain ⟨done, final, committed, ran⟩ := Commit.yields_bind ran
      obtain ⟨rfl, rfl⟩ := Commit.yields_pure ran
      have grown := rooted_of_allocate edit.mode.maxLevel sound.ready allocated
      rw [← grown.number] at committed
      have worked := commitBelow_reshapes start length edit.mode.maxLevel_ne_zero (Nat.zero_mod _)
        (grown.follows.ready sound.ready) grown.holds committed
      exact reshaped_of_revision grown.number grown.follows grown.uses worked
    next =>
      obtain ⟨rfl, rfl⟩ := Commit.yields_pure ran
      rw [← Decidable.not_not.mp unrooted]
      exact .refl sound

theorem commit_reshaped {space after : Workspace} {outcome : Outcome}
    (sound : space.Sound edit.mode.maxLevel) (ran : edit.commit space = (.ok outcome, after)) :
    Reshaped edit.mode.maxLevel space after := by
  rw [commit_eq] at ran
  rcases committed : edit.commitFrom space.root { space, pages := 0, modified := false } with
    ⟨result, last⟩
  rw [committed] at ran
  cases result with
  | error cause => cases ran
  | ok root =>
      obtain ⟨-, rfl⟩ := Prod.mk.inj ran
      exact commitFrom_reshaped start length ⟨space, 0, false⟩ sound committed

end Aligned

end Edit

end Remap.PageTable
