import Remap.Proofs.PageTable.Memory

/-!
# Commits that take no page

A commit step that succeeds on the buffer without pages took none, so it does the same on
any other buffer and leaves that buffer as it is.
-/

namespace Remap.PageTable

namespace Progress

def lend (progress : Progress) (buffer : Buffer) : Progress :=
  { progress with space := { progress.space with buffer } }

theorem memory_lend (progress : Progress) (buffer : Buffer) :
    (progress.lend buffer).space.memory = progress.space.memory := rfl

end Progress

namespace Commit

def Frugal {α : Type} (step : Commit α) : Prop :=
  ∀ (before : Progress) (value : α) (after : Progress) (buffer : Buffer),
    before.space.buffer = .empty → step.Yields before value after →
    after.space.buffer = .empty ∧ after.pages = before.pages ∧
      step.Yields (before.lend buffer) value (after.lend buffer)

variable {α β : Type} {step : Commit α} {next : α → Commit β}

theorem frugal_pure (value : α) : (pure value : Commit α).Frugal := by
  intro before result after buffer empty ran
  obtain ⟨rfl, rfl⟩ := yields_pure ran
  exact ⟨empty, rfl, rfl⟩

theorem frugal_throw (cause : Error) : (throw cause : Commit α).Frugal :=
  fun _ _ _ _ _ ran => absurd ran yields_throw

theorem Frugal.bind (first : step.Frugal) (onward : ∀ value, (next value).Frugal) :
    (step >>= next).Frugal := by
  intro before value after buffer empty ran
  obtain ⟨middle, between, early, late⟩ := yields_bind ran
  obtain ⟨still, pages, again⟩ := first before middle between buffer empty early
  obtain ⟨none, more, further⟩ := onward middle between value after buffer still late
  exact ⟨none, more.trans pages, again.bind further⟩

theorem frugal_table (address : Nat) : (table address).Frugal := by
  intro before value after buffer empty ran
  have whole (progress : Progress) :
      table address progress = (progress.space.memory.table address, progress) := rfl
  rw [Yields, whole, Prod.mk.injEq] at ran
  obtain ⟨found, rfl⟩ := ran
  refine ⟨empty, rfl, ?_⟩
  rw [Yields, whole, Progress.memory_lend, found]

theorem frugal_modifyTable (address : Nat) (change : Table → Table) :
    (modifyTable address change).Frugal := by
  intro before value after buffer empty ran
  rw [Yields, modifyTable] at ran
  rw [Yields, modifyTable, Progress.memory_lend]
  cases placed : before.space.memory.index address with
  | error cause =>
      rw [placed] at ran
      cases ran
  | ok index =>
      rw [placed] at ran
      cases ran
      exact ⟨empty, rfl, rfl⟩

theorem frugal_takePage : takePage.Frugal := by
  intro before value after buffer empty ran
  obtain ⟨room, -⟩ := yields_takePage ran
  rw [empty] at room
  exact absurd room (by decide)

theorem frugal_mark : (modify fun progress => { progress with modified := true } :
    Commit Unit).Frugal := by
  intro before value after buffer empty ran
  cases ran
  exact ⟨empty, rfl, rfl⟩

theorem frugal_forM {values : List α} {body : α → Commit Unit}
    (each : ∀ value ∈ values, (body value).Frugal) : (values.forM body).Frugal := by
  induction values with
  | nil => exact frugal_pure ()
  | cons value rest induction =>
      apply (each value List.mem_cons_self).bind
      intro _
      exact induction fun other member => each other (List.mem_cons_of_mem _ member)

theorem frugal_setEntry (address : Nat) (index : Fin tableEntries) (entry : Entry) :
    (setEntry address index entry).Frugal := by
  apply (frugal_table address).bind
  intro before
  split
  next => exact (frugal_modifyTable _ _).bind fun _ => frugal_mark
  next => exact frugal_pure ()

theorem frugal_allocate (table : Table) : (allocate table).Frugal :=
  frugal_takePage.bind fun _ => (frugal_modifyTable _ _).bind fun _ => frugal_pure _

theorem frugal_link (address : Nat) (index : Fin tableEntries) (table : Table) :
    (link address index table).Frugal :=
  (frugal_allocate table).bind fun _ => (frugal_setEntry _ _ _).bind fun _ => frugal_pure _

end Commit

namespace Edit

open Commit

variable {edit : Edit} {level : Nat}

theorem frugal_commitEntry
    {descend : (address : Nat) → (parent : Attribute) → (origin : Nat) → Commit Unit}
    (frugal : ∀ address parent origin, (descend address parent origin).Frugal) (address : Nat)
    (parent : Attribute) (slot : Nat) (index : Fin tableEntries) :
    (edit.commitEntry descend level address parent slot index).Frugal := by
  apply (frugal_table address).bind
  intro table
  dsimp only
  cases edit.action (level + 1) slot parent (.decode (table.word index) (level + 1)) with
  | error cause => exact frugal_throw cause
  | ok action =>
      cases action with
      | keep => exact frugal_pure ()
      | store entry => exact frugal_setEntry address index entry
      | enter child below => exact frugal child below slot
      | grow below => exact (frugal_link address index _).bind fun child => frugal child below slot
      | split leaf below =>
          exact (frugal_link address index _).bind fun child => frugal child below slot

theorem frugal_commitBelow (address : Nat) (parent : Attribute) (origin : Nat) :
    (edit.commitBelow level address parent origin).Frugal := by
  induction level generalizing address parent origin with
  | zero => exact frugal_pure ()
  | succ level induction =>
      rw [commitBelow]
      exact frugal_forM fun index _ => frugal_commitEntry induction address parent _ index

def commitFrom (edit : Edit) (root : Nat) : Commit Nat := do
  if root ≠ 0 then
    edit.commitBelow edit.mode.maxLevel root .permissive 0
    return root
  else if edit.creates then
    let root ← Commit.allocate Table.blank
    edit.commitBelow edit.mode.maxLevel root .permissive 0
    return root
  else
    return 0

theorem frugal_commitFrom (root : Nat) : (edit.commitFrom root).Frugal := by
  rw [commitFrom]
  split
  next => exact (frugal_commitBelow root _ _).bind fun _ => frugal_pure root
  next =>
    split
    next =>
      apply (frugal_allocate Table.blank).bind
      intro child
      exact (frugal_commitBelow child _ _).bind fun _ => frugal_pure child
    next => exact frugal_pure 0

theorem commit_eq (space : Workspace) : edit.commit space =
    match edit.commitFrom space.root { space, pages := 0, modified := false } with
    | (.error cause, progress) => (.error cause, progress.space)
    | (.ok root, progress) =>
        (.ok ⟨progress.pages, progress.modified || root != space.root⟩,
          { progress.space with root }) := by
  rw [commit]
  have whole : edit.commitRoot.run { space, pages := 0, modified := false } =
      edit.commitFrom space.root { space, pages := 0, modified := false } := rfl
  rw [whole]
  rcases edit.commitFrom space.root { space, pages := 0, modified := false } with
    ⟨outcome, progress⟩
  cases outcome <;> rfl

/-- A commit that succeeds without pages does the same with any buffer. -/
theorem commit_frugal {memory : Memory} {root : Nat} {outcome : Outcome} {after : Workspace}
    (ran : edit.commit ⟨memory, root, .empty⟩ = (.ok outcome, after)) (buffer : Buffer) :
    outcome.pages = 0 ∧
      edit.commit ⟨memory, root, buffer⟩ = (.ok outcome, { after with buffer }) := by
  rw [commit_eq] at ran
  dsimp only at ran
  rcases worked : edit.commitFrom root ⟨⟨memory, root, .empty⟩, 0, false⟩ with ⟨result, progress⟩
  rw [worked] at ran
  cases result with
  | error cause => cases ran
  | ok child =>
      obtain ⟨-, pages, again⟩ := frugal_commitFrom root _ child progress buffer rfl worked
      cases ran
      refine ⟨pages, ?_⟩
      have lent : edit.commitFrom root ⟨⟨memory, root, buffer⟩, 0, false⟩ =
        (.ok child, progress.lend buffer) := again
      rw [commit_eq]
      dsimp only
      rw [lent]
      rfl

end Edit

end Remap.PageTable
