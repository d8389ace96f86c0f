import Remap.PageTable.Commit

/-!
# Steps of a commit

A commit step that succeeds leaves a memory of the same size. Storing a table
changes one page, and a new table comes from the unused part of the buffer, whose
pages were reserved behind all others.
-/

namespace Remap.PageTable

theorem ok_of_toOption {α ε : Type} {result : Except ε α} {value : α}
    (found : result.toOption = some value) : result = .ok value := by
  cases result with
  | error cause => cases found
  | ok other => exact congrArg Except.ok (Option.some.inj found)

theorem ran_of_toOption {α ε σ : Type} {run : Except ε α × σ} {value : α}
    (found : run.1.toOption = some value) : run = (.ok value, run.2) :=
  Prod.ext (ok_of_toOption found) rfl

namespace Table

variable {table : Table} {index other : Fin tableEntries} {word : UInt64}

theorem word_setWord_same : (table.setWord index word).word index = word := by
  simp [Table.word, setWord]

theorem word_setWord_other (apart : other ≠ index) :
    (table.setWord index word).word other = table.word other := by
  have places : index.val ≠ other.val := fun same => apart (Fin.ext same.symm)
  simp only [Table.word, setWord, Fin.getElem_fin]
  exact Vector.getElem_set_ne index.isLt other.isLt places

theorem setWord_word : table.setWord index (table.word index) = table := by
  apply Vector.ext
  intro place inside
  rw [setWord, Vector.getElem_set]
  split
  next same => simp [Table.word, same]
  next => rfl

theorem word_blank : blank.word index = 0 := by
  simp [Table.word, blank]

theorem word_ofParts {leaf : Attribute} {level : Nat} :
    (ofParts leaf level).word index = (Edit.splitEntry leaf level index).encode := by
  simp [Table.word, ofParts]

end Table

abbrev Tables := Nat → Table

namespace Memory

variable {memory before after : Memory} {address other index size : Nat} {table : Table}

def Has (memory : Memory) (address : Nat) : Prop :=
  address % pageBytes = 0 ∧ firstAddress ≤ address ∧ address < firstAddress + memory.reserved

def indexOf (address : Nat) : Nat := (address - firstAddress) / pageBytes

def view (memory : Memory) : Tables := fun address =>
  memory.tables.getD (indexOf address) .blank

theorem index_ok (found : memory.index address = .ok index) :
    memory.Has address ∧ index = indexOf address := by
  rw [Memory.index] at found
  split at found
  next => cases found
  next aligned =>
    split at found
    next => cases found
    next inside =>
      cases found
      exact ⟨⟨by omega, by omega, by omega⟩, rfl⟩

theorem Has.index_eq (has : memory.Has address) : memory.index address = .ok (indexOf address) := by
  obtain ⟨aligned, low, high⟩ := has
  rw [Memory.index, if_neg (by omega), if_neg (by omega), indexOf]

theorem Has.table_eq (has : memory.Has address) :
    memory.table address = .ok (memory.view address) := by
  rw [Memory.table, has.index_eq]
  rfl

theorem table_ok (found : memory.table address = .ok table) :
    memory.Has address ∧ table = memory.view address := by
  rw [Memory.table] at found
  cases placed : memory.index address with
  | error cause =>
      rw [placed] at found
      cases found
  | ok index =>
      obtain ⟨has, rfl⟩ := index_ok placed
      rw [placed] at found
      cases found
      exact ⟨has, rfl⟩

theorem Has.indexOf_lt (has : memory.Has address) : indexOf address < memory.tables.size := by
  obtain ⟨aligned, low, high⟩ := has
  rw [reserved] at high
  rw [indexOf]
  simp only [pageBytes] at *
  omega

theorem Has.of_size_eq (has : before.Has address)
    (size_eq : after.tables.size = before.tables.size) :
    after.Has address := by
  rw [Has, reserved, size_eq]
  exact has

section Reserve

variable {grown : Memory} {buffer : Buffer} {size : Nat}

def Extends (grown memory : Memory) : Prop := ∃ more, grown.tables = memory.tables ++ more

theorem extends_self : memory.Extends memory := ⟨#[], by simp⟩

theorem Extends.has (extends_ : grown.Extends memory) (has : memory.Has address) :
    grown.Has address := by
  obtain ⟨more, tables⟩ := extends_
  have high := has.2.2
  refine ⟨has.1, has.2.1, ?_⟩
  rw [reserved] at high ⊢
  rw [tables, Array.size_append, Nat.add_mul]
  omega

theorem Extends.view_eq (extends_ : grown.Extends memory) (has : memory.Has address) :
    grown.view address = memory.view address := by
  obtain ⟨more, tables⟩ := extends_
  rw [view, view, tables, Array.getD_eq_getD_getElem?, Array.getD_eq_getD_getElem?,
    Array.getElem?_append_left has.indexOf_lt]

theorem reserve_ok (found : memory.reserve size = .ok (buffer, grown)) :
    size % pageBytes = 0 ∧ buffer = ⟨firstAddress + memory.reserved, size, size⟩ ∧
      grown.Extends memory ∧ grown.reserved = memory.reserved + size := by
  rw [reserve] at found
  split at found
  next => cases found
  next fine =>
    have aligned : size % pageBytes = 0 := by omega
    obtain ⟨rfl, rfl⟩ := Prod.mk.inj (Except.ok.inj found)
    refine ⟨aligned, rfl, ⟨_, rfl⟩, ?_⟩
    rw [reserved, reserved, Array.size_append, Array.size_replicate, Nat.add_mul,
      Nat.div_mul_cancel (Nat.dvd_of_mod_eq_zero aligned)]

theorem extends_of_reserve (found : memory.reserve size = .ok (buffer, grown)) :
    grown.Extends memory :=
  (reserve_ok found).2.2.1

end Reserve

structure Puts (before : Memory) (address : Nat) (table : Table) (after : Memory) : Prop where
  has : before.Has address
  size_eq : after.tables.size = before.tables.size
  here : after.view address = table
  elsewhere : ∀ other, before.Has other → other ≠ address → after.view other = before.view other

theorem puts_modifyPage (has : memory.Has address) (change : Table → Table) :
    memory.Puts address (change (memory.view address))
      (memory.modifyPage (indexOf address) change) where
  has := has
  size_eq := Array.size_modify
  here := by
    have inside : indexOf address < (memory.tables.modify (indexOf address) change).size := by
      rw [Array.size_modify]
      exact has.indexOf_lt
    rw [view, modifyPage, Array.getD_eq_getD_getElem?, Array.getElem?_eq_getElem inside,
      Option.getD_some, Array.getElem_modify, if_pos rfl, view, Array.getD_eq_getD_getElem?,
      Array.getElem?_eq_getElem has.indexOf_lt, Option.getD_some]
  elsewhere := by
    intro other found apart
    have places : indexOf address ≠ indexOf other := by
      obtain ⟨aligned, low, -⟩ := has
      obtain ⟨other_aligned, other_low, -⟩ := found
      rw [indexOf, indexOf]
      simp only [pageBytes] at *
      omega
    rw [view, view, modifyPage, Array.getD_eq_getD_getElem?, Array.getD_eq_getD_getElem?,
      Array.getElem?_modify, if_neg places]

theorem puts_self (has : memory.Has address) :
    memory.Puts address (memory.view address) memory where
  has := has
  size_eq := rfl
  here := rfl
  elsewhere _ _ _ := rfl

end Memory

namespace Progress

def withMemory (progress : Progress) (memory : Memory) : Progress :=
  { progress with space := { progress.space with memory } }

theorem memory_withMemory (progress : Progress) (memory : Memory) :
    (progress.withMemory memory).space.memory = memory := rfl

theorem buffer_withMemory (progress : Progress) (memory : Memory) :
    (progress.withMemory memory).space.buffer = progress.space.buffer := rfl

def withBuffer (progress : Progress) (buffer : Buffer) : Progress :=
  { progress with space := { progress.space with buffer }, pages := progress.pages + 1 }

theorem memory_withBuffer (progress : Progress) (buffer : Buffer) :
    (progress.withBuffer buffer).space.memory = progress.space.memory := rfl

theorem buffer_withBuffer (progress : Progress) (buffer : Buffer) :
    (progress.withBuffer buffer).space.buffer = buffer := rfl

end Progress

namespace Commit

variable {α β : Type} {step : Commit α} {next : α → Commit β} {before after : Progress}

def Yields (step : Commit α) (before : Progress) (value : α) (after : Progress) : Prop :=
  step before = (.ok value, after)

theorem yields_pure {value result : α} (ran : (pure value : Commit α).Yields before result after) :
    result = value ∧ after = before := by
  cases ran
  exact ⟨rfl, rfl⟩

theorem yields_throw {value : α} {cause : Error} :
    ¬(throw cause : Commit α).Yields before value after := by
  intro ran
  cases ran

theorem bind_apply {ε : Type} (step : ExceptT ε (StateM Progress) α)
    (next : α → ExceptT ε (StateM Progress) β) (before : Progress) :
    (step >>= next) before = match step before with
      | (.ok middle, between) => next middle between
      | (.error cause, between) => (.error cause, between) := by
  change (match step before with
    | (outcome, between) => ExceptT.bindCont next outcome between) = _
  rcases step before with ⟨outcome, between⟩
  cases outcome <;> rfl

theorem yields_bind {value : β} (ran : (step >>= next).Yields before value after) :
    ∃ middle between, step.Yields before middle between ∧
      (next middle).Yields between value after := by
  rw [Yields, bind_apply] at ran
  rcases first : step before with ⟨outcome, between⟩
  rw [first] at ran
  cases outcome with
  | error cause => cases ran
  | ok middle => exact ⟨middle, between, first, ran⟩

theorem Yields.bind {middle : α} {value : β} {between : Progress}
    (ran : step.Yields before middle between) (onward : (next middle).Yields between value after) :
    (step >>= next).Yields before value after := by
  rw [Yields] at ran onward ⊢
  rw [bind_apply, ran]
  exact onward

theorem yields_table {address : Nat} {table : Table}
    (ran : (Commit.table address).Yields before table after) :
    before.space.memory.Has address ∧ table = before.space.memory.view address ∧
      after = before := by
  have whole : Commit.table address before =
      (before.space.memory.table address, before) := rfl
  rw [Yields, whole, Prod.mk.injEq] at ran
  obtain ⟨found, rfl⟩ := ran
  obtain ⟨has, rfl⟩ := Memory.table_ok found
  exact ⟨has, rfl, rfl⟩

theorem yields_modifyTable {address : Nat} {change : Table → Table}
    (ran : (modifyTable address change).Yields before () after) :
    before.space.memory.Puts address (change (before.space.memory.view address))
      after.space.memory ∧ after.space.buffer = before.space.buffer := by
  cases placed : before.space.memory.index address with
  | error cause =>
      have whole : modifyTable address change before = (.error cause, before) := by
        rw [modifyTable, placed]
      rw [Yields, whole] at ran
      cases ran
  | ok index =>
      obtain ⟨has, rfl⟩ := Memory.index_ok placed
      have whole : modifyTable address change before = (.ok (),
          before.withMemory (before.space.memory.modifyPage (Memory.indexOf address) change)) := by
        rw [modifyTable, placed]
        rfl
      rw [Yields, whole, Prod.mk.injEq] at ran
      obtain ⟨-, rfl⟩ := ran
      rw [Progress.memory_withMemory, Progress.buffer_withMemory]
      exact ⟨Memory.puts_modifyPage has change, rfl⟩

theorem yields_setEntry {address : Nat} {index : Fin tableEntries} {entry : Entry}
    (ran : (setEntry address index entry).Yields before () after) :
    before.space.memory.Puts address
      ((before.space.memory.view address).setWord index entry.encode) after.space.memory ∧
      after.space.buffer = before.space.buffer := by
  obtain ⟨table, between, read, ran⟩ := yields_bind ran
  obtain ⟨has, rfl, rfl⟩ := yields_table read
  split at ran
  next changed =>
    obtain ⟨done, written, modified, ran⟩ := yields_bind ran
    have puts := yields_modifyTable modified
    cases ran
    exact puts
  next same =>
    obtain ⟨-, rfl⟩ := yields_pure ran
    have stored : (after.space.memory.view address).setWord index entry.encode =
        after.space.memory.view address := by
      rw [← Decidable.not_not.mp same, Table.setWord_word]
    rw [stored]
    exact ⟨Memory.puts_self has, rfl⟩

theorem yields_takePage {address : Nat} (ran : takePage.Yields before address after) :
    pageBytes ≤ before.space.buffer.remaining ∧
      address = before.space.buffer.base + (before.space.buffer.remaining - pageBytes) ∧
      after.space.memory = before.space.memory ∧ after.space.buffer =
        { before.space.buffer with remaining := before.space.buffer.remaining - pageBytes } := by
  by_cases room : before.space.buffer.remaining < pageBytes
  · have whole : takePage before = (.error (.tooSmall ((before.pages + 1) * pageBytes)),
        { before with pages := before.pages + 1 }) := by
      rw [takePage, Buffer.takePage?, if_pos room]
    rw [Yields, whole] at ran
    cases ran
  · have whole : takePage before =
        (.ok (before.space.buffer.base + (before.space.buffer.remaining - pageBytes)),
          before.withBuffer { before.space.buffer with
            remaining := before.space.buffer.remaining - pageBytes }) := by
      rw [takePage, Buffer.takePage?, if_neg room]
      rfl
    rw [Yields, whole, Prod.mk.injEq] at ran
    obtain ⟨value_eq, rfl⟩ := ran
    rw [Progress.memory_withBuffer, Progress.buffer_withBuffer]
    exact ⟨Nat.le_of_not_lt room, (Except.ok.inj value_eq).symm, rfl, rfl⟩

theorem yields_allocate {table : Table} {address : Nat}
    (ran : (allocate table).Yields before address after) :
    before.space.memory.Puts address table after.space.memory ∧
      pageBytes ≤ before.space.buffer.remaining ∧
      address = before.space.buffer.base + (before.space.buffer.remaining - pageBytes) ∧
      after.space.buffer =
        { before.space.buffer with remaining := before.space.buffer.remaining - pageBytes } := by
  obtain ⟨page, between, taken, ran⟩ := yields_bind ran
  obtain ⟨done, written, modified, ran⟩ := yields_bind ran
  obtain ⟨rfl, rfl⟩ := yields_pure ran
  obtain ⟨enough, page_eq, memory_eq, buffer_eq⟩ := yields_takePage taken
  obtain ⟨puts, kept⟩ := yields_modifyTable modified
  rw [memory_eq] at puts
  exact ⟨puts, enough, page_eq, kept.trans buffer_eq⟩

end Commit

end Remap.PageTable
