import Remap.Proofs.PageTable.Apply
import Remap.Proofs.PageTable.Frugal
import Remap.Proofs.PageTable.Spend

/-!
# Accounting of pages

The size that is reported when a buffer is too small is the size that suffices, and the edit
takes just that much from a buffer that has it. An edit that needs no pages takes none, and
its outcome does not depend on the buffer.
-/

namespace Remap.PageTable

namespace Memory

/-- Each table of the tree at `root` is in the memory, it is reached through one entry, and
the root through none. -/
structure Proper (memory : Memory) (mode : Mode) (root : Nat) : Prop where
  resolves : ∀ target, memory.view.Spans mode.maxLevel root target → memory.Has target
  once : memory.view.SeparateBelow mode.maxLevel root

end Memory

namespace Memory

variable {memory grown : Memory} {mode : Mode} {root : Nat} {buffer : Buffer}

theorem Proper.owns (proper : memory.Proper mode root) (extends_ : grown.Extends memory)
    (apart : ∀ target, memory.view.Spans mode.maxLevel root target → ¬buffer.Spare target) :
    Workspace.Owns ⟨grown, root, buffer⟩ mode.maxLevel root := by
  have same : ∀ target, memory.view.Spans mode.maxLevel root target →
      grown.view target = memory.view target :=
    fun target spanned => extends_.view_eq (proper.resolves target spanned)
  refine ⟨proper.once.of_same same fun _ same => same.separate, ?_, ?_⟩
  · intro target spanned
    exact extends_.has (proper.resolves target ((Tables.spans_of_same same).mp spanned))
  · intro target spanned
    exact apart target ((Tables.spans_of_same same).mp spanned)

end Memory

namespace Edit

variable {edit : Edit} {memory grown : Memory} {root count : Nat} {space : Workspace}
  {buffer : Buffer}

theorem demand_unrooted : edit.demand memory 0 =
    if edit.creates then
      if edit.maskCreates then
        (1 + ·) <$> edit.demandBelow memory edit.mode.maxLevel .blank .permissive 0
      else .error (.invalidParameter .incompleteMask)
    else .ok 0 := by
  rw [demand, checkMask]
  cases edit.creates with
  | false => rfl
  | true =>
      cases edit.maskCreates with
      | false => rfl
      | true => cases edit.demandBelow memory edit.mode.maxLevel .blank .permissive 0 <;> rfl

theorem demand_rooted (rooted : root ≠ 0) : edit.demand memory root =
    edit.demandBelow memory edit.mode.maxLevel (.stored root) .permissive 0 :=
  if_pos rooted

theorem demand_unrooted_ok (counted : edit.demand memory 0 = .ok count)
    (creates : edit.creates = true) : ∃ more,
      edit.demandBelow memory edit.mode.maxLevel .blank .permissive 0 = .ok more ∧
        count = 1 + more := by
  rw [demand_unrooted, if_pos creates] at counted
  split at counted
  next =>
    cases lower : edit.demandBelow memory edit.mode.maxLevel .blank .permissive 0 with
    | error cause =>
        rw [lower] at counted
        cases counted
    | ok more =>
        rw [lower] at counted
        exact ⟨more, rfl, (Except.ok.inj counted).symm⟩
  next => cases counted

theorem demand_error {cause : Error} (failed : edit.demand memory root = .error cause) :
    ∃ misuse, cause = .invalidParameter misuse := by
  by_cases rooted : root = 0
  · subst rooted
    rw [demand_unrooted] at failed
    split at failed
    next =>
      split at failed
      next =>
        cases lower : edit.demandBelow memory edit.mode.maxLevel .blank .permissive 0 with
        | error reason =>
            rw [lower] at failed
            cases failed
            exact demandBelow_error lower
        | ok more =>
            rw [lower] at failed
            cases failed
      next =>
        cases failed
        exact ⟨_, rfl⟩
    next => cases failed
  · rw [demand_rooted rooted] at failed
    exact demandBelow_error failed

theorem checkRange_error {cause : Error} (failed : edit.checkRange = .error cause) :
    ∃ misuse, cause = .invalidParameter misuse := by
  rw [checkRange] at failed
  split at failed
  next => exact ⟨_, (Except.error.inj failed).symm⟩
  next =>
    split at failed
    next => exact ⟨_, (Except.error.inj failed).symm⟩
    next =>
      split at failed
      next => exact ⟨_, (Except.error.inj failed).symm⟩
      next => cases failed

/-- More memory does not change what is counted. -/
theorem demand_extends (extends_ : grown.Extends memory)
    (proper : root ≠ 0 → memory.Proper edit.mode root) :
    edit.demand grown root = edit.demand memory root := by
  by_cases rooted : root = 0
  · subst rooted
    rw [demand_unrooted, demand_unrooted, demandBelow_congr Source.like_blank]
  · rw [demand_rooted rooted, demand_rooted rooted]
    apply demandBelow_congr
    apply Source.like_stored
    intro target spanned
    have has := (proper rooted).resolves target spanned
    exact ⟨has, extends_.has has, extends_.view_eq has⟩

theorem commitFrom_spends (before : Progress) (lends : before.space.memory.Lends before.space.buffer)
    (owns : root ≠ 0 → before.space.Owns edit.mode.maxLevel root)
    (counted : edit.demand before.space.memory root = .ok count)
    (room : count * pageBytes ≤ before.space.buffer.remaining) :
    ∃ child after, (edit.commitFrom root).Yields before child after ∧
      Spends count before after := by
  rw [commitFrom]
  by_cases rooted : root = 0
  · subst rooted
    rw [if_neg (fun other => other rfl)]
    cases creates : edit.creates with
    | false =>
        rw [demand_unrooted, creates] at counted
        cases counted
        exact ⟨0, before, Commit.pure_yields 0, .refl⟩
    | true =>
        obtain ⟨more, lower, rfl⟩ := demand_unrooted_ok counted creates
        rw [Nat.add_mul, Nat.one_mul] at room
        obtain ⟨child, between, allocated⟩ :=
          lends_allocate lends (Nat.le_trans (Nat.le_add_right _ _) room) Table.blank
        obtain ⟨spends, -, -⟩ := Commit.yields_allocate_gained allocated
        have grown := grown_blank edit.mode.maxLevel allocated
        have remaining := spends.remaining_eq
        obtain ⟨after, ran, worked⟩ := commitBelow_affords child .permissive between more
          Attribute.grants_permissive (spends.lends lends) grown.owns
          ((demand_blank grown).trans lower) (by omega)
        exact ⟨child, after, allocated.bind (ran.bind (Commit.pure_yields child)),
          spends.trans worked.spends⟩
  · rw [if_pos rooted]
    rw [demand_rooted rooted] at counted
    obtain ⟨after, ran, worked⟩ := commitBelow_affords root .permissive before count
      Attribute.grants_permissive lends (owns rooted) counted room
    exact ⟨root, after, ran.bind (Commit.pure_yields root), worked.spends⟩

/-- A commit takes the pages counted for it. -/
theorem commit_spends (space : Workspace) (lends : space.memory.Lends space.buffer)
    (owns : space.root ≠ 0 → space.Owns edit.mode.maxLevel space.root)
    (counted : edit.demand space.memory space.root = .ok count)
    (room : count * pageBytes ≤ space.buffer.remaining) :
    ∃ outcome after, edit.commit space = (.ok outcome, after) ∧ outcome.pages = count ∧
      after.buffer.consumed = space.buffer.consumed + count * pageBytes ∧
      after.memory.Lends after.buffer ∧ after.memory.tables.size = space.memory.tables.size := by
  obtain ⟨child, last, ran, spends⟩ :=
    commitFrom_spends ⟨space, 0, false⟩ lends owns counted room
  have yields : edit.commitFrom space.root ⟨space, 0, false⟩ = (.ok child, last) := ran
  refine ⟨⟨last.pages, last.modified || child != space.root⟩, { last.space with root := child },
    ?_, ?_, ?_, spends.lends lends, spends.size_eq⟩
  · rw [commit_eq, yields]
  · exact spends.pages_eq.trans (Nat.zero_add count)
  · have whole := spends.whole_eq
    have remaining := spends.remaining_eq
    have le := lends.remaining_le
    simp only [Buffer.consumed] at *
    omega

theorem apply_refused (refused : ¬(edit.mode.isSupported = true ∧ edit.length ≠ 0 ∧
    edit.checkRange = .ok ())) : (∃ cause, (∀ required, cause ≠ .tooSmall required) ∧
      ∀ space, edit.apply space = (.error cause, space)) ∨
    ∀ space, edit.apply space = (.ok .none, space) := by
  cases supported : edit.mode.isSupported with
  | false =>
      exact .inl ⟨.unsupported edit.mode, fun _ => Error.noConfusion,
        fun _ => apply_unsupported supported⟩
  | true =>
      by_cases length : edit.length = 0
      · exact .inr fun _ => apply_empty supported length
      · cases checked : edit.checkRange with
        | ok => exact absurd ⟨supported, length, checked⟩ refused
        | error cause =>
            obtain ⟨misuse, rfl⟩ := checkRange_error checked
            exact .inl ⟨.invalidParameter misuse, fun _ => Error.noConfusion,
              fun _ => apply_invalid supported length checked⟩

theorem apply_needs {required : Nat} (proper : root ≠ 0 → memory.Proper edit.mode root)
    (failed : (edit.apply ⟨memory, root, .empty⟩).1 = .error (.tooSmall required)) :
    edit.mode.isSupported = true ∧ edit.length ≠ 0 ∧ edit.checkRange = .ok () ∧
      ∃ pages, pages ≠ 0 ∧ edit.demand memory root = .ok pages ∧
        required = pages * pageBytes := by
  by_cases passes : edit.mode.isSupported = true ∧ edit.length ≠ 0 ∧ edit.checkRange = .ok ()
  · obtain ⟨supported, length, checked⟩ := passes
    rw [apply_eq supported length checked] at failed
    dsimp only at failed
    cases counted : edit.demand memory root with
    | error cause =>
        obtain ⟨misuse, rfl⟩ := demand_error counted
        rw [counted] at failed
        cases failed
    | ok pages =>
        rw [counted] at failed
        dsimp only at failed
        split at failed
        next needed =>
          cases failed
          refine ⟨supported, length, checked, pages, ?_, rfl, rfl⟩
          rintro rfl
          rw [Nat.zero_mul] at needed
          exact Nat.not_lt_zero _ needed
        next room =>
          have owns (rooted : root ≠ 0) :=
            (proper rooted).owns Memory.extends_self fun _ _ => Buffer.not_spare_empty
          obtain ⟨outcome, after, ran, -⟩ :=
            commit_spends ⟨memory, root, .empty⟩ Memory.lends_empty owns counted
              (Nat.le_of_not_lt room)
          rw [ran] at failed
          cases failed
  · rcases apply_refused passes with ⟨cause, other, refused⟩ | idle
    · rw [refused] at failed
      exact absurd (Except.error.inj failed) (other required)
    · rw [idle] at failed
      cases failed

theorem apply_tooSmall {required : Nat} (proper : root ≠ 0 → memory.Proper edit.mode root)
    (failed : (edit.apply ⟨memory, root, .empty⟩).1 = .error (.tooSmall required)) :
    edit.mode.isSupported = true ∧ edit.length ≠ 0 ∧ edit.checkRange = .ok () ∧
      ∃ pages, edit.demand memory root = .ok pages ∧ required = pages * pageBytes := by
  obtain ⟨supported, length, checked, pages, -, counted⟩ := apply_needs proper failed
  exact ⟨supported, length, checked, pages, counted⟩

theorem apply_frugal {outcome : Outcome} {after : Workspace}
    (ran : edit.apply ⟨memory, root, .empty⟩ = (.ok outcome, after)) :
    outcome.pages = 0 ∧
      ∀ buffer, edit.apply ⟨memory, root, buffer⟩ = (.ok outcome, { after with buffer }) := by
  by_cases passes : edit.mode.isSupported = true ∧ edit.length ≠ 0 ∧ edit.checkRange = .ok ()
  · obtain ⟨supported, length, checked⟩ := passes
    rw [apply_eq supported length checked] at ran
    dsimp only at ran
    cases counted : edit.demand memory root with
    | error cause =>
        rw [counted] at ran
        cases ran
    | ok pages =>
        rw [counted] at ran
        dsimp only at ran
        split at ran
        next => cases ran
        next room =>
          have none : pages * pageBytes = 0 := Nat.eq_zero_of_not_pos room
          refine ⟨(commit_frugal ran .empty).1, ?_⟩
          intro buffer
          rw [apply_eq supported length checked]
          dsimp only
          rw [counted]
          dsimp only
          rw [none, if_neg (Nat.not_lt_zero _)]
          exact (commit_frugal ran buffer).2
  · rcases apply_refused passes with ⟨cause, -, refused⟩ | idle
    · rw [refused] at ran
      cases ran
    · rw [idle] at ran
      cases ran
      exact ⟨rfl, fun buffer => idle _⟩

/-- The size that an edit without a buffer is refused with is the size that a buffer must
have, and the edit takes just that much from it. An edit that succeeds without a buffer does
the same with any buffer. -/
theorem apply_exact (edit : Edit) (memory : Memory) (root : Nat)
    (proper : root ≠ 0 → memory.Proper edit.mode root) :
    (∀ required, (edit.apply ⟨memory, root, .empty⟩).1 = .error (.tooSmall required) →
      ∀ (grown : Memory) (buffer : Buffer), grown.Extends memory → grown.Lends buffer →
        (root ≠ 0 → ∀ target, memory.view.Spans edit.mode.maxLevel root target →
          ¬buffer.Spare target) →
        required ≤ buffer.remaining →
        ∃ outcome after, edit.apply ⟨grown, root, buffer⟩ = (.ok outcome, after) ∧
          outcome.pages * pageBytes = required ∧
          after.buffer.consumed = buffer.consumed + required) ∧
    ∀ outcome after, edit.apply ⟨memory, root, .empty⟩ = (.ok outcome, after) →
      outcome.pages = 0 ∧
        ∀ buffer, edit.apply ⟨memory, root, buffer⟩ = (.ok outcome, { after with buffer }) := by
  refine ⟨?_, fun outcome after ran => apply_frugal ran⟩
  intro required failed grown buffer extends_ lends apart room
  obtain ⟨supported, length, checked, pages, counted, rfl⟩ := apply_tooSmall proper failed
  have recounted : edit.demand grown root = .ok pages :=
    (demand_extends extends_ proper).trans counted
  obtain ⟨outcome, after, ran, pages_eq, consumed, -⟩ :=
    commit_spends ⟨grown, root, buffer⟩ lends
      (fun rooted => (proper rooted).owns extends_ (apart rooted)) recounted room
  refine ⟨outcome, after, ?_, by rw [pages_eq], consumed⟩
  rw [apply_eq supported length checked]
  dsimp only
  rw [recounted]
  dsimp only
  rw [if_neg (Nat.not_lt.mpr room), ran]

def nested : Memory :=
  let first : Fin tableEntries := ⟨0, Nat.succ_pos 511⟩
  ⟨#[Table.blank.setWord first 0x101005, Table.blank.setWord first 0x87]⟩

theorem entry_single {tables : Tables} {level address : Nat} {first index : Fin tableEntries}
    {word : UInt64} (stored : tables address = Table.blank.setWord first word) :
    tables.entry level address index =
      if index = first then .decode word level else .absent := by
  rw [Tables.entry, stored]
  split
  next here => rw [here, Table.word_setWord_same]
  next apart => rw [Table.word_setWord_other apart, Table.word_blank, Entry.decode_zero]

theorem outer_entry (index : Fin tableEntries) : nested.view.entry 4 0x100000 index =
    if index = ⟨0, by decide⟩ then .table 0x101000 ⟨5⟩ else .absent := by
  have stored : nested.view 0x100000 = Table.blank.setWord ⟨0, by decide⟩ 0x101005 := rfl
  have pointer : Entry.decode 0x101005 4 = .table 0x101000 ⟨5⟩ := by decide
  rw [entry_single stored, pointer]

theorem inner_entry (index : Fin tableEntries) : nested.view.entry 3 0x101000 index =
    if index = ⟨0, by decide⟩ then .leaf .page1G ⟨7⟩ else .absent := by
  have stored : nested.view 0x101000 = Table.blank.setWord ⟨0, by decide⟩ 0x87 := rfl
  have leaf : Entry.decode 0x87 3 = .leaf .page1G ⟨7⟩ := by decide
  rw [entry_single stored, leaf]

theorem outer_uses {index : Fin tableEntries} {target : Nat}
    (used : nested.view.Uses 4 (nested.view.entry 4 0x100000 index) target) :
    index = ⟨0, by decide⟩ ∧ target = 0x101000 := by
  rw [outer_entry] at used
  split at used
  next here =>
    refine ⟨here, ?_⟩
    rcases used with rfl | ⟨place, used⟩
    · rfl
    · change nested.view.Uses 3 (nested.view.entry 3 0x101000 place) target at used
      rw [inner_entry] at used
      split at used <;> cases used
  next => cases used

theorem nested_spans {target : Nat} (spanned : nested.view.Spans 4 0x100000 target) :
    target = 0x100000 ∨ target = 0x101000 := by
  rcases spanned with rfl | ⟨index, used⟩
  · exact .inl rfl
  · exact .inr (outer_uses used).2

theorem nested_proper : nested.Proper (.fourLevel .page1G) 0x100000 := by
  constructor
  · intro target spanned
    rcases nested_spans spanned with rfl | rfl
    · exact ⟨by decide, by decide, by decide⟩
    · exact ⟨by decide, by decide, by decide⟩
  · intro index
    refine ⟨?_, ?_, ?_⟩
    · change nested.view.Separate 4 (nested.view.entry 4 0x100000 index)
      rw [outer_entry]
      split
      next =>
        intro place
        change nested.view.Separate 3 (nested.view.entry 3 0x101000 place) ∧
          ¬nested.view.Uses 3 (nested.view.entry 3 0x101000 place) _ ∧ ∀ other, other ≠ place →
            ∀ target, nested.view.Uses 3 (nested.view.entry 3 0x101000 place) target → _
        rw [inner_entry]
        split <;> exact ⟨trivial, id, fun _ _ _ used => absurd used id⟩
      next => exact trivial
    · intro used
      exact absurd (outer_uses used).2 (by decide)
    · intro other apart target used also
      exact apart ((outer_uses also).1.trans (outer_uses used).1.symm)

def unmap : Edit := ⟨.fourLevel .page1G, 0x1000, 0x1000, .empty, .all⟩

theorem unmap_needs :
    (unmap.apply ⟨nested, 0x100000, .empty⟩).1 = .error (.tooSmall 0x2000) := by
  have counted : unmap.demand nested 0x100000 = .ok 2 := ok_of_toOption (by decide +kernel)
  have checked : unmap.checkRange = .ok () := ok_of_toOption (by decide)
  rw [apply_eq rfl (by decide) checked]
  dsimp only
  rw [counted]
  rfl

def nestedBuffer : Buffer := ⟨0x102000, 0x3000, 0x3000⟩

theorem apply_exact_nested : ∃ grown, nested.reserve 0x3000 = .ok (nestedBuffer, grown) ∧
    ∃ outcome after, unmap.apply ⟨grown, 0x100000, nestedBuffer⟩ = (.ok outcome, after) ∧
      outcome.pages * pageBytes = 0x2000 ∧ after.buffer.consumed = 0x2000 := by
  have reserved : nested.reserve 0x3000 =
      .ok (nestedBuffer, ⟨nested.tables ++ Array.replicate 3 Table.blank⟩) := rfl
  have apart : ∀ target, nested.view.Spans 4 0x100000 target → ¬nestedBuffer.Spare target := by
    intro target spanned spare
    rcases nested_spans spanned with rfl | rfl
    · exact absurd spare.1 (by decide)
    · exact absurd spare.1 (by decide)
  obtain ⟨sized, -⟩ := apply_exact unmap nested 0x100000 fun _ => nested_proper
  exact ⟨_, reserved, sized 0x2000 unmap_needs _ nestedBuffer
    (Memory.extends_of_reserve reserved) (Memory.lends_of_reserve reserved) (fun _ => apart)
    (by decide)⟩

end Edit

end Remap.PageTable
