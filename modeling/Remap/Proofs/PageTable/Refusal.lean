import Remap.Proofs.PageTable.Accounting
import Remap.Proofs.PageTable.Apply
import Remap.Proofs.PageTable.Scan

/-!
# Edits that their mask refuses

An edit that makes pages present needs a mask that says all about a new page. Under another
mask it is refused if and only if some page of its range is unmapped. Where each table of the
tree exists, counting fails for no other reason.
-/

namespace Remap.PageTable

namespace Edit

variable {edit : Edit} {memory : Memory} {level slot origin address root : Nat}
  {parent : Attribute} {source : Source} {current : Entry} {cause : Error}

def Resolves (memory : Memory) (level : Nat) (source : Source) : Prop :=
  ∀ address, source = .stored address → ∀ target, memory.view.Spans level address target →
    memory.Has target

theorem Resolves.onward {index : Fin tableEntries} {action : Action} {pages : Nat}
    {next : Source} {below : Attribute} (resolves : Resolves memory (level + 1) source)
    (found : source.entry memory (level + 1) index = .ok current)
    (acted : edit.action (level + 1) slot parent current = .ok action)
    (onward : action.onward = some (pages, next, below)) : Resolves memory level next := by
  intro child stored target spanned
  rcases onward_cases acted onward with ⟨pointed, attr, rfl, rfl⟩ | ⟨rfl, rfl⟩ | ⟨size, attr, rfl, rfl⟩
  · cases onward
    cases stored
    cases source with
    | blank => cases found
    | parts leaf => cases found
    | stored address =>
        rw [Source.entry_stored (resolves address rfl address (.inl rfl))] at found
        refine resolves address rfl target (.inr ⟨index, ?_⟩)
        rw [Except.ok.inj found]
        exact spanned
  · cases onward
    cases stored
  · cases onward
    cases stored

theorem demandBelow_refused (resolves : Resolves memory level source)
    (failed : edit.demandBelow memory level source parent origin = .error cause) :
    cause = .invalidParameter .incompleteMask ∧ edit.creates = true ∧
      edit.maskCreates = false := by
  rcases demandBelow_stopped (Resolves memory) Resolves.onward resolves failed with
    ⟨lower, address, resolves, missing⟩ | refused
  · rw [(resolves address rfl address (.inl rfl)).table_eq] at missing
    cases missing
  · exact refused

/-- A leaf is mapped, so what stops the walk there is below it. -/
theorem entryDemand_leaf_error {size : LeafSize} {attr : Attribute}
    (failed : edit.entryDemand memory level parent slot (.leaf size attr) = .error cause) :
    ∃ leaf below, edit.demandBelow memory level (.parts leaf) below slot = .error cause := by
  rcases entryDemand_error failed with refused | ⟨_, _, _, _, acted, onward, lower⟩
  · cases (action_error refused).2.2.2
  · rcases onward_cases acted onward with ⟨_, _, pointer, -⟩ | ⟨absent, -⟩ | ⟨_, _, -, rfl⟩
    · cases pointer
    · cases absent
    · cases onward
      exact ⟨_, _, lower⟩

theorem demandBelow_parts_ne_error {leaf : Attribute} :
    edit.demandBelow memory level (.parts leaf) parent origin ≠ .error cause := by
  induction level generalizing leaf parent origin with
  | zero =>
      intro failed
      cases failed
  | succ level induction =>
      intro failed
      rw [demandBelow_eq] at failed
      obtain ⟨index, -, failed⟩ := total_error failed
      obtain ⟨part, below, failed⟩ := entryDemand_leaf_error failed
      exact induction failed

theorem entryDemand_leaf_ne_error {size : LeafSize} {attr : Attribute} :
    edit.entryDemand memory level parent slot (.leaf size attr) ≠ .error cause := by
  intro failed
  obtain ⟨part, below, failed⟩ := entryDemand_leaf_error failed
  exact demandBelow_parts_ne_error failed

def MeetsUnmapped (edit : Edit) (pages : Nat → Option Attribute) (first last : Nat) : Prop :=
  ∃ linear, linear % pageBytes = 0 ∧ edit.start ≤ linear ∧ linear < edit.stop ∧
    first ≤ linear ∧ linear < last ∧ pages linear = none

theorem maskCreates_of_isComplete (complete : edit.mask.isComplete = true) :
    edit.maskCreates = true := by
  have whole : edit.mask.bits &&& Attribute.all.bits = Attribute.all.bits := by
    simpa [Attribute.isComplete] using complete
  have narrow : edit.mask.bits &&& Attribute.grantMask = Attribute.grantMask := by
    have inside : Attribute.all.bits &&& Attribute.grantMask = Attribute.grantMask := by decide
    rw [← inside, ← UInt64.and_assoc, whole]
  rw [maskCreates, narrow, (of_isComplete complete).1]
  rfl

/-- An unmapped page below a table is below one of the entries that the edit meets. -/
theorem meetsUnmapped_table (origin_aligned : origin % levelSize (level + 1 + 1) = 0)
    (has : memory.Has address) :
    edit.MeetsUnmapped (memory.pageBelow (level + 1) address parent) origin
        (origin + levelSize (level + 1 + 1)) ↔
      ∃ index ∈ edit.slots (level + 1) origin,
        edit.MeetsUnmapped
          (memory.pageAt level parent (memory.view.entry (level + 1) address index))
          (origin + index.val * levelSize (level + 1))
          (origin + index.val * levelSize (level + 1) + levelSize (level + 1)) := by
  have positive : level + 1 ≠ 0 := Nat.succ_ne_zero level
  have pages {linear : Nat} {index : Fin tableEntries}
      (low : origin + index.val * levelSize (level + 1) ≤ linear)
      (high : linear < origin + index.val * levelSize (level + 1) + levelSize (level + 1)) :
      memory.pageBelow (level + 1) address parent linear =
        memory.pageAt level parent (memory.view.entry (level + 1) address index) linear := by
    rw [Memory.pageBelow_eq has.table_eq, slotOf_eq origin_aligned positive low high]
    rfl
  constructor
  · rintro ⟨linear, aligned, start, stop, low, high, unmapped⟩
    have range := slotOf_range origin_aligned positive low high
    refine ⟨slotOf (level + 1) linear, ?_, linear, aligned, start, stop, range.1, range.2, ?_⟩
    · rw [mem_slots, meets_iff]
      omega
    · exact (pages range.1 range.2).symm.trans unmapped
  · rintro ⟨index, -, linear, aligned, start, stop, low, high, unmapped⟩
    have last := slot_stop_le positive origin index
    exact ⟨linear, aligned, start, stop, by omega, by omega, (pages low high).trans unmapped⟩

section Incomplete

variable (creates : edit.creates = true) (incomplete : edit.maskCreates = false)

include incomplete

theorem not_writesLeaf_table {pointed : UInt64} {attr : Attribute} :
    edit.writesLeaf level slot (.table pointed attr) = false := by
  have partially : edit.mask.isComplete = false := by
    apply Bool.eq_false_iff.mpr
    intro complete
    rw [maskCreates_of_isComplete complete] at incomplete
    cases incomplete
  rw [writesLeaf, partially, Bool.and_false]

theorem entryDemand_table {pointed : UInt64} {attr : Attribute} :
    edit.entryDemand memory level parent slot (.table pointed attr) =
      edit.demandBelow memory level (.stored pointed.toNat) (attr.inherit parent) slot := by
  rw [entryDemand, action_table, not_writesLeaf_table incomplete, if_neg Bool.false_ne_true]
  dsimp only [Action.onward]
  cases edit.demandBelow memory level (.stored pointed.toNat) (attr.inherit parent) slot with
  | error cause => rfl
  | ok count => exact congrArg Except.ok (Nat.zero_add count)

include creates

theorem entryDemand_error_iff (start_aligned : edit.start % pageBytes = 0)
    (slot_aligned : slot % pageBytes = 0) (met : edit.meets slot (levelSize (level + 1)) = true)
    (lower : ∀ pointed attr, current = .table pointed attr →
      ((∃ cause, edit.demandBelow memory level (.stored pointed.toNat) (attr.inherit parent) slot =
        .error cause) ↔ edit.MeetsUnmapped (memory.pageBelow level pointed.toNat
          (attr.inherit parent)) slot (slot + levelSize (level + 1)))) :
    (∃ cause, edit.entryDemand memory level parent slot current = .error cause) ↔
      edit.MeetsUnmapped (memory.pageAt level parent current) slot
        (slot + levelSize (level + 1)) := by
  cases current with
  | absent =>
      rw [meets_iff] at met
      refine iff_of_true ⟨.invalidParameter .incompleteMask, ?_⟩
        ⟨max edit.start slot, ?_, by omega, by omega, by omega, by omega, rfl⟩
      · rw [entryDemand, action_absent, if_pos creates, if_neg (by simp [incomplete])]
      · rcases Nat.le_total edit.start slot with early | late
        · rw [Nat.max_eq_right early, slot_aligned]
        · rw [Nat.max_eq_left late, start_aligned]
  | leaf size attr =>
      apply iff_of_false
      · rintro ⟨cause, failed⟩
        exact entryDemand_leaf_ne_error failed
      · rintro ⟨linear, -, -, -, -, -, unmapped⟩
        cases unmapped
  | table pointed attr =>
      rw [entryDemand_table incomplete]
      exact lower pointed attr rfl

theorem demandBelow_error_iff (start_aligned : edit.start % pageBytes = 0) (positive : level ≠ 0)
    (origin_aligned : origin % levelSize (level + 1) = 0)
    (resolves : Resolves memory level (.stored address)) :
    (∃ cause, edit.demandBelow memory level (.stored address) parent origin = .error cause) ↔
      edit.MeetsUnmapped (memory.pageBelow level address parent) origin
        (origin + levelSize (level + 1)) := by
  induction level generalizing address parent origin with
  | zero => exact absurd rfl positive
  | succ level induction =>
      have has := resolves address rfl address (.inl rfl)
      rw [demandBelow_eq, total_error_iff, meetsUnmapped_table origin_aligned has]
      refine exists_congr fun index => and_congr_right fun member => ?_
      have slot_aligned := slot_aligned origin_aligned positive index.val
      rw [slotDemand_stored has]
      apply entryDemand_error_iff creates incomplete start_aligned (page_of_slot slot_aligned)
        (mem_slots.mp member)
      intro pointed attr pointer
      have inner : level ≠ 0 := by
        have := Entry.decode_table pointer
        omega
      apply induction inner slot_aligned
      intro child stored target spanned
      cases stored
      refine resolves address rfl target (.inr ⟨index, ?_⟩)
      rw [pointer]
      exact spanned

end Incomplete

/-- The edit makes pages present under a mask that leaves fields undefined, and some page of
its range is unmapped. -/
def LeavesUndefined (edit : Edit) (memory : Memory) (root : Nat) : Prop :=
  edit.creates = true ∧ edit.maskCreates = false ∧
    ∃ linear, linear % pageBytes = 0 ∧ edit.start ≤ linear ∧ linear < edit.stop ∧
      memory.translate edit.mode root linear = none

theorem translateBelow_eq_none {linear : Nat} (aligned : linear % pageBytes = 0) :
    memory.translateBelow level address parent linear = none ↔
      memory.pageBelow level address parent linear = none := by
  have start : pageStart linear = linear := by
    have split := pageStart_add linear
    omega
  rw [Memory.translateBelow_eq, Option.map_eq_none_iff, start]

section Demand

variable (checked : edit.checkRange = .ok ())

include checked

theorem leavesUndefined_iff (rooted : root ≠ 0) (creates : edit.creates = true)
    (incomplete : edit.maskCreates = false)
    (resolves : Resolves memory edit.mode.maxLevel (.stored root)) :
    edit.LeavesUndefined memory root ↔ ∃ cause, edit.demand memory root = .error cause := by
  obtain ⟨start_aligned, -, inside⟩ := checkRange_ok checked
  rw [Mode.linearLimit_eq] at inside
  rw [demand_rooted rooted, demandBelow_error_iff creates incomplete start_aligned
    edit.mode.maxLevel_ne_zero (Nat.zero_mod _) resolves]
  constructor
  · rintro ⟨-, -, linear, aligned, start, stop, unmapped⟩
    rw [Memory.translate, if_neg rooted, translateBelow_eq_none aligned] at unmapped
    exact ⟨linear, aligned, start, stop, Nat.zero_le _, by omega, unmapped⟩
  · rintro ⟨linear, aligned, start, stop, -, -, unmapped⟩
    refine ⟨creates, incomplete, linear, aligned, start, stop, ?_⟩
    rw [Memory.translate, if_neg rooted, translateBelow_eq_none aligned]
    exact unmapped

/-- Counting fails if and only if the edit leaves fields of a new page undefined. -/
theorem demand_error_iff (length : edit.length ≠ 0)
    (resolves : root ≠ 0 → Resolves memory edit.mode.maxLevel (.stored root)) :
    edit.demand memory root = .error cause ↔
      cause = .invalidParameter .incompleteMask ∧ edit.LeavesUndefined memory root := by
  by_cases rooted : root = 0
  · subst rooted
    have start_aligned := (checkRange_ok checked).1
    rw [demand_unrooted]
    constructor
    · intro failed
      split at failed
      next creates =>
        split at failed
        next mask =>
          cases lower : edit.demandBelow memory edit.mode.maxLevel .blank .permissive 0 with
          | ok count =>
              rw [lower] at failed
              cases failed
          | error reason =>
              obtain ⟨-, -, incomplete⟩ := demandBelow_refused
                (fun address stored => Source.noConfusion stored) lower
              rw [mask] at incomplete
              cases incomplete
        next incomplete =>
          refine ⟨(Except.error.inj failed).symm, creates, Bool.eq_false_iff.mpr incomplete,
            edit.start, start_aligned, Nat.le_refl _, ?_, if_pos rfl⟩
          rw [stop]
          omega
      next => cases failed
    · rintro ⟨rfl, creates, incomplete, -⟩
      rw [if_pos creates, if_neg (by simp [incomplete])]
  · have resolves := resolves rooted
    constructor
    · intro failed
      have lower := failed
      rw [demand_rooted rooted] at lower
      obtain ⟨rfl, creates, incomplete⟩ := demandBelow_refused resolves lower
      exact ⟨rfl, (leavesUndefined_iff checked rooted creates incomplete resolves).mpr
        ⟨_, failed⟩⟩
    · rintro ⟨rfl, undefined⟩
      obtain ⟨reason, failed⟩ :=
        (leavesUndefined_iff checked rooted undefined.1 undefined.2.1 resolves).mp undefined
      have lower := failed
      rw [demand_rooted rooted] at lower
      rw [failed, (demandBelow_refused resolves lower).1]

end Demand

end Edit

end Remap.PageTable
