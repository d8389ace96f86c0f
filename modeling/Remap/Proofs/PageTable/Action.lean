import Remap.Proofs.PageTable.Inherit
import Remap.Proofs.PageTable.Revise

/-!
# What an edit does with an entry

Below tables that take nothing away there are eight ways to deal with an entry. Where
a leaf is stored or the entry kept, the pages below are those that the edit makes;
where the edit goes on in a new table, that table maps what the entry did.
-/

namespace Remap.PageTable

namespace Edit

variable {edit : Edit} {level slot linear : Nat} {current : Entry} {action : Action}

inductive Decides (edit : Edit) (level slot : Nat) : Entry → Action → Prop
  | skip (still : edit.creates = false) : Decides edit level slot .absent .keep
  | fill (writes : edit.Writes level slot) (creates : edit.creates = true)
      (mask : edit.maskCreates = true) :
      Decides edit level slot .absent (.store (.leafAt level (edit.updated .empty slot)))
  | refill {size : LeafSize} {attr : Attribute} (writes : edit.Writes level slot) :
      Decides edit level slot (.leaf size attr) (.store (.leafAt level (edit.updated attr slot)))
  | replace {pointed : UInt64} {attr : Attribute} (writes : edit.Writes level slot)
      (complete : edit.mask.isComplete = true) :
      Decides edit level slot (.table pointed attr)
        (.store (.leafAt level (edit.updated .empty slot)))
  | retain {size : LeafSize} {attr : Attribute}
      (same : edit.updated (attr.advance (max edit.start slot - slot)) (max edit.start slot) =
        attr.advance (max edit.start slot - slot)) :
      Decides edit level slot (.leaf size attr) .keep
  | enter {pointed : UInt64} {attr : Attribute} :
      Decides edit level slot (.table pointed attr) (.enter pointed.toNat attr)
  | grow (inner : edit.writesLeaf level slot .absent = false) :
      Decides edit level slot .absent (.grow .permissive)
  | split {size : LeafSize} {attr : Attribute}
      (inner : edit.writesLeaf level slot (.leaf size attr) = false) :
      Decides edit level slot (.leaf size attr) (.split attr .permissive)

theorem checkMask_ok {α : Type} {value result : α}
    (checked : (do edit.checkMask; return value) = Except.ok result) :
    edit.maskCreates = true ∧ result = value := by
  rw [checkMask] at checked
  cases mask : edit.maskCreates with
  | true =>
      rw [mask, if_pos rfl] at checked
      cases checked
      exact ⟨rfl, rfl⟩
  | false =>
      rw [mask, if_neg (by decide)] at checked
      cases checked

theorem leafAction_decides (writes : edit.writesLeaf level slot current = true)
    (acted : edit.leafAction level slot current = .ok action) :
    Decides edit level slot current action := by
  have place := writes_of_writesLeaf writes
  cases current with
  | absent =>
      rw [leafAction, if_pos rfl] at acted
      cases creates : edit.creates with
      | true =>
          rw [creates, if_pos rfl] at acted
          obtain ⟨mask, rfl⟩ := checkMask_ok acted
          exact .fill place creates mask
      | false =>
          rw [creates, if_neg (by decide)] at acted
          cases acted
          exact .skip creates
  | leaf size attr =>
      rw [leafAction, if_neg (by simp)] at acted
      cases acted
      exact .refill place
  | table pointed attr =>
      rw [leafAction, if_neg (by simp)] at acted
      cases acted
      have complete : edit.mask.isComplete = true := by
        simp only [writesLeaf, Bool.and_eq_true] at writes
        exact writes.2
      exact .replace place complete

theorem innerAction_decides (inner : edit.writesLeaf level slot current = false)
    (acted : edit.innerAction slot .permissive current = .ok action) :
    Decides edit level slot current action := by
  cases current with
  | absent =>
      cases creates : edit.creates with
      | true =>
          rw [innerAction, creates, if_pos rfl, Attribute.inherit_permissive] at acted
          obtain ⟨mask, rfl⟩ := checkMask_ok acted
          exact .grow inner
      | false =>
          rw [innerAction, creates, if_neg (by decide)] at acted
          cases acted
          exact .skip creates
  | leaf size attr =>
      rw [innerAction] at acted
      split at acted
      next same =>
        cases acted
        exact .retain same
      next =>
        rw [Attribute.inherit_permissive, Attribute.inherit_permissive] at acted
        cases acted
        exact .split inner
  | table pointed attr =>
      rw [innerAction, Attribute.inherit_permissive] at acted
      cases acted
      exact .enter

theorem action_decides (acted : edit.action level slot .permissive current = .ok action) :
    Decides edit level slot current action := by
  rw [Edit.action] at acted
  split at acted
  next writes => exact leafAction_decides writes acted
  next inner => exact innerAction_decides (Bool.eq_false_iff.mpr inner) acted

theorem writesLeaf_low (start : edit.start % pageBytes = 0) (length : edit.length % pageBytes = 0)
    (aligned : slot % pageBytes = 0) (met : edit.meets slot (levelSize 1) = true)
    (kind : ∀ pointed attr, current ≠ .table pointed attr) :
    edit.writesLeaf 1 slot current = true := by
  have base := Attribute.base_aligned edit.requested
  rw [meets_iff] at met
  have covered : edit.start ≤ slot ∧ slot + levelSize 1 ≤ edit.stop := by
    simp only [stop, levelSize_one, pageBytes] at *
    omega
  have place : edit.physical slot % levelSize 1 = 0 := by
    rw [physical]
    simp only [levelSize_one, pageBytes] at *
    omega
  have level := maxLeafLevel_pos edit.mode
  cases current with
  | table pointed attr => exact absurd rfl (kind pointed attr)
  | absent =>
      simp only [writesLeaf, covers, place, covered, level, decide_true, beq_self_eq_true,
        Bool.or_true, Bool.and_true]
  | leaf size attr =>
      simp only [writesLeaf, covers, place, covered, level, decide_true, beq_self_eq_true,
        Bool.or_true, Bool.and_true]

theorem inner_of_not_writesLeaf (start : edit.start % pageBytes = 0)
    (length : edit.length % pageBytes = 0) (aligned : slot % pageBytes = 0)
    (met : edit.meets slot (levelSize (level + 1)) = true)
    (kind : ∀ pointed attr, current ≠ .table pointed attr)
    (inner : edit.writesLeaf (level + 1) slot current = false) : level ≠ 0 := by
  rintro rfl
  rw [writesLeaf_low start length aligned met kind] at inner
  cases inner

theorem revise_of_not_met {page : Option Attribute}
    (apart : edit.meets slot (levelSize level) = false)
    (low : slot ≤ linear) (high : linear < slot + levelSize level) :
    edit.revise linear page = page :=
  revise_outside (outside_of_unmet apart low high)

theorem selected_of_creates (creates : edit.creates = true) :
    edit.mask.has .present = true ∧ edit.requested.has .present = true := by
  simpa [Edit.creates] using creates

theorem includes_of_maskCreates (mask : edit.maskCreates = true) :
    edit.mask.includesBase = true := by
  simp only [maskCreates, Bool.and_eq_true] at mask
  exact mask.2

theorem of_isComplete {mask : Attribute} (complete : mask.isComplete = true) :
    mask.includesBase = true ∧ mask.has .present = true := by
  have whole : mask.bits &&& Attribute.all.bits = Attribute.all.bits := by
    simpa [Attribute.isComplete] using complete
  have narrow (bits : UInt64) (inside : Attribute.all.bits &&& bits = bits) :
      mask.bits &&& bits = bits := by
    rw [← inside, ← UInt64.and_assoc, whole]
  constructor
  · rw [Attribute.includesBase, Attribute.base, narrow _ (by decide)]
    decide
  · rw [Attribute.has, narrow _ (by decide)]
    decide

variable {tables : Tables}

theorem page_fresh (proper : edit.Proper) (writes : edit.Writes level slot) (positive : 1 ≤ level)
    (slotAligned : slot % levelSize level = 0) (includes : edit.mask.includesBase = true)
    (selected : edit.mask.has .present = true) (low : slot ≤ linear)
    (high : linear < slot + levelSize level) (aligned : linear % pageBytes = 0)
    (page : Option Attribute) :
    tables.page level
        (.decode (Entry.leafAt level (edit.updated .empty slot)).encode level) linear =
      edit.revise linear page := by
  have inside := writes.inside low high
  have further : slot + (linear - slot) = linear := Nat.add_sub_cancel' low
  have step := page_of_offset slotAligned aligned
  have fits : (edit.updated .empty slot).has .present = true →
      Entry.Fits level (edit.updated .empty slot) :=
    writes.fits proper positive rfl (Nat.zero_mod _)
  rw [page_leafAt tables positive writes.low fits, offset_eq slotAligned low high,
    revise_of_includes inside includes selected,
    ← updated_advance proper.whole writes.start_le step,
    further, updated_of_includes includes .empty]

theorem page_refill {attr : Attribute} (proper : edit.Proper) (writes : edit.Writes level slot)
    (slotAligned : slot % levelSize level = 0) (fits : Entry.Fits level attr) (low : slot ≤ linear)
    (high : linear < slot + levelSize level) (aligned : linear % pageBytes = 0) :
    tables.page level (.decode (Entry.leafAt level (edit.updated attr slot)).encode level) linear =
      edit.revise linear (some (attr.advance (linear % levelSize level))) := by
  have inside := writes.inside low high
  have further : slot + (linear - slot) = linear := Nat.add_sub_cancel' low
  have step := page_of_offset slotAligned aligned
  rw [page_leafAt tables fits.positive fits.low
      (writes.fits proper fits.positive fits.defined fits.aligned),
    offset_eq slotAligned low high, revise_some inside,
    ← updated_advance proper.whole writes.start_le step, further]

/-- A leaf that is retained maps what the edit makes: its first page in the range stays
the same, and both sides go on alike from there. -/
theorem revise_retained {attr : Attribute} (proper : edit.Proper)
    (slotAligned : slot % levelSize level = 0) (present : attr.has .present = true)
    (same : edit.updated (attr.advance (max edit.start slot - slot)) (max edit.start slot) =
      attr.advance (max edit.start slot - slot))
    (low : slot ≤ linear) (high : linear < slot + levelSize level)
    (aligned : linear % pageBytes = 0) :
    edit.revise linear (some (attr.advance (linear % levelSize level))) =
      some (attr.advance (linear % levelSize level)) := by
  by_cases inside : edit.start ≤ linear ∧ linear < edit.stop
  · have start := proper.start_aligned
    have slotPage := page_of_slot slotAligned
    generalize first_eq : max edit.start slot = first at same
    have near : (first - slot) % pageBytes = 0 := by
      simp only [pageBytes] at *
      omega
    have far : (linear - first) % pageBytes = 0 := by
      simp only [pageBytes] at *
      omega
    have whole : first - slot + (linear - first) = linear - slot := by omega
    have further : first + (linear - first) = linear := by omega
    have after : edit.start ≤ first := by omega
    have stays : edit.updated (attr.advance (linear - slot)) linear =
        attr.advance (linear - slot) := by
      have goes : edit.updated ((attr.advance (first - slot)).advance (linear - first))
          (first + (linear - first)) =
          (edit.updated (attr.advance (first - slot)) first).advance (linear - first) :=
        updated_advance proper.whole after far
      rwa [same, Attribute.advance_advance near far, whole, further] at goes
    rw [revise_some inside, offset_eq slotAligned low high, stays, Option.filter_some,
      Attribute.has_advance, present, if_pos rfl]
  · exact revise_outside inside

theorem splitEntry_fits {attr : Attribute} {index : Nat} (positive : 1 ≤ level)
    (fits : Entry.Fits (level + 1) attr) :
    Entry.Fits level (attr.advance (index * levelSize level)) where
  positive := positive
  low := Nat.le_of_succ_le fits.low
  defined := fits.defined.advance _
  present := by rw [Attribute.has_advance, fits.present]
  aligned := by
    have aligned := fits.aligned
    have step : index * levelSize level % pageBytes = 0 := by
      rw [Nat.mul_mod, levelSize_aligned, Nat.mul_zero, Nat.zero_mod]
    have low := fits.low
    rw [Attribute.toNat_base_advance step]
    have level_eq : level = 1 ∨ level = 2 := by omega
    rcases level_eq with rfl | rfl <;>
      simp only [levelSize, spaceSize, Nat.reduceShiftLeft, Nat.reduceMul, Nat.reduceAdd,
        Nat.reduceSub] at * <;>
      omega

theorem page_part {attr : Attribute} (positive : 1 ≤ level) (fits : Entry.Fits (level + 1) attr)
    (aligned : linear % pageBytes = 0) :
    tables.page level
        (.decode (splitEntry attr level (slotOf level linear)).encode level) linear =
      some (attr.advance (linear % levelSize (level + 1))) := by
  have part : Entry.Fits level (attr.advance ((slotOf level linear).val * levelSize level)) :=
    splitEntry_fits positive fits
  have near : (slotOf level linear).val * levelSize level % pageBytes = 0 := by
    rw [Nat.mul_mod, levelSize_aligned, Nat.mul_zero, Nat.zero_mod]
  have far : linear % levelSize level % pageBytes = 0 := by
    rw [Nat.mod_mod_of_dvd _ (Nat.dvd_of_mod_eq_zero (levelSize_aligned level)), aligned]
  change tables.page level (.decode (Entry.leafAt level
    (attr.advance ((slotOf level linear).val * levelSize level))).encode level) linear = _
  rw [page_leafAt tables positive part.low (fun _ => part), Option.filter_some,
    Attribute.has_advance, part.present, if_pos rfl, Attribute.advance_advance near far,
    offset_split (by omega)]

end Edit

end Remap.PageTable
