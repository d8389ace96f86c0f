import Remap.Proofs.PageTable.Walk

/-!
# What an edit makes of a page

An edit is a function of single pages: it gives a mapped page the selected fields,
maps an unmapped page if it selects and grants presence, and unmaps a page that ends
up without presence. Whatever the edit stores in an entry, keeps or goes into agrees
with this on each page below the entry.
-/

namespace Remap.PageTable

namespace Edit

/-- What the edit makes of the page at `linear`, whose attribute was `current`. -/
def revise (edit : Edit) (linear : Nat) (current : Option Attribute) : Option Attribute :=
  if edit.start ≤ linear ∧ linear < edit.stop then
    let requested := edit.requested.withBase
      (.ofNat (edit.requested.base.toNat + (linear - edit.start)))
    let revised := match current with
      | some attr => some (attr.update requested edit.mask)
      | none =>
          if edit.mask.has .present && edit.requested.has .present then
            some (Attribute.empty.update requested edit.mask)
          else none
    revised.filter fun attr => attr.has .present
  else current

structure Proper (edit : Edit) : Prop where
  requested : edit.requested.Defined
  whole : edit.mask.Whole
  supported : edit.mode.isSupported = true
  start_aligned : edit.start % pageBytes = 0
  length_aligned : edit.length % pageBytes = 0

variable {edit : Edit} {level slot linear : Nat} {attr : Attribute} {current : Entry}

theorem meets_iff {size : Nat} : edit.meets slot size = true ↔
    max edit.start slot < min edit.stop (slot + size) := by
  rw [meets, decide_eq_true_iff]

theorem outside_of_unmet {size : Nat} (unmet : edit.meets slot size = false) (low : slot ≤ linear)
    (high : linear < slot + size) : ¬(edit.start ≤ linear ∧ linear < edit.stop) := by
  intro inside
  have met : edit.meets slot size = true := meets_iff.mpr (by omega)
  rw [unmet] at met
  cases met

theorem mem_slots {origin : Nat} {index : Fin tableEntries} : index ∈ edit.slots level origin ↔
    edit.meets (origin + index.val * levelSize level) (levelSize level) = true := by
  rw [slots, List.mem_filter, and_iff_right (List.mem_finRange index)]

theorem slots_nodup (edit : Edit) (level origin : Nat) : (edit.slots level origin).Nodup :=
  List.Pairwise.filter _ (List.nodup_finRange tableEntries)

theorem revise_outside {page : Option Attribute}
    (outside : ¬(edit.start ≤ linear ∧ linear < edit.stop)) : edit.revise linear page = page :=
  if_neg outside

theorem revise_some (inside : edit.start ≤ linear ∧ linear < edit.stop) :
    edit.revise linear (some attr) =
      (some (edit.updated attr linear)).filter fun attr => attr.has .present :=
  if_pos inside

theorem revise_none (still : edit.creates = false) : edit.revise linear none = none := by
  rw [creates] at still
  rw [revise]
  split
  next => simp [still]
  next => rfl

theorem updated_of_includes (includes : edit.mask.includesBase = true) (other : Attribute) :
    edit.updated attr linear = edit.updated other linear :=
  Attribute.update_of_includes includes other

theorem revise_of_includes (inside : edit.start ≤ linear ∧ linear < edit.stop)
    (includes : edit.mask.includesBase = true) (selected : edit.mask.has .present = true)
    (page : Option Attribute) : edit.revise linear page =
      (some (edit.updated .empty linear)).filter fun attr => attr.has .present := by
  cases page with
  | some attr => rw [revise_some inside, updated_of_includes includes .empty]
  | none =>
      have present : (edit.updated .empty linear).has .present = edit.requested.has .present := by
        rw [updated, Attribute.has_update selected]
        exact Attribute.has_congr (Attribute.rights_withBase _) _
      rw [Option.filter_some, present, revise, if_pos inside, selected, Bool.true_and]
      cases set : edit.requested.has .present with
      | false => rfl
      | true =>
          rw [set] at present
          change (some (edit.updated .empty linear)).filter (fun attr => attr.has .present) = _
          rw [Option.filter_some, present]

/-- Pages that follow each other are given attributes that follow each other. -/
theorem updated_advance (whole : edit.mask.Whole) (inside : edit.start ≤ linear) {distance : Nat}
    (aligned : distance % pageBytes = 0) :
    edit.updated (attr.advance distance) (linear + distance) =
      (edit.updated attr linear).advance distance := by
  apply Attribute.ext_base_rights
  · apply UInt64.toNat_inj.mp
    rw [Attribute.toNat_base_advance aligned, updated, updated]
    cases includes : edit.mask.includesBase with
    | true =>
        have further : linear + distance - edit.start = linear - edit.start + distance := by omega
        rw [Attribute.base_update_of_includes includes, Attribute.base_update_of_includes includes,
          Attribute.base_withBase, Attribute.base_withBase, Attribute.toNat_and_baseMask,
          Attribute.toNat_and_baseMask, physical, physical, further, UInt64.toNat_ofNat',
          UInt64.toNat_ofNat']
        simp only [spaceSize, pageBytes, Nat.reduceShiftLeft] at *
        omega
    | false =>
        have leaves := (Attribute.includesBase_eq whole).mp includes
        rw [Attribute.base_update_of_leaves leaves, Attribute.base_update_of_leaves leaves,
          Attribute.toNat_base_advance aligned]
  · rw [Attribute.rights_advance, updated, updated, Attribute.rights_update,
      Attribute.rights_update, Attribute.rights_advance, Attribute.rights_withBase,
      Attribute.rights_withBase]

theorem maxLeafLevel_le (mode : Mode) : mode.maxLeafLevel ≤ 3 := by
  cases mode with
  | legacy => decide
  | pae => decide
  | fourLevel largest => cases largest <;> decide
  | fiveLevel largest => cases largest <;> decide

theorem maxLeafLevel_pos (mode : Mode) : 1 ≤ mode.maxLeafLevel := by
  cases mode with
  | legacy => decide
  | pae => decide
  | fourLevel largest => cases largest <;> decide
  | fiveLevel largest => cases largest <;> decide

structure Writes (edit : Edit) (level slot : Nat) : Prop where
  low : level ≤ 3
  start_le : edit.start ≤ slot
  le_stop : slot + levelSize level ≤ edit.stop
  aligned : edit.mask.includesBase = false ∨ edit.removes = true ∨
    edit.physical slot % levelSize level = 0

theorem writes_of_writesLeaf (writes : edit.writesLeaf level slot current = true) :
    edit.Writes level slot := by
  simp only [writesLeaf, covers, Bool.and_eq_true, Bool.or_eq_true, decide_eq_true_eq,
    Bool.not_eq_true', beq_iff_eq, or_assoc] at writes
  obtain ⟨⟨⟨⟨start_le, le_stop⟩, low⟩, aligned⟩, -⟩ := writes
  exact ⟨Nat.le_trans low (maxLeafLevel_le edit.mode), start_le, le_stop, aligned⟩

theorem Writes.inside (writes : edit.Writes level slot) (low : slot ≤ linear)
    (high : linear < slot + levelSize level) : edit.start ≤ linear ∧ linear < edit.stop :=
  ⟨Nat.le_trans writes.start_le low, Nat.lt_of_lt_of_le high writes.le_stop⟩

theorem absent_of_removes (removes : edit.removes = true) :
    (edit.updated attr linear).has .present = false := by
  simp only [Edit.removes, Bool.and_eq_true, Bool.not_eq_true'] at removes
  rw [updated, Attribute.has_update removes.1,
    Attribute.has_congr (Attribute.rights_withBase _), removes.2]

theorem dvd_page (positive : 1 ≤ level) (low : level ≤ 3) {value : Nat}
    (aligned : value % levelSize level = 0) :
    value % 0x10000000000000000 % spaceSize / pageBytes * pageBytes % levelSize level = 0 := by
  rcases Entry.level_cases positive low with rfl | rfl | rfl <;>
    simp only [levelSize, spaceSize, pageBytes, Nat.reduceShiftLeft, Nat.reduceMul, Nat.reduceAdd,
      Nat.reduceSub] at * <;>
    omega

theorem Writes.fits (proper : edit.Proper) (writes : edit.Writes level slot) (positive : 1 ≤ level)
    (defined : attr.Defined) (aligned : attr.base.toNat % levelSize level = 0)
    (present : (edit.updated attr slot).has .present = true) :
    Entry.Fits level (edit.updated attr slot) where
  positive := positive
  low := writes.low
  defined := defined.update (proper.requested.withBase _)
  present := present
  aligned := by
    rw [updated]
    cases includes : edit.mask.includesBase with
    | false =>
        have leaves := (Attribute.includesBase_eq proper.whole).mp includes
        rw [Attribute.base_update_of_leaves leaves]
        exact aligned
    | true =>
        rcases writes.aligned with excludes | removes | physical
        · rw [includes] at excludes
          cases excludes
        · rw [absent_of_removes removes] at present
          cases present
        · rw [Attribute.base_update_of_includes includes, Attribute.base_withBase,
            Attribute.toNat_and_baseMask, UInt64.toNat_ofNat']
          exact dvd_page positive writes.low physical

theorem page_leafAt (tables : Tables) (positive : 1 ≤ level) (low : level ≤ 3)
    (fits : attr.has .present = true → Entry.Fits level attr) (linear : Nat) :
    tables.page level (.decode (Entry.leafAt level attr).encode level) linear =
      (some (attr.advance (linear % levelSize level))).filter fun attr => attr.has .present := by
  obtain ⟨lower, rfl⟩ := Nat.exists_eq_add_of_le' positive
  rw [Option.filter_some, Attribute.has_advance]
  cases present : attr.has .present with
  | true =>
      rw [Entry.decode_encode_leaf (fits present), Entry.leafAt, Tables.page, if_pos rfl]
  | false =>
      rw [Entry.decode_encode_absent positive low present, Tables.page, if_neg (by decide)]

end Edit

end Remap.PageTable
