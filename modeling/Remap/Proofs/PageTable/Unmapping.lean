import Remap.Proofs.PageTable.Trees

/-!
# Ranges that are unmapped

An edit that selects the present flag and clears it unmaps all pages of its range. It needs no
physical addresses, but its length is checked as if it did: a range of more than the physical
address space is refused, though a tree of five levels translates longer ones.
-/

namespace Remap.PageTable

namespace Edit

variable {edit : Edit} {level slot linear : Nat} {parent : Attribute} {space after : Workspace}
  {outcome : Outcome}

theorem still_of_removes (removes : edit.removes = true) : edit.creates = false := by
  simp only [Edit.removes, Bool.and_eq_true, Bool.not_eq_true'] at removes
  rw [creates, removes.2, Bool.and_false]

theorem Rewrites.page_removed {before after : Node}
    (rewrites : edit.Rewrites level parent slot before after)
    (above : Above level slot linear parent) (formed : before.Formed level)
    (aligned : linear % pageBytes = 0) (inside : edit.start ≤ linear ∧ linear < edit.stop)
    (removes : edit.removes = true) : after.page level parent linear = none := by
  let related (_ new : Option Attribute) : Prop := new = none
  change related (before.page level parent linear) (after.page level parent linear)
  refine rewrites.page_related above formed aligned (fun outside => absurd inside outside) ?_ ?_
  · intro level slot parent node above formed acted
    rcases keep_cases acted with absent | ⟨size, attr, first, leaf, same⟩
    · exact Node.page_absent absent
    · obtain ⟨word, rfl, found⟩ := formed.of_leaf leaf
      have present := (Entry.decode_leaf found).2.present
      have absent : (edit.updated (attr.advance (first - slot)) first).has .present = false :=
        absent_of_removes removes
      rw [same, Attribute.has_advance, present] at absent
      cases absent
  · intro level slot parent node entry above formed acted
    obtain ⟨writes, rfl⟩ := store_cases acted
    have low := (writes_of_writesLeaf writes).low
    exact (Node.page_leafAt (Nat.pos_of_ne_zero above.positive) low).trans
      (if_neg (Bool.eq_false_iff.mp (absent_of_removes removes)))

theorem Remakes.translate_removed (remakes : edit.Remakes space outcome after)
    (has : ∀ target, space.Spans edit.mode.maxLevel target → space.memory.Has target)
    (limit : linear < edit.mode.linearLimit)
    (inside : edit.start ≤ pageStart linear ∧ pageStart linear < edit.stop)
    (removes : edit.removes = true) : after.memory.translate edit.mode after.root linear = none := by
  obtain ⟨slot, old, new, rewrites, above, formed, -, became⟩ := remakes.translations has limit
  rw [became, rewrites.page_removed above formed (pageStart_aligned linear) inside removes]
  rfl

end Edit

namespace Tree

variable {mode : Mode} {start length : Nat}

theorem checkRange_removes (startAligned : start % pageBytes = 0)
    (lengthAligned : length % pageBytes = 0) (inside : start + length ≤ mode.linearLimit) :
    Edit.checkRange ⟨mode, start, length, .empty, .all⟩ =
      if spaceSize < length then .error (.invalidParameter .beyondPhysicalSpace) else .ok () := by
  have whole : Attribute.all.includesBase = true := by decide
  have base : Attribute.empty.base.toNat = 0 := rfl
  have aligned : ¬(start % pageBytes ≠ 0 ∨ length % pageBytes ≠ 0) := by omega
  have limit : ¬mode.linearLimit < Edit.stop ⟨mode, start, length, .empty, .all⟩ :=
    Nat.not_lt.mpr inside
  rw [Edit.checkRange, if_neg aligned, if_neg limit, whole, base, Nat.zero_add]
  by_cases long : spaceSize < length
  · rw [if_pos ⟨rfl, long⟩, if_pos long]
  · rw [if_neg fun both => long both.2, if_neg long]

/-- A tree unmaps every range of whole pages that it translates and that is not longer than the
physical address space: no page of the range is mapped then, all others translate as before, and
the same call again does nothing. A longer range is refused. -/
theorem unmaps_range (tree : Tree) (built : tree.Built) (start length : Nat)
    (startAligned : start % pageBytes = 0) (lengthAligned : length % pageBytes = 0)
    (inside : start + length ≤ tree.mode.linearLimit) :
    (length ≤ spaceSize →
      Memory.firstAddress + (tree.map start length .empty .all).2.memory.reserved ≤ spaceSize →
      ∃ outcome after,
        tree.map start length .empty .all = (.ok outcome, after) ∧
        (∀ linear, start ≤ linear → linear < start + length →
          after.memory.translate tree.mode after.root linear = none) ∧
        (∀ linear, linear < tree.mode.linearLimit → ¬(start ≤ linear ∧ linear < start + length) →
          after.memory.translate tree.mode after.root linear =
            tree.memory.translate tree.mode tree.root linear) ∧
        after.map start length .empty .all = (.ok .none, after)) ∧
    (spaceSize < length → tree.map start length .empty .all =
      (.error (.invalidParameter .beyondPhysicalSpace), tree)) := by
  have removes : (tree.edit start length .empty .all).removes = true := by
    change (Attribute.all.has .present && !Attribute.empty.has .present) = true
    decide
  have checked : (tree.edit start length .empty .all).checkRange = _ :=
    checkRange_removes startAligned lengthAligned inside
  constructor
  · intro short small
    rw [if_neg (Nat.not_lt.mpr short)] at checked
    have defined :
        ¬(tree.edit start length .empty .all).LeavesUndefined tree.memory tree.root := by
      rintro ⟨creates, -⟩
      rw [Edit.still_of_removes removes] at creates
      cases creates
    obtain ⟨outcome, space, after, map_eq, remade⟩ :=
      built.map_remade small (fun _ => checked) defined
    refine ⟨outcome, _, map_eq, ?_, ?_, remade.map_again built fun _ => checked⟩
    · intro linear low high
      apply remade.remakes.translate_removed remade.has (Nat.lt_of_lt_of_le high inside) ?_ removes
      exact (Edit.pageStart_inside_iff startAligned lengthAligned).mpr ⟨low, high⟩
    · intro linear limit outside
      exact remade.translate_outside built startAligned lengthAligned limit outside
  · intro long
    rw [if_pos long] at checked
    exact built.map_refused (Nat.ne_zero_of_lt long) checked

def largeTree : Tree := (Tree.map ⟨.fiveLevel .page2M, .empty, 0⟩ 0 0x200000 ⟨7⟩ .all).2

theorem largeTree_built : largeTree.Built ∧ largeTree.mode = .fiveLevel .page2M := by
  have made : ofMode (.fiveLevel .page2M) = .ok ⟨.fiveLevel .page2M, .empty, 0⟩ := rfl
  have built : Built ⟨.fiveLevel .page2M, .empty, 0⟩ := .new made
  refine ⟨.map built 0 0x200000 ⟨7⟩ .all (by decide +kernel), ?_⟩
  rw [largeTree, map_mode built]

/-- Page 1 is taken out of the leaf, and all that the tree translates is too much at once. -/
theorem unmaps_range_large :
    (∃ outcome after, largeTree.map 0x1000 0x1000 .empty .all = (.ok outcome, after) ∧
      after.memory.translate largeTree.mode after.root 0x1000 = none ∧
      after.memory.translate largeTree.mode after.root 0x2000 = some ⟨0x2000, 7⟩ ∧
      after.map 0x1000 0x1000 .empty .all = (.ok .none, after)) ∧
    largeTree.map 0 largeTree.mode.linearLimit .empty .all =
      (.error (.invalidParameter .beyondPhysicalSpace), largeTree) := by
  obtain ⟨built, mode_eq⟩ := largeTree_built
  have limit : largeTree.mode.linearLimit = 0x200000000000000 := by
    rw [mode_eq]
    rfl
  have evaluated : Memory.firstAddress +
        (largeTree.map 0x1000 0x1000 .empty .all).2.memory.reserved ≤ spaceSize ∧
      largeTree.memory.translate largeTree.mode largeTree.root 0x2000 = some ⟨0x2000, 7⟩ := by
    decide +kernel
  constructor
  · obtain ⟨outcome, after, ran, unmapped, others, again⟩ :=
      (unmaps_range largeTree built 0x1000 0x1000 rfl rfl (by rw [limit]; decide)).1
        (by decide) evaluated.1
    have same := others 0x2000 (by rw [limit]; decide) (by decide)
    exact ⟨outcome, after, ran, unmapped 0x1000 (by decide) (by decide),
      same.trans evaluated.2, again⟩
  · apply (unmaps_range largeTree built 0 _ rfl ?_ (Nat.le_of_eq (Nat.zero_add _))).2
    · rw [limit]
      decide
    · rw [limit]
      rfl

end Tree

end Remap.PageTable
