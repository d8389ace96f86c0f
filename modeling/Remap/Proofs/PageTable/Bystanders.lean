import Remap.Proofs.PageTable.Remake

/-!
# Bystanders

A call may replace large leaves by tables of smaller ones to reach the pages of its range. It
never changes the translation of an address outside of the range, whatever the tables above
take away and however often a leaf is split.
-/

namespace Remap.PageTable

namespace Workspace

variable {mode : Mode}

theorem has_of_proper (space : Workspace)
    (proper : space.root ≠ 0 → space.memory.Proper mode space.root) (target : Nat)
    (spanned : space.Spans mode.maxLevel target) : space.memory.Has target :=
  (proper spanned.1).resolves target spanned.2

theorem owns_of_proper (space : Workspace)
    (proper : space.root ≠ 0 → space.memory.Proper mode space.root)
    (apart : ∀ target, space.Spans mode.maxLevel target → ¬space.buffer.Spare target)
    (rooted : space.root ≠ 0) : space.Owns mode.maxLevel space.root :=
  (proper rooted).owns Memory.extends_self fun target spanned => apart target ⟨rooted, spanned⟩

end Workspace

namespace Edit

variable {edit : Edit} {space after : Workspace} {outcome : Outcome}

theorem Remakes.has (remakes : edit.Remakes space outcome after) (target : Nat)
    (spanned : after.Spans edit.mode.maxLevel target) : after.memory.Has target :=
  (remakes.owns spanned.1).has target spanned.2

theorem pageStart_outside {linear : Nat} (start : edit.start % pageBytes = 0)
    (length : edit.length % pageBytes = 0)
    (outside : ¬(edit.start ≤ linear ∧ linear < edit.stop)) :
    ¬(edit.start ≤ pageStart linear ∧ pageStart linear < edit.stop) := by
  rintro ⟨low, high⟩
  have below := pageStart_le linear
  have above := lt_pageStart_add linear
  have aligned := pageStart_aligned linear
  apply outside
  refine ⟨by omega, ?_⟩
  simp only [stop, pageBytes] at *
  omega

theorem pageStart_inside_iff {linear : Nat} (start : edit.start % pageBytes = 0)
    (length : edit.length % pageBytes = 0) :
    (edit.start ≤ pageStart linear ∧ pageStart linear < edit.stop) ↔
      edit.start ≤ linear ∧ linear < edit.stop := by
  constructor
  · intro inside
    apply Decidable.byContradiction
    exact fun outside => pageStart_outside start length outside inside
  · rintro ⟨low, high⟩
    have below := pageStart_le linear
    have above := lt_pageStart_add linear
    have aligned := pageStart_aligned linear
    refine ⟨?_, Nat.lt_of_le_of_lt below high⟩
    simp only [pageBytes] at *
    omega

theorem inside_iff_of_ok (ran : edit.apply space = (.ok outcome, after)) (linear : Nat) :
    (edit.start ≤ pageStart linear ∧ pageStart linear < edit.stop) ↔
      edit.start ≤ linear ∧ linear < edit.stop := by
  rcases (apply_ok ran).2 with ⟨empty, -⟩ | ⟨-, checked, -⟩
  · have stop_eq : edit.stop = edit.start := by rw [stop, empty, Nat.add_zero]
    omega
  · obtain ⟨start, length, -⟩ := checkRange_ok checked
    exact pageStart_inside_iff start length

/-- The translations of an address before and after a call are those of a page of two nodes, of
which one was made of the other. -/
theorem Remakes.translations (remakes : edit.Remakes space outcome after)
    (has : ∀ target, space.Spans edit.mode.maxLevel target → space.memory.Has target)
    {linear : Nat} (inside : linear < edit.mode.linearLimit) :
    ∃ (slot : Nat) (old new : Node),
      edit.Rewrites edit.mode.maxLevel .permissive slot old new ∧
      Above edit.mode.maxLevel slot (pageStart linear) .permissive ∧
      old.Formed edit.mode.maxLevel ∧
      space.memory.translate edit.mode space.root linear =
        (old.page edit.mode.maxLevel .permissive (pageStart linear)).map
          (·.translation (linear % pageBytes)) ∧
      after.memory.translate edit.mode after.root linear =
        (new.page edit.mode.maxLevel .permissive (pageStart linear)).map
          (·.translation (linear % pageBytes)) := by
  have positive := edit.mode.maxLevel_ne_zero
  have limit : pageStart linear < 0 + levelSize (edit.mode.maxLevel + 1) := by
    rw [Nat.zero_add, ← Mode.linearLimit_eq]
    exact Nat.lt_of_le_of_lt (pageStart_le linear) inside
  obtain ⟨low, high⟩ := slotOf_range (Nat.zero_mod _) positive (Nat.zero_le _) limit
  rw [Nat.zero_add] at low high
  exact ⟨_, _, _, remakes.rewrites _,
    ⟨positive, Nat.mul_mod_left _ _, low, high, Attribute.grants_permissive⟩,
    space.nodes_formed _ _, Workspace.translate_eq_nodes has linear,
    Workspace.translate_eq_nodes remakes.has linear⟩

theorem Remakes.translate_eq (remakes : edit.Remakes space outcome after)
    (has : ∀ target, space.Spans edit.mode.maxLevel target → space.memory.Has target)
    {linear : Nat} (inside : linear < edit.mode.linearLimit)
    (outside : ¬(edit.start ≤ pageStart linear ∧ pageStart linear < edit.stop)) :
    after.memory.translate edit.mode after.root linear =
      space.memory.translate edit.mode space.root linear := by
  obtain ⟨slot, old, new, rewrites, above, formed, was, became⟩ :=
    remakes.translations has inside
  rw [was, became, rewrites.page_outside above formed (pageStart_aligned linear) outside]

/-- A call that succeeds leaves the translation of every address outside of its range, on every
tree whose tables exist and are reached through one entry each. The unused pages of its buffer
are not in the tree, and pointers can hold their addresses. -/
theorem apply_keeps_outside (edit : Edit) (space : Workspace)
    (proper : space.root ≠ 0 → space.memory.Proper edit.mode space.root)
    (apart : ∀ target, space.Spans edit.mode.maxLevel target → ¬space.buffer.Spare target)
    (fits : space.Addressable) (outcome : Outcome) (after : Workspace)
    (ran : edit.apply space = (.ok outcome, after)) (linear : Nat)
    (inside : linear < edit.mode.linearLimit)
    (outside : ¬(edit.start ≤ linear ∧ linear < edit.stop)) :
    after.memory.translate edit.mode after.root linear =
      space.memory.translate edit.mode space.root linear := by
  rcases (apply_ok ran).2 with ⟨-, -, rfl⟩ | ⟨-, checked, -⟩
  · rfl
  · obtain ⟨start, length, -⟩ := checkRange_ok checked
    have remakes := apply_remakes fits (space.owns_of_proper proper apart) ran
    exact remakes.translate_eq (space.has_of_proper proper) inside
      (pageStart_outside start length outside)

def lentNested : Workspace :=
  ⟨⟨nested.tables ++ Array.replicate 3 Table.blank⟩, 0x100000, nestedBuffer⟩

theorem lentNested_owns : lentNested.Owns 4 0x100000 := by
  have extends_ : lentNested.memory.Extends nested := ⟨_, rfl⟩
  apply nested_proper.owns extends_
  intro target spanned spare
  rcases nested_spans spanned with rfl | rfl
  · exact absurd spare.1 (by decide)
  · exact absurd spare.1 (by decide)

theorem lentNested_addressable : lentNested.Addressable := by
  rintro address - ⟨-, high⟩
  exact Nat.lt_of_lt_of_le high (by decide)

theorem unmap_succeeds : ∃ after, unmap.apply lentNested = (.ok ⟨2, true⟩, after) ∧
    after.root = lentNested.root := by
  have evaluated : (unmap.apply lentNested).1.toOption = some ⟨2, true⟩ ∧
      (unmap.apply lentNested).2.root = lentNested.root := by decide +kernel
  exact ⟨_, ran_of_toOption evaluated.1, evaluated.2⟩

theorem lentNested_proper (_ : lentNested.root ≠ 0) :
    lentNested.memory.Proper (.fourLevel .page1G) lentNested.root :=
  ⟨lentNested_owns.has, lentNested_owns.separate⟩

theorem apply_keeps_outside_nested :
    ∃ outcome after, unmap.apply lentNested = (.ok outcome, after) ∧
      after.memory.translate (.fourLevel .page1G) after.root 0x2123 = some ⟨0x2123, 5⟩ := by
  obtain ⟨after, ran, -⟩ := unmap_succeeds
  have same := apply_keeps_outside unmap lentNested lentNested_proper
    (fun target spanned => lentNested_owns.apart target spanned.2) lentNested_addressable _ _ ran
    0x2123 (by decide) (by decide)
  refine ⟨_, _, ran, same.trans ?_⟩
  decide +kernel

end Edit

end Remap.PageTable
