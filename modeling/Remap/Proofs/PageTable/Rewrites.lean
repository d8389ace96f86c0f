import Remap.Proofs.PageTable.Counting
import Remap.Proofs.PageTable.Node

/-!
# What an edit makes of a tree

An edit rewrites the nodes of a tree one by one, whatever its tables allow and whatever fields
the edit selects. A rewriting changes no page outside of the range of the edit, and what was
rewritten is rewritten to itself.
-/

namespace Remap.PageTable

namespace Edit

variable {edit : Edit} {level slot linear : Nat} {parent below : Attribute} {current : Entry}
  {entry : Entry} {action : Action}

/-- What the edit makes of a node at `level`, for the addresses from `slot` and below tables
with the effective attribute `parent`. -/
inductive Rewrites (edit : Edit) :
    (level : Nat) → (parent : Attribute) → (slot : Nat) → (before after : Node) → Prop
  | apart {level : Nat} {parent : Attribute} {slot : Nat} {node : Node}
      (unmet : edit.meets slot (levelSize level) = false) :
      Rewrites edit level parent slot node node
  | keep {level : Nat} {parent : Attribute} {slot : Nat} {node : Node}
      (acted : edit.action level slot parent (node.entry level) = .ok .keep) :
      Rewrites edit level parent slot node node
  | store {level : Nat} {parent : Attribute} {slot : Nat} {node : Node} {entry : Entry}
      (acted : edit.action level slot parent (node.entry level) = .ok (.store entry)) :
      Rewrites edit level parent slot node (.plain entry.encode)
  | enter {level : Nat} {parent below : Attribute} {slot address : Nat} {marks : UInt64}
      {entries others : Fin tableEntries → Node}
      (acted : edit.action (level + 1) slot parent (.decode marks (level + 1)) =
        .ok (.enter address below))
      (inner : ∀ index, Rewrites edit level below (slot + index.val * levelSize level)
        (entries index) (others index)) :
      Rewrites edit (level + 1) parent slot (.table marks entries) (.table marks others)
  | grow {level : Nat} {parent below : Attribute} {slot : Nat} {word : UInt64}
      {entries : Fin tableEntries → Node} (positive : level ≠ 0)
      (acted : edit.action (level + 1) slot parent (.decode word (level + 1)) = .ok (.grow below))
      (inner : ∀ index, Rewrites edit level below (slot + index.val * levelSize level)
        (.plain 0) (entries index)) :
      Rewrites edit (level + 1) parent slot (.plain word) (.table Attribute.grantMask entries)
  | split {level : Nat} {parent leaf below : Attribute} {slot : Nat} {word : UInt64}
      {entries : Fin tableEntries → Node} (positive : level ≠ 0)
      (acted : edit.action (level + 1) slot parent (.decode word (level + 1)) =
        .ok (.split leaf below))
      (inner : ∀ index : Fin tableEntries,
        Rewrites edit level below (slot + index.val * levelSize level)
          (.plain (splitEntry leaf level index).encode) (entries index)) :
      Rewrites edit (level + 1) parent slot (.plain word) (.table Attribute.grantMask entries)

section Actions

theorem leafAction_idle (acted : edit.leafAction level slot current = .ok action) :
    action.onward = none ∧ (∀ entry, action = .store entry →
      entry = .leafAt level (edit.updated (current.leafAttribute?.getD .empty) slot)) := by
  rw [leafAction] at acted
  split at acted
  next =>
    split at acted
    next =>
      obtain ⟨-, rfl⟩ := checkMask_ok acted
      exact ⟨rfl, fun _ same => (Action.store.inj same).symm⟩
    next =>
      cases acted
      exact ⟨rfl, fun _ => Action.noConfusion⟩
  next =>
    cases acted
    exact ⟨rfl, fun _ same => (Action.store.inj same).symm⟩

theorem not_writesLeaf_of_onward {next : Nat × Source × Attribute}
    (acted : edit.action level slot parent current = .ok action)
    (onward : action.onward = some next) : edit.writesLeaf level slot current = false := by
  rw [Edit.action] at acted
  split at acted
  next =>
    rw [(leafAction_idle acted).1] at onward
    cases onward
  next inner => exact Bool.eq_false_iff.mpr inner

theorem store_cases (acted : edit.action level slot parent current = .ok (.store entry)) :
    edit.writesLeaf level slot current = true ∧
      entry = .leafAt level (edit.updated (current.leafAttribute?.getD .empty) slot) := by
  rw [Edit.action] at acted
  split at acted
  next writes => exact ⟨writes, (leafAction_idle acted).2 entry rfl⟩
  next =>
    cases current with
    | absent =>
        rw [innerAction] at acted
        split at acted
        next =>
          obtain ⟨-, other⟩ := checkMask_ok acted
          cases other
        next => cases acted
    | table pointed attr =>
        rw [innerAction] at acted
        cases acted
    | leaf size attr =>
        rw [innerAction] at acted
        split at acted <;> cases acted

/-- A leaf is written over a leaf, unless the mask selects the base address and presence. -/
theorem store_over_leaf
    (incomplete : edit.mask.includesBase = false ∨ edit.mask.has .present = false)
    (acted : edit.action level slot parent current = .ok (.store entry)) :
    ∃ size attr, current = .leaf size attr ∧ entry = .leafAt level (edit.updated attr slot) := by
  have lacks (both : edit.mask.includesBase = true ∧ edit.mask.has .present = true) : False := by
    rcases incomplete with leaves | leaves
    · exact Bool.false_ne_true (leaves.symm.trans both.1)
    · exact Bool.false_ne_true (leaves.symm.trans both.2)
  obtain ⟨writes, rfl⟩ := store_cases acted
  cases current with
  | leaf size attr => exact ⟨size, attr, rfl, rfl⟩
  | table pointed attr =>
      simp only [writesLeaf, Bool.and_eq_true] at writes
      exact (lacks (of_isComplete writes.2)).elim
  | absent =>
      rw [action_absent] at acted
      split at acted
      next creates =>
        split at acted
        next mask =>
          exact (lacks ⟨includes_of_maskCreates mask, (selected_of_creates creates).1⟩).elim
        next => cases acted
      next => cases acted

theorem keep_cases (acted : edit.action level slot parent current = .ok .keep) :
    current = .absent ∨ ∃ size attr first, current = .leaf size attr ∧
      edit.updated (attr.advance (first - slot)) first = attr.advance (first - slot) := by
  cases current with
  | absent => exact .inl rfl
  | table pointed attr =>
      rw [action_table] at acted
      split at acted <;> cases acted
  | leaf size attr =>
      rw [action_leaf] at acted
      split at acted
      next => cases acted
      next =>
        dsimp only at acted
        split at acted
        next same => exact .inr ⟨size, attr, _, rfl, same⟩
        next => cases acted

theorem enter_cases {address : Nat}
    (acted : edit.action level slot parent current = .ok (.enter address below)) :
    ∃ pointed attr, current = .table pointed attr ∧ address = pointed.toNat ∧
      below = attr.inherit parent := by
  rcases onward_cases acted rfl with ⟨pointed, attr, found, same⟩ | ⟨-, other⟩ | ⟨_, _, -, other⟩
  · cases same
    exact ⟨pointed, attr, found, rfl, rfl⟩
  · cases other
  · cases other

theorem grow_cases (acted : edit.action level slot parent current = .ok (.grow below)) :
    current = .absent ∧ below = Attribute.permissive.inherit parent := by
  rcases onward_cases acted rfl with ⟨_, _, -, other⟩ | ⟨found, same⟩ | ⟨_, _, -, other⟩
  · cases other
  · cases same
    exact ⟨found, rfl⟩
  · cases other

theorem split_cases {leaf : Attribute}
    (acted : edit.action level slot parent current = .ok (.split leaf below)) :
    ∃ size attr, current = .leaf size attr ∧ leaf = attr.inherit parent ∧
      below = Attribute.permissive.inherit parent := by
  rcases onward_cases acted rfl with ⟨_, _, -, other⟩ | ⟨-, other⟩ | ⟨size, attr, found, same⟩
  · cases other
  · cases other
  · cases same
    exact ⟨size, attr, found, rfl, rfl⟩

theorem writesLeaf_plain (writes : edit.writesLeaf level slot current = true)
    (plain : Workspace.Plain entry) : edit.writesLeaf level slot entry = true := by
  cases entry with
  | table pointed attr => exact absurd rfl (plain pointed attr)
  | absent | leaf =>
      simp only [writesLeaf, Bool.and_eq_true] at writes ⊢
      exact ⟨writes.1, trivial⟩

theorem action_pointer {next : Nat × Source × Attribute}
    (acted : edit.action level slot parent current = .ok action)
    (onward : action.onward = some next) (plain : Workspace.Plain current) (pointed : UInt64)
    (attr : Attribute) : edit.action level slot parent (.table pointed attr) =
      .ok (.enter pointed.toNat (attr.inherit parent)) := by
  have inner : edit.writesLeaf level slot (.table pointed attr) = false := by
    apply Bool.eq_false_iff.mpr
    intro writes
    have also := writesLeaf_plain writes plain
    rw [not_writesLeaf_of_onward acted onward] at also
    cases also
  rw [action_table, inner, if_neg Bool.false_ne_true]

theorem stored_again (positive : 1 ≤ level)
    (kept : ∀ size attr, current = .leaf size attr → Entry.stored level attr = attr)
    (acted : edit.action level slot parent current = .ok (.store entry)) :
    edit.action level slot parent (.decode entry.encode level) = .ok .keep ∨
      edit.action level slot parent (.decode entry.encode level) = .ok (.store entry) := by
  obtain ⟨writes, rfl⟩ := store_cases acted
  have low := (writes_of_writesLeaf writes).low
  have whole : Entry.stored level (current.leafAttribute?.getD .empty) =
      current.leafAttribute?.getD .empty := by
    cases current with
    | leaf size attr => exact kept size attr rfl
    | absent | table => exact congrArg Attribute.mk UInt64.zero_and
  generalize current.leafAttribute?.getD .empty = existing at whole
  cases present : (edit.updated existing slot).has .present with
  | false =>
      have still : edit.creates = false := by
        apply Bool.eq_false_iff.mpr
        intro creates
        obtain ⟨selected, granted⟩ := selected_of_creates creates
        rw [updated, Attribute.has_update selected,
          Attribute.has_congr (Attribute.rights_withBase _), granted] at present
        cases present
      rw [Entry.decode_encode_absent positive low present, action_absent, still,
        if_neg Bool.false_ne_true]
      exact .inl rfl
  | true =>
      have also : edit.writesLeaf level slot (.leaf (.ofLevel level)
          (Entry.stored level (edit.updated existing slot))) = true :=
        writesLeaf_plain writes (Workspace.plain_of_leaf rfl)
      have same : edit.updated (Entry.stored level (edit.updated existing slot)) slot =
          edit.updated existing slot :=
        Attribute.update_kept (congrArg Attribute.bits whole)
      rw [Entry.decode_encode_stored positive low present, Entry.leafAt, action_leaf, also,
        if_pos rfl, same]
      exact .inr rfl

end Actions

theorem decode_grant (positive : level ≠ 0) :
    Entry.decode Attribute.grantMask (level + 1) = .table 0 .permissive := by
  have inner : level + 1 ≠ 1 := by omega
  exact Entry.decode_encode_pointer inner (Nat.zero_mod _) (by decide)

theorem inner_of_enter {address : Nat} {word : UInt64}
    (acted : edit.action (level + 1) slot parent (.decode word (level + 1)) =
      .ok (.enter address below)) : level ≠ 0 := by
  obtain ⟨pointed, attr, found, -, -⟩ := enter_cases acted
  have := Entry.decode_table found
  omega

/-- What was rewritten is rewritten to itself. -/
theorem Rewrites.again {before after : Node}
    (rewrites : edit.Rewrites level parent slot before after) (positive : level ≠ 0) :
    edit.Rewrites level parent slot after after := by
  induction rewrites with
  | apart unmet => exact .apart unmet
  | keep acted => exact .keep acted
  | @store level parent slot node entry acted =>
      have kept : ∀ size attr, node.entry level = .leaf size attr →
          Entry.stored level attr = attr := by
        intro size attr found
        cases node with
        | plain word => exact (Entry.decode_leaf found).2.stored
        | table marks entries => exact (Entry.decode_leaf found).2.stored
      rcases stored_again (Nat.pos_of_ne_zero positive) kept acted with keep | store
      · exact .keep keep
      · exact .store store
  | enter acted inner induction =>
      exact .enter acted fun index => induction index (inner_of_enter acted)
  | grow inner acted rewritten induction =>
      obtain ⟨found, rfl⟩ := grow_cases acted
      have entered := action_pointer acted rfl (Workspace.plain_of_absent found) 0 .permissive
      rw [← decode_grant inner] at entered
      exact .enter entered fun index => induction index inner
  | split inner acted rewritten induction =>
      obtain ⟨size, attr, found, rfl, rfl⟩ := split_cases acted
      have entered := action_pointer acted rfl (Workspace.plain_of_leaf found) 0 .permissive
      rw [← decode_grant inner] at entered
      exact .enter entered fun index => induction index inner

/-- A part of a leaf gives what the leaf gave, as what the tables above take away is taken away
once. -/
theorem page_split {attr : Attribute} (positive : level ≠ 0) (fits : Entry.Fits (level + 1) attr)
    (grants : parent.Grants) (aligned : linear % pageBytes = 0) :
    (Node.plain (splitEntry (attr.inherit parent) level (slotOf level linear)).encode).page level
        (Attribute.permissive.inherit parent) linear =
      some ((attr.inherit parent).advance (linear % levelSize (level + 1))) := by
  have near : (slotOf level linear).val * levelSize level % pageBytes = 0 := by
    rw [Nat.mul_mod, levelSize_aligned, Nat.mul_zero, Nat.zero_mod]
  have far : linear % levelSize level % pageBytes = 0 := by
    rw [Nat.mod_mod_of_dvd _ (Nat.dvd_of_mod_eq_zero (levelSize_aligned level)), aligned]
  have found : Entry.decode (splitEntry (attr.inherit parent) level (slotOf level linear)).encode
      level = .leaf (.ofLevel level)
        ((attr.inherit parent).advance ((slotOf level linear).val * levelSize level)) :=
    Entry.decode_encode_leaf
      (splitEntry_fits (Nat.pos_of_ne_zero positive) (fits.inherit grants))
  rw [Node.page_leaf found, Attribute.inherit_advance, Attribute.inherit_again,
    Attribute.advance_advance near far, ← offset_split positive]

structure Above (level slot linear : Nat) (parent : Attribute) : Prop where
  positive : level ≠ 0
  aligned : slot % levelSize level = 0
  low : slot ≤ linear
  high : linear < slot + levelSize level
  grants : parent.Grants

theorem Above.entered (above : Above (level + 1) slot linear parent) (positive : level ≠ 0)
    (grants : below.Grants) :
    Above level (slot + (slotOf level linear).val * levelSize level) linear below := by
  obtain ⟨low, high⟩ := slotOf_range above.aligned positive above.low above.high
  exact ⟨positive, slot_aligned above.aligned positive _, low, high, grants⟩

/-- What holds of a page where nothing is done, where its node is kept and where a leaf is stored
for it, holds of the page under every rewriting: new tables map what was there before. -/
theorem Rewrites.page_related {related : Option Attribute → Option Attribute → Prop}
    {before after : Node} (rewrites : edit.Rewrites level parent slot before after)
    (above : Above level slot linear parent) (formed : before.Formed level)
    (aligned : linear % pageBytes = 0)
    (unmet : ¬(edit.start ≤ linear ∧ linear < edit.stop) → ∀ page, related page page)
    (kept : ∀ {level slot : Nat} {parent : Attribute} {node : Node},
      Above level slot linear parent → node.Formed level →
      edit.action level slot parent (node.entry level) = .ok .keep →
      related (node.page level parent linear) (node.page level parent linear))
    (stored : ∀ {level slot : Nat} {parent : Attribute} {node : Node} {entry : Entry},
      Above level slot linear parent → node.Formed level →
      edit.action level slot parent (node.entry level) = .ok (.store entry) →
      related (node.page level parent linear)
        ((Node.plain entry.encode).page level parent linear)) :
    related (before.page level parent linear) (after.page level parent linear) := by
  induction rewrites with
  | apart apart => exact unmet (outside_of_unmet apart above.low above.high) _
  | keep acted => exact kept above formed acted
  | store acted => exact stored above formed acted
  | enter acted inner induction =>
      have positive := inner_of_enter acted
      obtain ⟨pointed, attr, found, -, rfl⟩ := enter_cases acted
      have grants := (Entry.decode_table_grants found).inherit above.grants
      rw [Node.page_table found, Node.page_table found]
      exact induction _ (above.entered positive grants) (formed.of_table _)
  | @grow level parent below slot word entries positive acted inner induction =>
      obtain ⟨found, rfl⟩ := grow_cases acted
      have absent : (Node.plain word).entry (level + 1) = .absent := found
      have blank : (Node.plain 0).entry level = .absent := Entry.decode_zero
      have grants := Attribute.grants_permissive.inherit above.grants
      rw [Node.page_table (decode_grant positive), Node.page_absent absent,
        ← Node.page_absent blank]
      exact induction _ (above.entered positive grants) .plain
  | split positive acted inner induction =>
      obtain ⟨size, attr, found, rfl, rfl⟩ := split_cases acted
      have grants := Attribute.grants_permissive.inherit above.grants
      rw [Node.page_table (decode_grant positive), Node.page_leaf found,
        ← page_split positive (Entry.decode_leaf found).2 above.grants aligned]
      exact induction _ (above.entered positive grants) .plain

theorem Rewrites.page_outside {before after : Node}
    (rewrites : edit.Rewrites level parent slot before after)
    (above : Above level slot linear parent) (formed : before.Formed level)
    (aligned : linear % pageBytes = 0) (outside : ¬(edit.start ≤ linear ∧ linear < edit.stop)) :
    after.page level parent linear = before.page level parent linear := by
  refine (rewrites.page_related above formed aligned (fun _ _ => rfl) (fun _ _ _ => rfl) ?_).symm
  intro level slot parent node entry above formed acted
  exact absurd ((writes_of_writesLeaf (store_cases acted).1).inside above.low above.high) outside

end Edit

end Remap.PageTable
