import Remap.Proofs.PageTable.Bystanders

/-!
# Calls that are made again

A call that is made a second time needs no page and changes nothing, since every node is
rewritten to itself. The outcome of a call says whether it changed a word or the root.
-/

namespace Remap.PageTable

theorem Table.ext_word {left right : Table} (same : ∀ index, left.word index = right.word index) :
    left = right := by
  apply Vector.ext
  intro place inside
  exact same ⟨place, inside⟩

namespace Commit

variable {before : Progress} {address : Nat} {index : Fin tableEntries} {entry : Entry}

theorem setEntry_idle (has : before.space.memory.Has address)
    (same : (before.space.memory.view address).word index = entry.encode) :
    (setEntry address index entry).Yields before () before := by
  refine (table_yields has).bind ?_
  rw [if_neg (fun changed => changed same)]
  exact pure_yields ()

theorem forM_idle {α : Type} {values : List α} {body : α → Commit Unit}
    (each : ∀ value ∈ values, (body value).Yields before () before) :
    (values.forM body).Yields before () before := by
  induction values with
  | nil => exact pure_yields ()
  | cons value rest induction =>
      apply (each value List.mem_cons_self).bind
      exact induction fun other member => each other (List.mem_cons_of_mem _ member)

end Commit

theorem total_zero {α ε : Type} {cost : α → Except ε Nat} {values : List α}
    (each : ∀ value ∈ values, cost value = .ok 0) : total cost values = .ok 0 := by
  induction values with
  | nil => rfl
  | cons value rest induction =>
      rw [total_cons, each value List.mem_cons_self,
        induction fun other member => each other (List.mem_cons_of_mem _ member)]

namespace Edit

variable {edit : Edit} {level address slot origin : Nat} {parent : Attribute}
  {index : Fin tableEntries} {before : Progress} {space after : Workspace} {outcome : Outcome}

/-- An entry that is rewritten to itself is kept, stored as it is, or a pointer to nodes that are
rewritten to themselves. -/
theorem idle_cases (met : edit.meets slot (levelSize (level + 1)) = true)
    (still : edit.Rewrites (level + 1) parent slot
      (before.space.memory.view.nodes (level + 1) address index)
      (before.space.memory.view.nodes (level + 1) address index)) :
    edit.action (level + 1) slot parent
        (before.space.memory.view.entry (level + 1) address index) = .ok .keep ∨
    (∃ entry, edit.action (level + 1) slot parent
        (before.space.memory.view.entry (level + 1) address index) = .ok (.store entry) ∧
      (before.space.memory.view address).word index = entry.encode) ∨
    ∃ pointed attr, before.space.memory.view.entry (level + 1) address index =
        .table pointed attr ∧
      edit.action (level + 1) slot parent
        (before.space.memory.view.entry (level + 1) address index) =
          .ok (.enter pointed.toNat (attr.inherit parent)) ∧
      ∀ place, edit.Rewrites level (attr.inherit parent) (slot + place.val * levelSize level)
        (before.space.memory.view.nodes level pointed.toNat place)
        (before.space.memory.view.nodes level pointed.toNat place) := by
  rw [Tables.nodes] at still
  rw [Tables.entry]
  generalize (before.space.memory.view address).word index = word at still ⊢
  rcases before.space.memory.view.node_cases level word with
    ⟨pointed, attr, found, node_eq⟩ | ⟨-, node_eq⟩
  · rw [node_eq] at still
    have acts {action : Action} (acted : edit.action (level + 1) slot parent
        (.decode (Entry.marks word) (level + 1)) = .ok action) :
        Action.unplaced <$> edit.action (level + 1) slot parent (.table pointed attr) =
          .ok action := by
      rw [Entry.decode_marks found] at acted
      rw [← acted, ← action_unplaced]
      rfl
    rw [found]
    rw [action_table] at acts ⊢
    cases still with
    | apart unmet =>
        rw [met] at unmet
        cases unmet
    | keep acted =>
        have kept := acts acted
        split at kept <;> cases kept
    | enter acted inner =>
        have entered := acts acted
        split at entered
        next => cases entered
        next below =>
          cases entered
          exact .inr (.inr ⟨pointed, attr, rfl, by rw [if_neg below], inner⟩)
  · rw [node_eq] at still
    cases still with
    | apart unmet =>
        rw [met] at unmet
        cases unmet
    | keep acted => exact .inl acted
    | store acted => exact .inr (.inl ⟨_, acted, rfl⟩)

section Idle

variable (has : ∀ target, before.space.memory.view.Spans level address target →
    before.space.memory.Has target)
  (still : ∀ index, edit.Rewrites level parent (origin + index.val * levelSize level)
    (before.space.memory.view.nodes level address index)
    (before.space.memory.view.nodes level address index))

include has still

theorem commitBelow_idle : (edit.commitBelow level address parent origin).Yields before () before ∧
    edit.demandBelow before.space.memory level (.stored address) parent origin = .ok 0 := by
  induction level generalizing address parent origin with
  | zero => exact ⟨Commit.pure_yields (), by rw [demandBelow]; rfl⟩
  | succ level induction =>
      have self := has address (.inl rfl)
      have lower {index : Fin tableEntries} {pointed : UInt64} {attr : Attribute} {slot : Nat}
          (found : before.space.memory.view.entry (level + 1) address index = .table pointed attr)
          (inner : ∀ place, edit.Rewrites level (attr.inherit parent)
            (slot + place.val * levelSize level)
            (before.space.memory.view.nodes level pointed.toNat place)
            (before.space.memory.view.nodes level pointed.toNat place)) :=
        induction (fun target spanned => has target (.inr ⟨index, by rwa [found]⟩)) inner
      rw [commitBelow, demandBelow_eq]
      constructor
      · apply Commit.forM_idle
        intro index member
        rcases idle_cases (mem_slots.mp member) (still index) with
          acted | ⟨entry, acted, same⟩ | ⟨pointed, attr, found, acted, inner⟩
        · exact commitEntry_yields _ self acted (Commit.pure_yields ())
        · exact commitEntry_yields _ self acted (Commit.setEntry_idle self same)
        · exact commitEntry_yields _ self acted (lower found inner).1
      · apply total_zero
        intro index member
        rw [slotDemand_stored self, entryDemand]
        rcases idle_cases (mem_slots.mp member) (still index) with
          acted | ⟨entry, acted, same⟩ | ⟨pointed, attr, found, acted, inner⟩
        · rw [acted]
          rfl
        · rw [acted]
          rfl
        · rw [acted]
          dsimp only [Action.onward]
          rw [(lower found inner).2]
          rfl

end Idle

theorem commit_idle (rooted : edit.creates = true → space.root ≠ 0)
    (has : ∀ target, space.Spans edit.mode.maxLevel target → space.memory.Has target)
    (still : ∀ index, edit.Rewrites edit.mode.maxLevel .permissive
      (index.val * levelSize edit.mode.maxLevel) (space.nodes edit.mode.maxLevel index)
      (space.nodes edit.mode.maxLevel index)) :
    edit.commit space = (.ok .none, space) ∧ edit.demand space.memory space.root = .ok 0 := by
  by_cases unrooted : space.root = 0
  · have creates : edit.creates = false :=
      Bool.eq_false_iff.mpr fun creates => rooted creates unrooted
    obtain ⟨memory, root, buffer⟩ := space
    dsimp only at unrooted
    subst unrooted
    refine ⟨?_, by rw [demand_unrooted, creates]; rfl⟩
    rw [commit_eq, commitFrom, if_neg (fun other => other rfl), creates]
    rfl
  · rw [Workspace.nodes_rooted unrooted] at still
    have below (index : Fin tableEntries) : edit.Rewrites edit.mode.maxLevel .permissive
        (0 + index.val * levelSize edit.mode.maxLevel)
        (space.memory.view.nodes edit.mode.maxLevel space.root index)
        (space.memory.view.nodes edit.mode.maxLevel space.root index) := by
      rw [Nat.zero_add]
      exact still index
    have idle : (edit.commitBelow edit.mode.maxLevel space.root .permissive 0).Yields
          ⟨space, 0, false⟩ () ⟨space, 0, false⟩ ∧
        edit.demandBelow space.memory edit.mode.maxLevel (.stored space.root) .permissive 0 =
          .ok 0 :=
      commitBelow_idle (fun target spanned => has target ⟨unrooted, spanned⟩) below
    have ran : (edit.commitFrom space.root).Yields ⟨space, 0, false⟩ space.root
        ⟨space, 0, false⟩ := by
      rw [commitFrom, if_pos unrooted]
      exact idle.1.bind (Commit.pure_yields space.root)
    rw [Commit.Yields] at ran
    refine ⟨?_, by rw [demand_rooted unrooted, idle.2]⟩
    rw [commit_eq, ran]
    dsimp only
    rw [bne_self_eq_false]
    rfl

/-- After a call that succeeds the same call does nothing, whatever its buffer. -/
theorem Remakes.again (remakes : edit.Remakes space outcome after) (buffer : Buffer)
    (checked : edit.mode.isSupported = true ∧ (edit.length ≠ 0 → edit.checkRange = .ok ())) :
    edit.apply { after with buffer } = (.ok .none, { after with buffer }) := by
  by_cases length : edit.length = 0
  · exact apply_empty checked.1 length
  · have idle : edit.commit { after with buffer } = (.ok .none, { after with buffer }) ∧
        edit.demand after.memory after.root = .ok 0 :=
      commit_idle (fun creates => remakes.rooted creates length) remakes.has
        fun index => (remakes.rewrites index).again edit.mode.maxLevel_ne_zero
    rw [apply_eq checked.1 length (checked.2 length), idle.2]
    dsimp only
    rw [Nat.zero_mul, if_neg (Nat.not_lt_zero _)]
    exact idle.1

/-- The outcome says whether a word or the root changed. -/
theorem Remakes.modified_iff (remakes : edit.Remakes space outcome after)
    (has : ∀ target, space.Spans edit.mode.maxLevel target → space.memory.Has target) :
    outcome.modified = true ↔ (∃ address index, space.memory.Has address ∧
      (after.memory.view address).word index ≠ (space.memory.view address).word index) ∨
      after.root ≠ space.root := by
  constructor
  · intro modified
    rcases remakes.marked with ⟨rfl, -⟩ | ⟨-, changed⟩
    · cases modified
    · by_cases moved : after.root = space.root
      · refine .inl ?_
        have differs := changed.resolve_left (fun other => other moved)
        apply Classical.byContradiction
        intro same
        apply differs
        have view_eq (target : Nat) (spanned : space.Spans edit.mode.maxLevel target) :
            after.memory.view target = space.memory.view target := by
          apply Table.ext_word
          intro index
          apply Classical.byContradiction
          intro other
          exact same ⟨target, index, has target spanned, other⟩
        by_cases rooted : space.root = 0
        · rw [Workspace.nodes_unrooted rooted, Workspace.nodes_unrooted (moved.trans rooted)]
        · rw [Workspace.nodes_rooted rooted, Workspace.nodes_rooted fun other =>
            rooted (moved.symm.trans other), moved]
          exact Tables.nodes_of_same fun target spanned => view_eq target ⟨rooted, spanned⟩
      · exact .inr moved
  · intro changed
    rcases remakes.marked with ⟨-, rfl⟩ | ⟨modified, -⟩
    · rcases changed with ⟨address, index, -, differs⟩ | moved
      · exact absurd rfl differs
      · exact absurd rfl moved
    · exact modified

/-- After a call that succeeds the same call without a buffer does nothing, and the outcome of
the first one says whether it changed a word of the memory or the root. This holds for every tree
whose tables exist and are reached through one entry each. -/
theorem apply_twice (edit : Edit) (space : Workspace)
    (proper : space.root ≠ 0 → space.memory.Proper edit.mode space.root)
    (apart : ∀ target, space.Spans edit.mode.maxLevel target → ¬space.buffer.Spare target)
    (fits : space.Addressable) (outcome : Outcome) (after : Workspace)
    (ran : edit.apply space = (.ok outcome, after)) :
    (outcome.modified = true ↔ (∃ address index, space.memory.Has address ∧
      (after.memory.view address).word index ≠ (space.memory.view address).word index) ∨
      after.root ≠ space.root) ∧
    edit.apply { after with buffer := .empty } = (.ok .none, { after with buffer := .empty }) := by
  have remakes := apply_remakes fits (space.owns_of_proper proper apart) ran
  obtain ⟨supported, done⟩ := apply_ok ran
  refine ⟨remakes.modified_iff (space.has_of_proper proper), remakes.again .empty ⟨supported, ?_⟩⟩
  intro length
  rcases done with ⟨empty, -⟩ | ⟨-, checked, -⟩
  · exact absurd empty length
  · exact checked

theorem apply_twice_nested :
    ∃ outcome after, unmap.apply lentNested = (.ok outcome, after) ∧ outcome.modified = true ∧
      (∃ address index, lentNested.memory.Has address ∧
        (after.memory.view address).word index ≠ (lentNested.memory.view address).word index) ∧
      unmap.apply { after with buffer := .empty } =
        (.ok .none, { after with buffer := .empty }) := by
  obtain ⟨after, ran, kept⟩ := unmap_succeeds
  obtain ⟨changed, again⟩ := apply_twice unmap lentNested lentNested_proper
    (fun target spanned => lentNested_owns.apart target spanned.2) lentNested_addressable _ _ ran
  exact ⟨_, _, ran, rfl, (changed.mp rfl).resolve_right (fun moved => moved kept), again⟩

end Edit

end Remap.PageTable
