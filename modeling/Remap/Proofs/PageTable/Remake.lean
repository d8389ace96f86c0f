import Remap.Proofs.PageTable.Accounting
import Remap.Proofs.PageTable.Apply
import Remap.Proofs.PageTable.CommitRework

/-!
# What a call makes of a tree

A call that succeeds rewrites the nodes of the root table. Its tree is made of tables that
were in the tree and of pages taken from the buffer, and all other pages stay as they were,
apart from those that are still unused.
-/

namespace Remap.PageTable

namespace Workspace

def Spans (space : Workspace) (level target : Nat) : Prop :=
  space.root ≠ 0 ∧ space.memory.view.Spans level space.root target

def nodes (space : Workspace) (level : Nat) : Fin tableEntries → Node :=
  if space.root = 0 then fun _ => .plain 0 else space.memory.view.nodes level space.root

variable {space : Workspace} {level : Nat} {mode : Mode}

theorem nodes_unrooted (unrooted : space.root = 0) : space.nodes level = fun _ => .plain 0 :=
  if_pos unrooted

theorem nodes_rooted (rooted : space.root ≠ 0) :
    space.nodes level = space.memory.view.nodes level space.root :=
  if_neg rooted

theorem nodes_formed (space : Workspace) (level : Nat) (index : Fin tableEntries) :
    (space.nodes level index).Formed level := by
  rw [nodes]
  split
  next => exact .plain
  next => exact Tables.node_formed

theorem translate_eq_nodes
    (has : ∀ target, space.Spans mode.maxLevel target → space.memory.Has target) (linear : Nat) :
    space.memory.translate mode space.root linear =
      ((space.nodes mode.maxLevel (slotOf mode.maxLevel (pageStart linear))).page mode.maxLevel
        .permissive (pageStart linear)).map (·.translation (linear % pageBytes)) := by
  rw [Memory.translate]
  by_cases rooted : space.root = 0
  · have blank : (Node.plain 0).entry mode.maxLevel = .absent := Entry.decode_zero
    rw [if_pos rooted, nodes_unrooted rooted, Node.page_absent blank]
    rfl
  · rw [if_neg rooted, nodes_rooted rooted, Memory.translateBelow_eq,
      Memory.pageBelow_eq_nodes mode.maxLevel_ne_zero fun target spanned =>
        has target ⟨rooted, spanned⟩]

end Workspace

theorem Memory.Extends.translate_eq {memory grown : Memory} {mode : Mode} {root : Nat}
    (extends_ : grown.Extends memory) (proper : root ≠ 0 → memory.Proper mode root)
    (linear : Nat) : grown.translate mode root linear = memory.translate mode root linear := by
  by_cases rooted : root = 0
  · rw [translate, translate, if_pos rooted, if_pos rooted]
  · have resolves := (proper rooted).resolves
    have same (target : Nat) (spanned : memory.view.Spans mode.maxLevel root target) :
        grown.view target = memory.view target :=
      extends_.view_eq (resolves target spanned)
    have has (target : Nat) (spanned : grown.view.Spans mode.maxLevel root target) :
        grown.Has target :=
      extends_.has (resolves target ((Tables.spans_of_same same).mp spanned))
    rw [translate, translate, if_neg rooted, if_neg rooted, translateBelow_eq, translateBelow_eq,
      pageBelow_eq_nodes mode.maxLevel_ne_zero has,
      pageBelow_eq_nodes mode.maxLevel_ne_zero resolves, Tables.nodes_of_same same]

namespace Edit

variable {edit : Edit} {space after : Workspace} {outcome : Outcome} {child : Nat}
  {before last : Progress}

structure Remakes (edit : Edit) (before : Workspace) (outcome : Outcome) (after : Workspace) :
    Prop where
  spends : ∃ count, Spends count ⟨before, 0, false⟩ ⟨after, outcome.pages, outcome.modified⟩
  owns : after.root ≠ 0 → after.Owns edit.mode.maxLevel after.root
  spans : ∀ target, after.Spans edit.mode.maxLevel target →
    before.Spans edit.mode.maxLevel target ∨
      Gained ⟨before, 0, false⟩ ⟨after, outcome.pages, outcome.modified⟩ target
  frame : ∀ target, before.memory.Has target → ¬before.Spans edit.mode.maxLevel target →
    ¬before.buffer.Spare target → after.memory.view target = before.memory.view target
  rewrites : ∀ index, edit.Rewrites edit.mode.maxLevel .permissive
    (index.val * levelSize edit.mode.maxLevel) (before.nodes edit.mode.maxLevel index)
    (after.nodes edit.mode.maxLevel index)
  rooted : edit.creates = true → edit.length ≠ 0 → after.root ≠ 0
  marked : (outcome = .none ∧ after = before) ∨ (outcome.modified = true ∧
    (after.root ≠ before.root ∨
      after.nodes edit.mode.maxLevel ≠ before.nodes edit.mode.maxLevel))

theorem remakes_self (owns : space.root ≠ 0 → space.Owns edit.mode.maxLevel space.root)
    (rewrites : ∀ index, edit.Rewrites edit.mode.maxLevel .permissive
      (index.val * levelSize edit.mode.maxLevel) (space.nodes edit.mode.maxLevel index)
      (space.nodes edit.mode.maxLevel index))
    (rooted : edit.creates = true → edit.length ≠ 0 → space.root ≠ 0) :
    edit.Remakes space .none space where
  spends := ⟨0, .refl⟩
  owns := owns
  spans _ spanned := .inl spanned
  frame _ _ _ _ := rfl
  rewrites := rewrites
  rooted := rooted
  marked := .inl ⟨rfl, rfl⟩

theorem rewrites_empty (length : edit.length = 0) (level : Nat) (parent : Attribute) (slot : Nat)
    (node : Node) : edit.Rewrites level parent slot node node := by
  apply Rewrites.apart
  apply Bool.eq_false_iff.mpr
  intro met
  rw [meets_iff, stop, length] at met
  omega

theorem rewrites_still (still : edit.creates = false) (level : Nat) (parent : Attribute)
    (slot : Nat) : edit.Rewrites level parent slot (.plain 0) (.plain 0) := by
  apply Rewrites.keep
  rw [Node.entry, Entry.decode_zero, action_absent, still, if_neg Bool.false_ne_true]

/-- Work on the root table at `root`, which is that of the workspace or a new one. -/
theorem remakes_of_rework {between : Progress} {root count : Nat} (rooted : root ≠ 0)
    (spent : Spends count ⟨space, 0, false⟩ between)
    (owns : between.space.Owns edit.mode.maxLevel root)
    (nodes_eq : between.space.memory.view.nodes edit.mode.maxLevel root =
      space.nodes edit.mode.maxLevel)
    (spans : ∀ target, between.space.memory.view.Spans edit.mode.maxLevel root target →
      space.Spans edit.mode.maxLevel target ∨ Gained ⟨space, 0, false⟩ between target)
    (frame : ∀ target, space.memory.Has target → ¬space.buffer.Spare target →
      between.space.memory.view target = space.memory.view target)
    (start : root = space.root → between = ⟨space, 0, false⟩)
    (worked : TableRework edit edit.mode.maxLevel root .permissive 0
      (edit.slots edit.mode.maxLevel 0) between last) :
    edit.Remakes space ⟨last.pages, last.modified || root != space.root⟩
      { last.space with root } := by
  obtain ⟨more, spends⟩ := worked.spends
  have whole := spent.trans spends
  have later : ({ last.space with root } : Workspace).nodes edit.mode.maxLevel =
      last.space.memory.view.nodes edit.mode.maxLevel root := if_neg rooted
  constructor
  · exact ⟨count + more, whole.size_eq, whole.base_eq, whole.whole_eq, whole.remaining_eq,
      whole.pages_eq⟩
  · intro _
    have after := worked.owns owns
    exact ⟨after.separate, after.has, after.apart⟩
  · rintro target ⟨-, spanned⟩
    rcases worked.spans target spanned with middle | gained
    · rcases spans target middle with old | gained
      · exact .inl old
      · have gained := spends.gained_after gained
        exact .inr ⟨gained.took, gained.has⟩
    · have gained := spent.gained_before gained
      exact .inr ⟨gained.took, gained.has⟩
  · intro target has outside unspare
    rw [← frame target has unspare]
    apply worked.frame target (spent.has has)
    · intro spanned
      rcases spans target spanned with old | gained
      · exact outside old
      · exact unspare gained.took.2.1
    · exact fun spare => unspare (spent.spare spare)
  · intro index
    have rewrites := rewritten worked index
    rw [Nat.zero_add, nodes_eq] at rewrites
    rw [later]
    exact rewrites
  · exact fun _ _ => rooted
  · rw [later]
    by_cases same : root = space.root
    · -- the root table was there, so nothing was done before the work on it
      have fresh := start same
      subst fresh
      subst same
      rw [bne_self_eq_false, Bool.or_false]
      rcases worked.marked with idle | ⟨marked, changed⟩
      · subst idle
        exact .inl ⟨rfl, rfl⟩
      · refine .inr ⟨marked, .inr ?_⟩
        obtain ⟨index, -, differs⟩ := changed.resolve_left Bool.false_ne_true
        rw [← nodes_eq]
        exact fun same => differs (congrFun same index)
    · refine .inr ⟨?_, .inl same⟩
      rw [bne_iff_ne.mpr same, Bool.or_true]

section Commits

variable (start : edit.start % pageBytes = 0) (length : edit.length % pageBytes = 0)
  (fits : space.Addressable)

include start length fits

theorem rooted_remakes (rooted : space.root ≠ 0)
    (owns : space.Owns edit.mode.maxLevel space.root)
    (ran : (edit.commitBelow edit.mode.maxLevel space.root .permissive 0).Yields
      ⟨space, 0, false⟩ () last) :
    edit.Remakes space ⟨last.pages, last.modified || space.root != space.root⟩
      { last.space with root := space.root } := by
  have worked := commitBelow_reworks start length edit.mode.maxLevel_ne_zero (Nat.zero_mod _)
    space.root .permissive ⟨space, 0, false⟩ last Attribute.grants_permissive fits owns ran
  refine remakes_of_rework rooted .refl owns (Workspace.nodes_rooted rooted).symm ?_
    (fun _ _ _ => rfl) (fun _ => rfl) worked
  exact fun target spanned => .inl ⟨rooted, spanned⟩

theorem grown_remakes {between : Progress} (unrooted : space.root = 0)
    (allocated : (Commit.allocate Table.blank).Yields ⟨space, 0, false⟩ child between)
    (ran : (edit.commitBelow edit.mode.maxLevel child .permissive 0).Yields between () last) :
    edit.Remakes space ⟨last.pages, last.modified || child != space.root⟩
      { last.space with root := child } := by
  obtain ⟨spends, gained, -⟩ := Commit.yields_allocate_gained allocated
  obtain ⟨puts, -⟩ := Commit.yields_allocate allocated
  have rooted : child ≠ 0 := by
    rintro rfl
    exact absurd gained.has.2.1 (by decide)
  have grown := grown_blank edit.mode.maxLevel allocated
  have worked := commitBelow_reworks start length edit.mode.maxLevel_ne_zero (Nat.zero_mod _) child
    .permissive between last Attribute.grants_permissive (spends.addressable fits) grown.owns ran
  refine remakes_of_rework rooted spends grown.owns ?_ ?_ ?_ ?_ worked
  · funext index
    rw [Workspace.nodes_unrooted unrooted, grown.nodes Workspace.plain_blank, Table.word_blank]
  · intro target spanned
    rw [grown.only spanned]
    exact .inr gained
  · intro target has unspare
    apply puts.elsewhere target has
    rintro rfl
    exact unspare gained.took.2.1
  · intro same
    exact absurd (same.trans unrooted) rooted

theorem commit_remakes (owns : space.root ≠ 0 → space.Owns edit.mode.maxLevel space.root)
    (ran : edit.commit space = (.ok outcome, after)) : edit.Remakes space outcome after := by
  rw [commit_eq] at ran
  rcases committed : edit.commitFrom space.root ⟨space, 0, false⟩ with ⟨result, last⟩
  rw [committed] at ran
  cases result with
  | error cause => cases ran
  | ok root =>
      cases ran
      have committed : (edit.commitFrom space.root).Yields ⟨space, 0, false⟩ root last := committed
      rw [commitFrom] at committed
      by_cases rooted : space.root = 0
      · rw [if_neg (fun other => other rooted)] at committed
        cases creates : edit.creates with
        | true =>
            rw [creates, if_pos rfl] at committed
            obtain ⟨child, between, allocated, committed⟩ := Commit.yields_bind committed
            obtain ⟨done, final, worked, committed⟩ := Commit.yields_bind committed
            obtain ⟨rfl, rfl⟩ := Commit.yields_pure committed
            exact grown_remakes start length fits rooted allocated worked
        | false =>
            rw [creates, if_neg Bool.false_ne_true] at committed
            obtain ⟨rfl, rfl⟩ := Commit.yields_pure committed
            have remakes : edit.Remakes space .none space := by
              refine remakes_self owns ?_ fun other => absurd other (Bool.eq_false_iff.mp creates)
              intro index
              rw [Workspace.nodes_unrooted rooted]
              exact rewrites_still creates _ _ _
            obtain ⟨memory, root, buffer⟩ := space
            dsimp only at rooted
            subst rooted
            exact remakes
      · rw [if_pos rooted] at committed
        obtain ⟨done, between, worked, committed⟩ := Commit.yields_bind committed
        obtain ⟨rfl, rfl⟩ := Commit.yields_pure committed
        exact rooted_remakes start length fits rooted (owns rooted) worked

end Commits

theorem apply_remakes (fits : space.Addressable)
    (owns : space.root ≠ 0 → space.Owns edit.mode.maxLevel space.root)
    (ran : edit.apply space = (.ok outcome, after)) : edit.Remakes space outcome after := by
  rcases (apply_ok ran).2 with ⟨empty, rfl, rfl⟩ | ⟨-, checked, ran⟩
  · exact remakes_self owns (fun _ => rewrites_empty empty _ _ _ _)
      fun _ length => absurd empty length
  · obtain ⟨start, length, -⟩ := checkRange_ok checked
    exact commit_remakes start length fits owns ran

end Edit

end Remap.PageTable
