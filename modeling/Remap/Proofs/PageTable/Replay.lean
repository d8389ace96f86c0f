import Remap.Proofs.PageTable.Contents

/-!
# Extents that are mapped back

The extents that are read from a tree can be mapped again as they are, in any order. On the tree
itself this needs no page and changes none, though it may put a large leaf in place of a table. On
an empty tree it makes the same pages, so the same extents are read from both.
-/

namespace Remap.PageTable

namespace Edit

variable {edit : Edit} {level slot linear limit : Nat} {parent below attr leaf : Attribute}
  {node : Node} {marks : UInt64} {entries : Fin tableEntries → Node} {size : LeafSize}

def Agrees (edit : Edit) (level slot : Nat) (node : Node) : Prop :=
  ∀ linear, linear % pageBytes = 0 → edit.start ≤ linear → linear < edit.stop → slot ≤ linear →
    linear < slot + levelSize level →
    node.page level .permissive linear = some (edit.updated .empty linear)

theorem Agrees.child (agrees : edit.Agrees (level + 1) slot (.table Attribute.grantMask entries))
    (aligned : slot % levelSize (level + 1) = 0) (positive : level ≠ 0)
    (index : Fin tableEntries) :
    edit.Agrees level (slot + index.val * levelSize level) (entries index) := by
  intro linear page starts stops low high
  have here := agrees linear page starts stops (Nat.le_trans (Nat.le_add_right _ _) low)
    (Nat.lt_of_lt_of_le high (slot_stop_le positive _ index))
  rwa [Node.page_table (decode_grant positive), Attribute.inherit_permissive,
    slotOf_eq aligned positive low high] at here

theorem Agrees.first (agrees : edit.Agrees level slot node) (maps : edit.Maps)
    (aligned : slot % levelSize level = 0) (met : edit.meets slot (levelSize level) = true) :
    node.page level .permissive (max edit.start slot) =
      some (edit.updated .empty (max edit.start slot)) := by
  have first : max edit.start slot % pageBytes = 0 := by
    rcases Nat.le_total edit.start slot with early | late
    · rw [Nat.max_eq_right early, page_of_slot aligned]
    · rw [Nat.max_eq_left late, maps.start]
  have meets := meets_iff.mp met
  exact agrees (max edit.start slot) first (Nat.le_max_left _ _) (by omega)
    (Nat.le_max_right _ _) (by omega)

theorem changes_of_split
    (acted : edit.action level slot parent (.leaf size attr) = .ok (.split leaf below)) :
    edit.updated (attr.advance (max edit.start slot - slot)) (max edit.start slot) ≠
      attr.advance (max edit.start slot - slot) := by
  intro same
  rw [action_leaf] at acted
  split at acted
  next => cases acted
  next =>
    dsimp only at acted
    split at acted
    next => cases acted
    next changes => exact changes same

/-- An edit takes no page below a node that has what the edit makes of it. -/
theorem nodeDemand_agreed (maps : edit.Maps) (aligned : slot % levelSize level = 0)
    (formed : node.Formed level) (regular : node.Regular limit level)
    (agrees : edit.Agrees level slot node) :
    edit.nodeDemand level .permissive slot node = 0 := by
  induction level generalizing slot node with
  | zero => rfl
  | succ level induction =>
      cases met : edit.meets slot (levelSize (level + 1)) with
      | false => exact nodeDemand_unmet met
      | true =>
          have there := agrees.first maps aligned met
          cases acted : edit.action (level + 1) slot .permissive (node.entry (level + 1)) with
          | error cause => exact nodeDemand_error acted
          | ok action =>
              cases action with
              | keep => exact nodeDemand_idle acted rfl
              | store entry => exact nodeDemand_idle acted rfl
              | enter address below =>
                  have positive := inner_of_onward_node maps.start maps.length aligned formed met
                    acted rfl
                  obtain ⟨pointed, attr, found, -, rfl⟩ := enter_cases acted
                  rw [nodeDemand_enter met acted]
                  refine Finset.sum_eq_zero fun index _ => ?_
                  cases regular with
                  | @plain _ word pointless =>
                      -- where no node follows the pointer, no page is mapped
                      have missing : (Node.plain word).page (level + 1) .permissive
                          (max edit.start slot) = none := by
                        have found : Entry.decode word (level + 1) = .table pointed attr := found
                        rw [Node.page, found]
                      rw [missing] at there
                      cases there
                  | table inner =>
                      cases (decode_grant positive).symm.trans found
                      rw [Attribute.inherit_permissive]
                      exact induction (slot_aligned aligned positive _) (formed.of_table index)
                        (inner index) (agrees.child aligned positive index)
              | grow below =>
                  rw [Node.page_absent (grow_cases acted).1] at there
                  cases there
              | split leaf below =>
                  obtain ⟨size, attr, found, -, -⟩ := split_cases acted
                  obtain ⟨word, rfl, read⟩ := formed.of_leaf found
                  rw [found] at acted
                  rw [meets_iff] at met
                  rw [Node.page_leaf read, Attribute.inherit_permissive,
                    offset_eq aligned (Nat.le_max_right _ _) (by omega)] at there
                  refine absurd ?_ (changes_of_split acted)
                  rw [updated_of_includes (of_isComplete maps.complete).1 .empty]
                  exact (Option.some.inj there).symm

end Edit

theorem Attribute.update_all {attr requested : Attribute} (defined : requested.Defined) :
    attr.update requested .all = requested := by
  have whole : Attribute.all.includesBase = true := by decide
  rw [update, if_pos whole, UInt64.zero_and, UInt64.zero_or, defined]

namespace Extent

variable {extent : Extent} {mode : Mode} {linear : Nat} {attr : Attribute}

abbrev edit (extent : Extent) (mode : Mode) : Edit :=
  ⟨mode, extent.start, extent.length, extent.attr, .all⟩

theorem updated_edit (grants : extent.attr.Grants) :
    (extent.edit mode).updated attr linear = extent.attr.advance (linear - extent.start) := by
  rw [Edit.updated, Attribute.update_all (grants.defined.withBase _), Edit.physical,
    Attribute.advance, UInt64.ofNat_add, UInt64.ofNat_toNat]

theorem edit_maps (whole : extent.Whole) (grants : extent.attr.Grants) :
    (extent.edit mode).Maps where
  start := whole.start
  length := whole.length
  complete := by
    have whole : Attribute.all.isComplete = true := by decide
    exact whole
  creates := by
    have selected : Attribute.all.has .present = true := by decide
    rw [Edit.creates, selected, grants.present]
    rfl

theorem edit_checked (whole : extent.Whole) (inside : extent.stop ≤ mode.linearLimit) :
    (extent.edit mode).checkRange = .ok () := by
  have aligned : ¬(extent.start % pageBytes ≠ 0 ∨ extent.length % pageBytes ≠ 0) := by
    rw [whole.start, whole.length]
    decide
  have limit : ¬mode.linearLimit < (extent.edit mode).stop := Nat.not_lt.mpr inside
  have space : ¬1 <<< 52 < extent.attr.base.toNat + extent.length := Nat.not_lt.mpr whole.space
  rw [Edit.checkRange, if_neg aligned, if_neg limit, if_neg fun both => space both.2]

def Apart (extent other : Extent) : Prop :=
  ∀ linear, extent.Covers linear → ¬other.Covers linear

theorem Apart.symm {other : Extent} (apart : extent.Apart other) : other.Apart extent :=
  fun linear covers also => apart linear also covers

theorem apart_of_le {other : Extent} (before : extent.stop ≤ other.start) :
    extent.Apart other :=
  fun _ covers also => Nat.not_lt.mpr before (Nat.lt_of_le_of_lt also.1 covers.2)

section Revise

variable (grants : extent.attr.Grants) (pages : Pages) (number : Nat)

include grants

theorem revisePages_of_covers (covers : extent.Covers (number * pageBytes)) :
    (extent.edit mode).revisePages pages number =
      some (extent.attr.advance (number * pageBytes - extent.start)) := by
  have present : (extent.attr.advance (number * pageBytes - extent.start)).has .present = true :=
    (Attribute.has_advance _ _).trans grants.present
  have base : Attribute.all.includesBase = true := by decide
  have selected : Attribute.all.has .present = true := by decide
  have inside : (extent.edit mode).start ≤ number * pageBytes ∧
      number * pageBytes < (extent.edit mode).stop := covers
  rw [Edit.revisePages, Edit.revise_of_includes inside base selected, updated_edit grants,
    Option.filter_some, present, if_pos rfl]

omit grants in
theorem revisePages_of_not_covers (outside : ¬extent.Covers (number * pageBytes)) :
    (extent.edit mode).revisePages pages number = pages number := by
  rw [Edit.revisePages]
  exact Edit.revise_outside outside

theorem revisePages_iff (whole : extent.Whole) :
    (extent.edit mode).revisePages pages number = some attr ↔
      extent.Gives (number * pageBytes) attr ∨
        (¬extent.Covers (number * pageBytes) ∧ pages number = some attr) := by
  by_cases covers : extent.Covers (number * pageBytes)
  · have gives := whole.gives covers.1 covers.2 (Nat.mul_mod_left _ _)
    rw [revisePages_of_covers grants pages number covers, Option.some.injEq]
    constructor
    · rintro rfl
      exact .inl gives
    · rintro (also | ⟨outside, -⟩)
      · exact gives.attr_eq also
      · exact absurd covers outside
  · rw [revisePages_of_not_covers pages number covers]
    constructor
    · exact fun found => .inr ⟨covers, found⟩
    · rintro (gives | ⟨-, found⟩)
      · exact absurd ⟨gives.low, gives.high⟩ covers
      · exact found

end Revise

end Extent

namespace Tree

def mapBack (tree : Tree) (extent : Extent) : Except Error Outcome × Tree :=
  tree.map extent.start extent.length extent.attr .all

def replay (tree : Tree) : List Extent → List (Except Error Outcome × Tree)
  | [] => []
  | extent :: rest => tree.mapBack extent :: replay (tree.mapBack extent).2 rest

def replayed (tree : Tree) : List Extent → Tree
  | [] => tree
  | extent :: rest => replayed (tree.mapBack extent).2 rest

variable {tree next : Tree} {extent : Extent} {extents done order : List Extent}

theorem grants_of_compacts (compacts : Compacts tree.pages extents) (member : extent ∈ extents) :
    extent.attr.Grants := by
  have whole := compacts.ordered.whole extent member
  have number : extent.start / pageBytes * pageBytes = extent.start :=
    Nat.div_mul_cancel (Nat.dvd_of_mod_eq_zero whole.start)
  exact Memory.grants_of_pages ((compacts.pages_iff (extent.start / pageBytes) extent.attr).mpr
    ⟨extent, member, by rw [number]; exact whole.gives_start⟩)

theorem pages_of_covers (compacts : Compacts tree.pages extents) (member : extent ∈ extents)
    {number : Nat} (covers : extent.Covers (number * pageBytes)) : tree.pages number =
      some (extent.attr.advance (number * pageBytes - extent.start)) :=
  (compacts.pages_iff number _).mpr ⟨extent, member, (compacts.ordered.whole extent member).gives
    covers.1 covers.2 (Nat.mul_mod_left _ _)⟩

section MapBack

variable (built : tree.Built) (whole : extent.Whole) (grants : extent.attr.Grants)
  (inside : extent.stop ≤ tree.mode.linearLimit)

include built whole grants inside

theorem Built.demand_ok : ∃ count,
    (extent.edit tree.mode).demand tree.memory tree.root = .ok count := by
  cases counted : (extent.edit tree.mode).demand tree.memory tree.root with
  | ok count => exact ⟨count, rfl⟩
  | error cause =>
      have resolves (rooted : tree.root ≠ 0) :
          Edit.Resolves tree.memory tree.mode.maxLevel (.stored tree.root) := by
        intro address stored target spanned
        cases stored
        exact (built.proper rooted).resolves target spanned
      obtain ⟨-, -, incomplete, -⟩ := (Edit.demand_error_iff (Extent.edit_checked whole inside)
        (Nat.ne_of_gt whole.positive) resolves).mp counted
      rw [Edit.maskCreates_of_isComplete (Extent.edit_maps whole grants).complete] at incomplete
      cases incomplete

end MapBack

section Members

variable (compacts : Compacts tree.pages extents) (member : extent ∈ extents)

include compacts member

theorem rooted_of_compacts : tree.root ≠ 0 := by
  intro unrooted
  have whole := compacts.ordered.whole extent member
  have number := Nat.div_mul_cancel (Nat.dvd_of_mod_eq_zero whole.start)
  have covers : extent.Covers (extent.start / pageBytes * pageBytes) := by
    rw [number]
    exact ⟨Nat.le_refl _, Nat.lt_add_of_pos_right whole.positive⟩
  have found := pages_of_covers compacts member covers
  rw [pages, Memory.pages, if_neg fun both => both.1 unrooted] at found
  cases found

theorem Built.agrees (built : tree.Built) (index : Fin tableEntries) :
    (extent.edit tree.mode).Agrees tree.mode.maxLevel (index.val * levelSize tree.mode.maxLevel)
      (tree.space.nodes tree.mode.maxLevel index) := by
  intro linear aligned starts stops low high
  have grants := grants_of_compacts compacts member
  have inside : extent.stop ≤ tree.mode.linearLimit :=
    Compacts.inside Memory.byPages compacts member
  have number := Nat.div_mul_cancel (Nat.dvd_of_mod_eq_zero aligned)
  have covers : extent.Covers (linear / pageBytes * pageBytes) := by
    rw [number]
    exact ⟨starts, stops⟩
  have found := pages_of_covers compacts member covers
  rw [built.pages_eq_nodes (Nat.lt_of_lt_of_le stops inside) aligned,
    tree.mode.slotOf_root low high, number] at found
  rw [found, Extent.updated_edit grants]

theorem Built.demand_idle (built : tree.Built) :
    (extent.edit tree.mode).demand tree.memory tree.root = .ok 0 := by
  have whole := compacts.ordered.whole extent member
  have grants := grants_of_compacts compacts member
  have inside : extent.stop ≤ tree.mode.linearLimit :=
    Compacts.inside Memory.byPages compacts member
  have maps : (extent.edit tree.mode).Maps := Extent.edit_maps whole grants
  obtain ⟨limit, regular⟩ := built.regular
  obtain ⟨count, counted⟩ := built.demand_ok whole grants inside
  have free := Edit.demand_eq_nodes maps.creates built.has counted
  rw [if_neg (rooted_of_compacts compacts member), Nat.zero_add, Finset.sum_eq_zero fun index _ =>
    Edit.nodeDemand_agreed maps (Nat.mul_mod_left _ _) (tree.space.nodes_formed _ _)
      (regular index) (built.agrees compacts member index)] at free
  rw [counted, free]

end Members

theorem Built.mapBack_idle (built : tree.Built) (compacts : Compacts tree.pages extents)
    (member : extent ∈ extents) : ∃ modified next,
      tree.mapBack extent = (.ok ⟨0, modified⟩, next) ∧ next.Built ∧ next.mode = tree.mode ∧
        next.pages = tree.pages := by
  have whole := compacts.ordered.whole extent member
  have grants := grants_of_compacts compacts member
  have inside : extent.stop ≤ tree.mode.linearLimit :=
    Compacts.inside Memory.byPages compacts member
  have checked : (tree.edit extent.start extent.length extent.attr .all).checkRange = .ok () :=
    Extent.edit_checked whole inside
  have counted := built.demand_idle compacts member
  obtain ⟨⟨_, modified⟩, next, map_eq, rfl, mode_eq, size_eq⟩ :=
    built.map_unpaid (Nat.ne_of_gt whole.positive) checked counted
  have small : Memory.firstAddress + next.memory.reserved ≤ spaceSize := by
    rw [Memory.reserved, size_eq]
    exact built.small
  refine ⟨modified, next, map_eq, built.map_next small map_eq, mode_eq, ?_⟩
  rw [built.map_pages small grants.defined (.inl rfl) map_eq]
  funext number
  by_cases covers : extent.Covers (number * pageBytes)
  · exact (Extent.revisePages_of_covers grants tree.pages number covers).trans
      (pages_of_covers compacts member covers).symm
  · exact Extent.revisePages_of_not_covers tree.pages number covers

theorem Built.replay_idle (built : tree.Built) (compacts : Compacts tree.pages extents)
    (members : order ⊆ extents) (call : Except Error Outcome × Tree)
    (made : call ∈ tree.replay order) :
    ∃ modified, call.1 = .ok ⟨0, modified⟩ ∧ call.2.extents = .ok extents := by
  induction order generalizing tree with
  | nil => cases made
  | cons extent rest induction =>
      obtain ⟨member, others⟩ := List.cons_subset.mp members
      obtain ⟨modified, next, map_eq, nextBuilt, -, pages_eq⟩ :=
        built.mapBack_idle compacts member
      rw [← pages_eq] at compacts
      rw [replay, map_eq] at made
      rcases List.mem_cons.mp made with rfl | later
      · exact ⟨modified, rfl, nextBuilt.extents_eq compacts⟩
      · exact induction nextBuilt compacts others later

/-- The tree holds the pages that the extents give, and has taken no page but for its root table and
for tables with a page that is mapped. -/
structure Filled (tree : Tree) (extents : List Extent) : Prop where
  built : tree.Built
  occupied : tree.memory.tables.size ≤ tree.space.occupied tree.mode.maxLevel
  pages_iff : ∀ number attr, tree.pages number = some attr ↔
    ∃ extent ∈ extents, extent.Gives (number * pageBytes) attr

theorem filled_new {mode : Mode} (made : ofMode mode = .ok tree) : tree.Filled [] := by
  cases ofMode_ok made
  refine ⟨.new made, Nat.zero_le _, ?_⟩
  intro number attr
  rw [pages, Memory.pages, if_neg fun both => both.1 rfl]
  simp only [List.not_mem_nil, false_and, exists_false, reduceCtorEq]

theorem Built.clear (built : tree.Built) (whole : extent.Whole)
    (inside : extent.stop ≤ tree.mode.linearLimit)
    (unmapped : ∀ number, extent.Covers (number * pageBytes) → tree.pages number = none)
    (index : Fin tableEntries) : (extent.edit tree.mode).Clear tree.mode.maxLevel
      (index.val * levelSize tree.mode.maxLevel) (tree.space.nodes tree.mode.maxLevel index) := by
  intro linear starts stops low high
  have number := Nat.div_mul_cancel (Nat.dvd_of_mod_eq_zero (pageStart_aligned linear))
  have covers : extent.Covers (pageStart linear) := whole.covers_pageStart.mpr ⟨starts, stops⟩
  have missing := unmapped (pageStart linear / pageBytes) (by rwa [number])
  rw [built.pages_eq_nodes (Nat.lt_of_lt_of_le covers.2 inside) (pageStart_aligned linear),
    slotOf_pageStart, tree.mode.slotOf_root low high] at missing
  rw [← Option.not_isSome_iff_eq_none, Node.isSome_leafLevel .permissive, missing]
  exact Bool.false_ne_true

theorem Built.occupied_le {outcome : Outcome} {count : Nat} (built : tree.Built)
    (whole : extent.Whole) (grants : extent.attr.Grants)
    (inside : extent.stop ≤ tree.mode.linearLimit)
    (unmapped : ∀ number, extent.Covers (number * pageBytes) → tree.pages number = none)
    (counted : (extent.edit tree.mode).demand tree.memory tree.root = .ok count)
    (small : Memory.firstAddress + next.memory.reserved ≤ spaceSize)
    (mapped : tree.mapBack extent = (.ok outcome, next)) :
    count + tree.space.occupied tree.mode.maxLevel ≤ next.space.occupied tree.mode.maxLevel := by
  have maps : (extent.edit tree.mode).Maps := Extent.edit_maps whole grants
  have same : tree.map extent.start extent.length extent.attr .all = (.ok outcome, next) := mapped
  have defined : ¬(extent.edit tree.mode).LeavesUndefined tree.memory tree.root := by
    rintro ⟨-, incomplete, -⟩
    rw [Edit.maskCreates_of_isComplete maps.complete] at incomplete
    cases incomplete
  obtain ⟨_, ⟨memory, root, buffer⟩, after, map_eq, extends_, root_eq, has, remakes⟩ :=
    built.map_remade (by rw [same]; exact small) (fun _ => Extent.edit_checked whole inside) defined
  cases same.symm.trans map_eq
  dsimp only at extends_ root_eq
  subst root_eq
  have nodes_eq : Workspace.nodes ⟨memory, tree.root, buffer⟩ tree.mode.maxLevel =
      tree.space.nodes tree.mode.maxLevel := extends_.nodes_eq built.proper
  have recounted := (Edit.demand_extends extends_ built.proper).trans counted
  have clear := built.clear whole inside unmapped
  rw [← nodes_eq] at clear
  have grown := Edit.Remakes.occupied_le maps has recounted remakes (Nat.ne_of_gt whole.positive)
    clear
  rw [Workspace.occupied, nodes_eq] at grown
  exact grown

theorem Filled.mapBack (filled : tree.Filled extents) (whole : extent.Whole)
    (grants : extent.attr.Grants) (inside : extent.stop ≤ tree.mode.linearLimit)
    (apart : ∀ other ∈ extents, other.Apart extent) :
    ∃ outcome next, tree.mapBack extent = (.ok outcome, next) ∧ next.mode = tree.mode ∧
      next.Filled (extent :: extents) := by
  have built := filled.built
  have maps : (extent.edit tree.mode).Maps := Extent.edit_maps whole grants
  have nonempty : extent.length ≠ 0 := Nat.ne_of_gt whole.positive
  have checked : (tree.edit extent.start extent.length extent.attr .all).checkRange = .ok () :=
    Extent.edit_checked whole inside
  have unmapped (number : Nat) (covers : extent.Covers (number * pageBytes)) :
      tree.pages number = none := by
    cases found : tree.pages number with
    | none => rfl
    | some attr =>
        obtain ⟨other, member, gives⟩ := (filled.pages_iff number attr).mp found
        exact absurd covers (apart other member _ ⟨gives.low, gives.high⟩)
  obtain ⟨count, counted⟩ := built.demand_ok whole grants inside
  obtain ⟨outcome, next, map_eq, mode_eq, size_eq⟩ := built.map_paid nonempty checked counted
  have small : Memory.firstAddress + next.memory.reserved ≤ spaceSize := by
    -- the tables so far are occupied, and there is a place in the tree for those and the new ones
    have room := Edit.demand_le_capacity maps built.has counted
    dsimp only [Extent.edit] at room
    have capacity := tree.mode.capacity_small
    have fewer : next.memory.tables.size ≤
        1 + ∑ _index : Fin tableEntries, Node.capacity tree.mode.maxLevel := by
      rw [size_eq]
      have := filled.occupied
      omega
    have bytes := Nat.mul_le_mul_right pageBytes fewer
    rw [Memory.reserved]
    omega
  refine ⟨outcome, next, map_eq, mode_eq, built.map_next small map_eq, ?_, ?_⟩
  · have grown := built.occupied_le whole grants inside unmapped counted small map_eq
    have before := filled.occupied
    rw [size_eq, mode_eq]
    omega
  · intro number attr
    rw [built.map_pages small grants.defined (.inl rfl) map_eq]
    refine (Extent.revisePages_iff grants tree.pages number whole).trans ?_
    rw [filled.pages_iff, List.exists_mem_cons_iff]
    refine or_congr_right (and_iff_right_of_imp ?_)
    rintro ⟨other, member, gives⟩
    exact apart other member _ ⟨gives.low, gives.high⟩

structure Mappable (mode : Mode) (extents : List Extent) : Prop where
  whole : ∀ extent ∈ extents, extent.Whole
  grants : ∀ extent ∈ extents, extent.attr.Grants
  inside : ∀ extent ∈ extents, extent.stop ≤ mode.linearLimit
  apart : extents.Pairwise Extent.Apart

theorem mappable_of_compacts (compacts : Compacts tree.pages extents) :
    Mappable tree.mode extents where
  whole := compacts.ordered.whole
  grants _ member := grants_of_compacts compacts member
  inside _ member := Compacts.inside Memory.byPages compacts member
  apart := compacts.ordered.apart.imp Extent.apart_of_le

theorem Mappable.perm {mode : Mode} (mappable : Mappable mode extents)
    (same : extents.Perm order) : Mappable mode order where
  whole extent member := mappable.whole extent (same.mem_iff.mpr member)
  grants extent member := mappable.grants extent (same.mem_iff.mpr member)
  inside extent member := mappable.inside extent (same.mem_iff.mpr member)
  apart := same.pairwise mappable.apart Extent.Apart.symm

/-- Extents that the tree has the room for and does not hold yet can be mapped one after the other,
and the tree then holds them. -/
theorem Filled.replay (filled : tree.Filled done) (mappable : Mappable tree.mode (order ++ done)) :
    (∀ call ∈ tree.replay order, ∃ outcome, call.1 = .ok outcome) ∧
      (tree.replayed order).mode = tree.mode ∧
      (tree.replayed order).Filled (order.reverse ++ done) := by
  induction order generalizing tree done with
  | nil => exact ⟨fun _ => nofun, rfl, filled⟩
  | cons extent rest induction =>
      have apart := (List.pairwise_cons.mp mappable.apart).1
      obtain ⟨outcome, next, map_eq, mode_eq, more⟩ := filled.mapBack
        (mappable.whole extent List.mem_cons_self) (mappable.grants extent List.mem_cons_self)
        (mappable.inside extent List.mem_cons_self)
        fun other member => (apart other (List.mem_append_right rest member)).symm
      have others : Mappable next.mode (rest ++ extent :: done) := by
        rw [mode_eq]
        exact mappable.perm List.perm_middle.symm
      obtain ⟨succeeds, same, full⟩ := induction more others
      rw [Tree.replay, replayed, map_eq, List.reverse_cons, List.append_assoc]
      refine ⟨?_, same.trans mode_eq, full⟩
      intro call made
      rcases List.mem_cons.mp made with rfl | later
      · exact ⟨outcome, rfl⟩
      · exact succeeds call later

/-- Maximal runs that are mapped to an empty tree, in any order, are what is read from it. -/
theorem replay_new {mode : Mode} (made : ofMode mode = .ok tree)
    (mappable : Mappable mode extents) (ordered : Ordered extents)
    (maximal : ∀ extent ∈ extents, ∀ later ∈ extents, ¬extent.Continues later)
    (same : order.Perm extents) :
    (∀ call ∈ tree.replay order, ∃ outcome, call.1 = .ok outcome) ∧
      (tree.replayed order).Built ∧ (tree.replayed order).extents = .ok extents := by
  cases ofMode_ok made
  have all : Mappable mode (order ++ []) := by
    rw [List.append_nil]
    exact mappable.perm same.symm
  obtain ⟨succeeds, -, full⟩ := (filled_new made).replay all
  refine ⟨succeeds, full.built, full.built.extents_eq ⟨ordered, ?_, maximal⟩⟩
  intro number attr
  rw [full.pages_iff]
  simp only [List.append_nil, List.mem_reverse, same.mem_iff]

/-- The extents of a tree can be mapped back in any order, which takes no pages and leaves what is
read, and an empty tree of the same mode is read alike once they were mapped to it, in any order. -/
theorem extents_replay (tree : Tree) (built : tree.Built) :
    ∃ extents, tree.extents = .ok extents ∧
      (∀ order, order.Perm extents → ∀ call ∈ tree.replay order,
        ∃ modified, call.1 = .ok ⟨0, modified⟩ ∧ call.2.extents = .ok extents) ∧
      ∃ fresh, ofMode tree.mode = .ok fresh ∧
        ∀ order, order.Perm extents →
          (∀ call ∈ fresh.replay order, ∃ outcome, call.1 = .ok outcome) ∧
            (fresh.replayed order).extents = .ok extents := by
  obtain ⟨extents, compacts⟩ := built.compacts
  have made : ofMode tree.mode = .ok ⟨tree.mode, .empty, 0⟩ := by
    rw [ofMode, Mode.check, built.supported]
    rfl
  refine ⟨extents, built.extents_eq compacts, ?_, _, made, ?_⟩
  · intro order same
    exact built.replay_idle compacts same.subset
  · intro order same
    obtain ⟨succeeds, -, read⟩ := replay_new made (mappable_of_compacts compacts)
      compacts.ordered compacts.maximal same
    exact ⟨succeeds, read⟩

def pieces : List Extent := [⟨0x1000, 0x1000, ⟨0x5007⟩⟩, ⟨0x200000, 0x200000, ⟨0x400007⟩⟩]

def piecedTree : Tree := replayed ⟨.fourLevel .page2M, .empty, 0⟩ pieces

theorem piecedTree_pieces : piecedTree.Built ∧ piecedTree.extents = .ok pieces := by
  have whole : ∀ extent ∈ pieces, extent.Whole := by
    intro extent member
    rcases List.mem_pair.mp member with rfl | rfl
    · exact ⟨by decide, by decide, by decide, by decide⟩
    · exact ⟨by decide, by decide, by decide, by decide⟩
  have grants : ∀ extent ∈ pieces, extent.attr.Grants := by
    intro extent member
    rcases List.mem_pair.mp member with rfl | rfl
    · exact ⟨by rw [Attribute.Defined]; decide, by decide⟩
    · exact ⟨by rw [Attribute.Defined]; decide, by decide⟩
  have apart : pieces.Pairwise fun extent next => extent.stop ≤ next.start := by decide
  have maximal : ∀ extent ∈ pieces, ∀ later ∈ pieces, extent.meets later ≠ true := by decide
  have inside : ∀ extent ∈ pieces, extent.stop ≤ (Mode.fourLevel .page2M).linearLimit := by decide
  have mappable : Mappable (.fourLevel .page2M) pieces :=
    ⟨whole, grants, inside, apart.imp Extent.apart_of_le⟩
  obtain ⟨-, built, read⟩ := replay_new rfl mappable ⟨whole, apart⟩
    (fun extent member later also continues =>
      maximal extent member later also (Extent.continues_iff.mp continues)) (.refl pieces)
  exact ⟨built, read⟩

/-- The two are mapped back in the other order, and to an empty tree in that order. -/
theorem extents_replay_pieces : piecedTree.Built ∧ piecedTree.extents = .ok pieces ∧
    (∀ call ∈ piecedTree.replay pieces.reverse,
      ∃ modified, call.1 = .ok ⟨0, modified⟩ ∧ call.2.extents = .ok pieces) ∧
    ∃ fresh, ofMode piecedTree.mode = .ok fresh ∧
      (fresh.replayed pieces.reverse).extents = .ok pieces := by
  obtain ⟨built, read⟩ := piecedTree_pieces
  obtain ⟨extents, found, back, fresh, made, anew⟩ := extents_replay piecedTree built
  cases read.symm.trans found
  have order : pieces.reverse.Perm pieces := List.reverse_perm pieces
  exact ⟨built, read, back _ order, fresh, made, (anew _ order).2⟩

end Tree

end Remap.PageTable
