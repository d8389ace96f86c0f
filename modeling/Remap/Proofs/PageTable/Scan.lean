import Remap.Proofs.PageTable.Extents
import Remap.Proofs.PageTable.Translation

/-!
# What a walk finds

A walk that is not stopped finds the leaves of its tree in linear order. Together they
give every page the attribute that the tree maps it with.
-/

namespace Remap.PageTable

structure Pieces (page : Nat → Option Attribute) (low high : Nat) (pieces : List Extent) :
    Prop where
  ordered : Ordered pieces
  inside : ∀ piece ∈ pieces, low ≤ piece.start ∧ piece.stop ≤ high
  gives : ∀ linear attr, low ≤ linear → linear < high → linear % pageBytes = 0 →
    (page linear = some attr ↔ ∃ piece ∈ pieces, piece.Gives linear attr)

namespace Pieces

variable {page : Nat → Option Attribute} {low middle high : Nat} {pieces others : List Extent}

theorem nil (unmapped : ∀ linear, low ≤ linear → linear < high → linear % pageBytes = 0 →
    page linear = none) : Pieces page low high [] where
  ordered := ⟨fun piece member => absurd member List.not_mem_nil, .nil⟩
  inside piece member := absurd member List.not_mem_nil
  gives := by
    intro linear attr above below aligned
    rw [unmapped linear above below aligned]
    simp

theorem congr {other : Nat → Option Attribute} (found : Pieces page low high pieces)
    (same : ∀ linear, low ≤ linear → linear < high → other linear = page linear) :
    Pieces other low high pieces where
  ordered := found.ordered
  inside := found.inside
  gives := by
    intro linear attr above below aligned
    rw [same linear above below]
    exact found.gives linear attr above below aligned

theorem append (front : Pieces page low middle pieces) (back : Pieces page middle high others)
    (first : low ≤ middle) (second : middle ≤ high) :
    Pieces page low high (pieces ++ others) where
  ordered := by
    constructor
    · intro piece member
      rcases List.mem_append.mp member with member | member
      · exact front.ordered.whole piece member
      · exact back.ordered.whole piece member
    · refine List.pairwise_append.mpr ⟨front.ordered.apart, back.ordered.apart, ?_⟩
      intro piece member other listed
      exact Nat.le_trans (front.inside piece member).2 (back.inside other listed).1
  inside := by
    intro piece member
    rcases List.mem_append.mp member with member | member
    · have range := front.inside piece member
      exact ⟨range.1, Nat.le_trans range.2 second⟩
    · have range := back.inside piece member
      exact ⟨Nat.le_trans first range.1, range.2⟩
  gives := by
    intro linear attr above below aligned
    by_cases early : linear < middle
    · rw [front.gives linear attr above early aligned]
      constructor
      · rintro ⟨piece, member, gives⟩
        exact ⟨piece, List.mem_append_left _ member, gives⟩
      · rintro ⟨piece, member, gives⟩
        rcases List.mem_append.mp member with member | member
        · exact ⟨piece, member, gives⟩
        · have := (back.inside piece member).1
          have := gives.low
          omega
    · rw [back.gives linear attr (Nat.le_of_not_lt early) below aligned]
      constructor
      · rintro ⟨piece, member, gives⟩
        exact ⟨piece, List.mem_append_right _ member, gives⟩
      · rintro ⟨piece, member, gives⟩
        rcases List.mem_append.mp member with member | member
        · have := (front.inside piece member).2
          have := gives.high
          omega
        · exact ⟨piece, member, gives⟩

theorem slots {size origin : Nat} (count : Nat) (found : Fin count → List Extent)
    (each : ∀ index, Pieces page (origin + index.val * size) (origin + index.val * size + size)
      (found index)) :
    Pieces page origin (origin + count * size) ((List.finRange count).flatMap found) := by
  induction count with
  | zero =>
      rw [Nat.zero_mul, Nat.add_zero]
      apply nil
      intro linear above below
      omega
  | succ count induction =>
      have front := induction (fun index => found index.castSucc) fun index => each index.castSucc
      have back := each (Fin.last count)
      rw [Fin.val_last] at back
      rw [List.finRange_succ_last, List.flatMap_append, List.flatMap_map, List.flatMap_singleton,
        Nat.succ_mul, ← Nat.add_assoc]
      exact front.append back (Nat.le_add_right _ _) (Nat.le_add_right _ _)

theorem leaf {level slot : Nat} {attr : Attribute} (fits : Entry.Fits level attr)
    (aligned : slot % levelSize level = 0)
    (mapped : ∀ linear, slot ≤ linear → linear < slot + levelSize level →
      page linear = some (attr.advance (linear - slot))) :
    Pieces page slot (slot + levelSize level) [⟨slot, levelSize level, attr⟩] := by
  have whole : Extent.Whole ⟨slot, levelSize level, attr⟩ :=
    ⟨page_of_slot aligned, levelSize_aligned level, levelSize_pos level, fits.room⟩
  constructor
  · constructor
    · intro piece member
      rw [List.mem_singleton.mp member]
      exact whole
    · exact List.pairwise_singleton _ _
  · intro piece member
    rw [List.mem_singleton.mp member]
    exact ⟨Nat.le_refl _, Nat.le_refl _⟩
  · intro linear other above below aligned
    have gives := whole.gives above below aligned
    rw [mapped linear above below]
    constructor
    · intro same
      rw [← Option.some.inj same]
      exact ⟨_, List.mem_singleton_self _, gives⟩
    · rintro ⟨piece, member, also⟩
      rw [List.mem_singleton.mp member] at also
      rw [gives.attr_eq also]

end Pieces

theorem flatMap_filter {α β : Type} (keep : α → Bool) (found : α → List β) (values : List α) :
    (values.filter keep).flatMap found =
      values.flatMap fun value => if keep value then found value else [] := by
  induction values with
  | nil => rfl
  | cons value rest induction =>
      rw [List.filter_cons, List.flatMap_cons, ← induction]
      split <;> rfl

namespace Memory

variable {memory : Memory} {level address origin slot linear : Nat} {parent : Attribute}
  {table : Table}

def pageAt (memory : Memory) (level : Nat) (parent : Attribute) (entry : Entry) (linear : Nat) :
    Option Attribute :=
  match entry with
  | .absent => none
  | .table child attr => memory.pageBelow level child.toNat (attr.inherit parent) linear
  | .leaf _ attr => some ((attr.inherit parent).advance (linear % levelSize (level + 1)))

theorem pageBelow_eq (found : memory.table address = .ok table) :
    memory.pageBelow (level + 1) address parent linear = memory.pageAt level parent
      (.decode (table.word (slotOf (level + 1) linear)) (level + 1)) linear := by
  rw [pageBelow, found]
  rfl

theorem pageAt_unused {word : UInt64} (unused : (word &&& Flag.present.mask != 0) = false) :
    memory.pageAt level parent (.decode word (level + 1)) linear = none := by
  have clear : (word &&& Flag.present.mask == 0) = true := by simpa using unused
  rw [Entry.decode, clear, if_pos rfl, pageAt]

theorem leavesAt_pieces (aligned : slot % levelSize (level + 1) = 0) (grants : parent.Grants)
    (lower : level ≠ 0 → ∀ address (parent : Attribute), parent.Grants →
      (memory.leaves level address parent slot).failure = none →
      Pieces (memory.pageBelow level address parent) slot (slot + levelSize (level + 1))
        (memory.leaves level address parent slot).found)
    {word : UInt64}
    (passes : (memory.leavesAt level parent slot (.decode word (level + 1))).failure = none) :
    Pieces (memory.pageAt level parent (.decode word (level + 1))) slot
      (slot + levelSize (level + 1))
      (memory.leavesAt level parent slot (.decode word (level + 1))).found := by
  generalize found : Entry.decode word (level + 1) = entry at passes
  cases entry with
  | absent =>
      apply Pieces.nil
      intro linear _ _ _
      rfl
  | leaf size attr =>
      have fits := (Entry.decode_leaf found).2
      apply Pieces.leaf (fits.inherit grants) aligned
      intro linear low high
      rw [pageAt, offset_eq aligned low high]
  | table child attr =>
      have inner : level ≠ 0 := by
        have := Entry.decode_table found
        omega
      have below := (Entry.decode_table_grants found).inherit grants
      exact lower inner child.toNat (attr.inherit parent) below passes

/-- A walk that is not stopped finds the pieces of what the tables below map. -/
theorem leaves_pieces (positive : level ≠ 0) (aligned : origin % levelSize (level + 1) = 0)
    (grants : parent.Grants) (passes : (memory.leaves level address parent origin).failure = none) :
    Pieces (memory.pageBelow level address parent) origin (origin + levelSize (level + 1))
      (memory.leaves level address parent origin).found := by
  induction level generalizing address parent origin with
  | zero => exact absurd rfl positive
  | succ level induction =>
      cases found : memory.table address with
      | error cause =>
          rw [leaves, found] at passes
          cases passes
      | ok table =>
          rw [leaves_eq found] at passes ⊢
          have each (index : Fin tableEntries) (used : index ∈ table.present) :=
            leavesAt_pieces (slot_aligned aligned positive index.val) grants
              (fun inner address parent grants passes =>
                induction inner (slot_aligned aligned positive index.val) grants passes)
              (Scan.all_passes_iff.mp passes index used)
          have whole : levelSize (level + 1 + 1) = tableEntries * levelSize (level + 1) := by
            rw [levelSize_succ positive, Nat.mul_comm]
          rw [Scan.all_found passes, Table.present, flatMap_filter, whole]
          apply Pieces.slots
          intro index
          have same : ∀ linear, origin + index.val * levelSize (level + 1) ≤ linear →
              linear < origin + index.val * levelSize (level + 1) + levelSize (level + 1) →
              memory.pageBelow (level + 1) address parent linear =
                memory.pageAt level parent (.decode (table.word index) (level + 1)) linear := by
            intro linear low high
            rw [pageBelow_eq found, slotOf_eq aligned positive low high]
          split
          next used =>
            have member : index ∈ table.present :=
              List.mem_filter.mpr ⟨List.mem_finRange _, used⟩
            exact (each index member).congr same
          next unused =>
            apply Pieces.nil
            intro linear low high _
            rw [same linear low high, pageAt_unused (Bool.eq_false_iff.mpr unused)]

section Tidy

variable {tables : Tables} {pointed : UInt64} {attr : Attribute} {lower target : Nat}

theorem uses_of_leads (reads : ∀ address, tables.Uses (level + 1) (.table pointed attr) address →
      memory.table address = .ok (tables address))
    (leads : memory.Leads level pointed.toNat lower target) :
    tables.Uses (level + 1) (.table pointed attr) target := by
  induction level generalizing pointed attr with
  | zero =>
      cases leads
      exact .inl rfl
  | succ level induction =>
      cases leads with
      | self => exact .inl rfl
      | @step _ _ _ _ _ index child inner found pointer onward =>
          cases found.symm.trans (reads _ (.inl rfl))
          have here : tables.entry (level + 1) pointed.toNat index = .table child inner := pointer
          refine .inr ⟨index, ?_⟩
          rw [here]
          apply induction _ onward
          intro address used
          exact reads address (.inr ⟨index, by rwa [here]⟩)

theorem pageBelow_of_tidy (tidy : tables.Tidy (level + 1) (.table pointed .permissive))
    (reads : ∀ address, tables.Uses (level + 1) (.table pointed .permissive) address →
      memory.table address = .ok (tables address)) :
    memory.pageBelow level pointed.toNat .permissive linear =
      tables.page (level + 1) (.table pointed .permissive) linear := by
  induction level generalizing pointed with
  | zero => rw [pageBelow, Tables.page, Tables.page]
  | succ level induction =>
      have below := (tidy.2 (slotOf (level + 1) linear)).1
      have used address := fun used => reads address (.inr ⟨slotOf (level + 1) linear, used⟩)
      rw [pageBelow_eq (reads _ (.inl rfl)), Tables.page]
      change memory.pageAt level .permissive
        (tables.entry (level + 1) pointed.toNat (slotOf (level + 1) linear)) linear = _
      generalize tables.entry (level + 1) pointed.toNat (slotOf (level + 1) linear) = entry
        at below used
      cases entry with
      | absent => rw [pageAt, Tables.page]
      | leaf size attr => rw [pageAt, Attribute.inherit_permissive, Tables.page]
      | table child attr =>
          have permissive := below.1
          subst permissive
          rw [pageAt, Attribute.inherit_permissive]
          exact induction below used

end Tidy

end Memory

end Remap.PageTable
