import Remap.PageTable.Extent
import Remap.Proofs.PageTable.Attribute

/-!
# Maximal extents

The mapped pages fall into maximal runs along which linear and physical addresses go
on together and the rights stay the same. There is one list of these runs in linear
order, and merging neighbours finds it from any ordered pieces.
-/

namespace Remap.PageTable

abbrev Pages := Nat → Option Attribute

namespace Extent

variable {extent next : Extent} {linear : Nat} {attr : Attribute}

def stop (extent : Extent) : Nat := extent.start + extent.length

structure Whole (extent : Extent) : Prop where
  start : extent.start % pageBytes = 0
  length : extent.length % pageBytes = 0
  positive : 0 < extent.length
  space : extent.attr.base.toNat + extent.length ≤ spaceSize

structure Gives (extent : Extent) (linear : Nat) (attr : Attribute) : Prop where
  low : extent.start ≤ linear
  high : linear < extent.stop
  base : attr.base.toNat = extent.attr.base.toNat + (linear - extent.start)
  rights : attr.rights = extent.attr.rights

structure Continues (extent next : Extent) : Prop where
  start : next.start = extent.stop
  base : next.attr.base.toNat = extent.attr.base.toNat + extent.length
  rights : next.attr.rights = extent.attr.rights

theorem continues_iff : extent.Continues next ↔ extent.meets next = true := by
  simp only [meets, Bool.and_eq_true, beq_iff_eq]
  constructor
  · intro continues
    exact ⟨⟨continues.start.symm, continues.base.symm⟩, continues.rights.symm⟩
  · rintro ⟨⟨start, base⟩, rights⟩
    exact ⟨start.symm, base.symm, rights.symm⟩

theorem Whole.gives (whole : extent.Whole) (low : extent.start ≤ linear)
    (high : linear < extent.stop) (aligned : linear % pageBytes = 0) :
    extent.Gives linear (extent.attr.advance (linear - extent.start)) := by
  have start := whole.start
  have space := whole.space
  have step : (linear - extent.start) % pageBytes = 0 := by
    simp only [pageBytes] at *
    omega
  refine ⟨low, high, ?_, Attribute.rights_advance _⟩
  rw [Attribute.toNat_base_advance step]
  apply Nat.mod_eq_of_lt
  rw [stop] at high
  omega

theorem Whole.gives_start (whole : extent.Whole) : extent.Gives extent.start extent.attr :=
  ⟨Nat.le_refl _, Nat.lt_add_of_pos_right whole.positive, by rw [Nat.sub_self, Nat.add_zero], rfl⟩

theorem Gives.attr_eq {other : Attribute} (gives : extent.Gives linear attr)
    (also : extent.Gives linear other) : attr = other := by
  apply Attribute.ext_base_rights
  · apply UInt64.toNat_inj.mp
    rw [gives.base, also.base]
  · rw [gives.rights, also.rights]

end Extent

structure Ordered (extents : List Extent) : Prop where
  whole : ∀ extent ∈ extents, extent.Whole
  apart : extents.Pairwise fun extent next => extent.stop ≤ next.start

/-- The extents are the maximal runs of the mapped pages, in linear order. -/
structure Compacts (pages : Pages) (extents : List Extent) : Prop where
  ordered : Ordered extents
  pages_iff : ∀ number attr, pages number = some attr ↔
    ∃ extent ∈ extents, extent.Gives (number * pageBytes) attr
  maximal : ∀ extent ∈ extents, ∀ next ∈ extents, ¬extent.Continues next

namespace Ordered

variable {first other extent next : Extent} {rest others extents : List Extent}

theorem tail (ordered : Ordered (first :: rest)) : Ordered rest where
  whole extent member := ordered.whole extent (List.mem_cons_of_mem _ member)
  apart := (List.pairwise_cons.mp ordered.apart).2

theorem stop_le (ordered : Ordered (first :: rest)) (member : extent ∈ rest) :
    first.stop ≤ extent.start :=
  (List.pairwise_cons.mp ordered.apart).1 extent member

theorem head (ordered : Ordered (first :: rest)) : first.Whole :=
  ordered.whole first List.mem_cons_self

theorem start_lt (ordered : Ordered extents) (member : extent ∈ extents) :
    extent.start < extent.stop :=
  Nat.lt_add_of_pos_right (ordered.whole extent member).positive

theorem start_le (ordered : Ordered (first :: rest)) (member : extent ∈ first :: rest) :
    first.start ≤ extent.start := by
  rcases List.mem_cons.mp member with rfl | later
  · exact Nat.le_refl _
  · exact Nat.le_trans (Nat.le_of_lt (ordered.start_lt List.mem_cons_self)) (ordered.stop_le later)

theorem maximal_cons (ordered : Ordered (first :: next :: rest)) (apart : ¬first.Continues next)
    (maximal : ∀ extent ∈ next :: rest, ∀ later ∈ next :: rest, ¬extent.Continues later) :
    ∀ extent ∈ first :: next :: rest, ∀ later ∈ first :: next :: rest,
      ¬extent.Continues later := by
  intro extent member later listed continues
  have start := continues.start
  rcases List.mem_cons.mp listed with rfl | inside
  · have := ordered.start_le member
    have := ordered.start_lt member
    omega
  · rcases List.mem_cons.mp member with rfl | here
    · rcases List.mem_cons.mp inside with rfl | beyond
      · exact apart continues
      · have := ordered.stop_le (List.mem_cons_self : next ∈ next :: rest)
        have := ordered.tail.stop_le beyond
        have := ordered.tail.start_lt List.mem_cons_self
        omega
    · exact maximal extent here later inside continues

def SameGiven (extents others : List Extent) : Prop := ∀ linear attr, linear % pageBytes = 0 →
  ((∃ extent ∈ extents, extent.Gives linear attr) ↔ ∃ extent ∈ others, extent.Gives linear attr)

theorem SameGiven.symm (same : SameGiven extents others) : SameGiven others extents :=
  fun linear attr aligned => (same linear attr aligned).symm

theorem first_gives (ordered : Ordered (first :: rest)) {linear : Nat} {attr : Attribute}
    (given : ∃ extent ∈ first :: rest, extent.Gives linear attr) (low : linear < first.stop) :
    first.Gives linear attr := by
  obtain ⟨extent, member, gives⟩ := given
  rcases List.mem_cons.mp member with rfl | later
  · exact gives
  · have := ordered.stop_le later
    have := gives.low
    omega

theorem start_le_of_same (ordered : Ordered (first :: rest)) (also : Ordered (other :: others))
    (same : SameGiven (first :: rest) (other :: others)) : other.start ≤ first.start := by
  obtain ⟨extent, member, gives⟩ := (same first.start first.attr ordered.head.start).mp
    ⟨first, List.mem_cons_self, ordered.head.gives_start⟩
  exact Nat.le_trans (also.start_le member) gives.low

/-- A run that stops early would be continued by its successor. -/
theorem length_le_of_same (ordered : Ordered (first :: rest)) (also : Ordered (other :: others))
    (same : SameGiven (first :: rest) (other :: others))
    (maximal : ∀ next ∈ rest, ¬first.Continues next) (start : first.start = other.start)
    (attr : first.attr = other.attr) : other.length ≤ first.length := by
  apply Nat.le_of_not_lt
  intro shorter
  have aligned : first.stop % pageBytes = 0 := by
    rw [Extent.stop, Nat.add_mod, ordered.head.start, ordered.head.length]
    rfl
  have low : other.start ≤ first.stop := by
    rw [← start]
    exact Nat.le_add_right _ _
  have high : first.stop < other.stop := by
    rw [Extent.stop, Extent.stop, start]
    omega
  have gives := also.head.gives low high aligned
  obtain ⟨extent, member, there⟩ :=
    (same.symm first.stop _ aligned).mp ⟨other, List.mem_cons_self, gives⟩
  rcases List.mem_cons.mp member with rfl | later
  · exact Nat.lt_irrefl _ there.high
  · have here : extent.start = first.stop :=
      Nat.le_antisymm there.low (ordered.stop_le later)
    apply maximal extent later
    refine ⟨here, ?_, ?_⟩
    · have base := there.base
      rw [gives.base, here, Nat.sub_self, Nat.add_zero, Extent.stop, start,
        Nat.add_sub_cancel_left] at base
      rw [← base, attr]
    · rw [← there.rights, gives.rights, attr]

theorem given_tail (ordered : Ordered (first :: rest))
    (same : SameGiven (first :: rest) (first :: others)) {linear : Nat} {attr : Attribute}
    (aligned : linear % pageBytes = 0) (given : ∃ extent ∈ rest, extent.Gives linear attr) :
    ∃ extent ∈ others, extent.Gives linear attr := by
  obtain ⟨extent, member, gives⟩ := given
  obtain ⟨found, listed, there⟩ := (same linear attr aligned).mp
    ⟨extent, List.mem_cons_of_mem _ member, gives⟩
  rcases List.mem_cons.mp listed with rfl | later
  · have := ordered.stop_le member
    have := gives.low
    have := there.high
    omega
  · exact ⟨found, later, there⟩

theorem eq_of_same (ordered : Ordered extents) (also : Ordered others)
    (same : SameGiven extents others)
    (maximal : ∀ extent ∈ extents, ∀ next ∈ extents, ¬extent.Continues next)
    (alsoMaximal : ∀ extent ∈ others, ∀ next ∈ others, ¬extent.Continues next) :
    extents = others := by
  induction extents generalizing others with
  | nil =>
      cases others with
      | nil => rfl
      | cons other others =>
          obtain ⟨extent, member, -⟩ := (same.symm other.start other.attr also.head.start).mp
            ⟨other, List.mem_cons_self, also.head.gives_start⟩
          cases member
  | cons first rest induction =>
      cases others with
      | nil =>
          obtain ⟨extent, member, -⟩ := (same first.start first.attr ordered.head.start).mp
            ⟨first, List.mem_cons_self, ordered.head.gives_start⟩
          cases member
      | cons other others =>
          -- both start at the first page that is given; neither is the shorter one, as its
          -- successor would then continue it
          have start : first.start = other.start := Nat.le_antisymm
            (also.start_le_of_same ordered same.symm) (ordered.start_le_of_same also same)
          have given := also.first_gives ((same first.start first.attr ordered.head.start).mp
            ⟨first, List.mem_cons_self, ordered.head.gives_start⟩)
            (by rw [start]; exact also.start_lt List.mem_cons_self)
          rw [start] at given
          have attr : first.attr = other.attr := given.attr_eq also.head.gives_start
          have length : first.length = other.length := Nat.le_antisymm
            (also.length_le_of_same ordered same.symm
              (fun next member => alsoMaximal other List.mem_cons_self next
                (List.mem_cons_of_mem _ member)) start.symm attr.symm)
            (ordered.length_le_of_same also same
              (fun next member => maximal first List.mem_cons_self next
                (List.mem_cons_of_mem _ member)) start attr)
          have equal : first = other := by
            cases first
            cases other
            dsimp only at start length attr
            rw [start, length, attr]
          subst equal
          have below : SameGiven rest others := fun linear attr aligned =>
            ⟨ordered.given_tail same aligned, also.given_tail same.symm aligned⟩
          rw [induction ordered.tail also.tail below
            (fun extent member next later => maximal extent (List.mem_cons_of_mem _ member) next
              (List.mem_cons_of_mem _ later))
            (fun extent member next later => alsoMaximal extent (List.mem_cons_of_mem _ member) next
              (List.mem_cons_of_mem _ later))]

end Ordered

namespace Compacts

variable {pages : Pages} {extents others : List Extent}

theorem sameGiven (compacts : Compacts pages extents) (also : Compacts pages others) :
    Ordered.SameGiven extents others := by
  intro linear attr aligned
  have number : linear = linear / pageBytes * pageBytes :=
    (Nat.div_mul_cancel (Nat.dvd_of_mod_eq_zero aligned)).symm
  rw [number, ← compacts.pages_iff, ← also.pages_iff]

theorem unique (compacts : Compacts pages extents) (also : Compacts pages others) :
    extents = others :=
  compacts.ordered.eq_of_same also.ordered (compacts.sameGiven also) compacts.maximal also.maximal

end Compacts

namespace Extent

variable {pending next : Extent} {rest : List Extent} {linear : Nat} {attr : Attribute}

def join (extent next : Extent) : Extent := { extent with length := extent.length + next.length }

theorem join_gives (continues : pending.Continues next) :
    (pending.join next).Gives linear attr ↔ pending.Gives linear attr ∨ next.Gives linear attr := by
  have start := continues.start
  have base := continues.base
  constructor
  · intro gives
    have low := gives.low
    have high := gives.high
    have sum := gives.base
    simp only [stop, join] at start low high sum
    by_cases first : linear < pending.stop
    · exact .inl ⟨low, first, sum, gives.rights⟩
    · rw [stop] at first
      refine .inr ⟨by omega, by rw [stop]; omega, by omega, ?_⟩
      rw [gives.rights, continues.rights]
      rfl
  · rintro (gives | gives)
    · have high := gives.high
      refine ⟨gives.low, ?_, gives.base, gives.rights⟩
      simp only [stop, join] at high ⊢
      omega
    · have low := gives.low
      have high := gives.high
      have sum := gives.base
      simp only [stop] at start high
      refine ⟨?_, ?_, ?_, gives.rights.trans continues.rights⟩ <;>
        simp only [stop, join] <;>
        omega

theorem mergeAfter_gives : (∃ extent ∈ mergeAfter pending rest, extent.Gives linear attr) ↔
    ∃ extent ∈ pending :: rest, extent.Gives linear attr := by
  induction rest generalizing pending with
  | nil => rfl
  | cons next rest induction =>
      rw [mergeAfter]
      split
      next meets =>
        have joined : (pending.join next).Gives linear attr ↔ _ :=
          join_gives (continues_iff.mpr meets)
        rw [induction]
        simp only [List.mem_cons, exists_eq_or_imp]
        rw [← or_assoc, ← joined]
        rfl
      next =>
        simp only [List.mem_cons, exists_eq_or_imp]
        rw [induction]
        simp only [List.mem_cons, exists_eq_or_imp]

theorem mergeAfter_head (pending : Extent) (rest : List Extent) : ∃ length tail,
    mergeAfter pending rest = { pending with length } :: tail := by
  induction rest generalizing pending with
  | nil => exact ⟨pending.length, [], rfl⟩
  | cons next rest induction =>
      rw [mergeAfter]
      split
      next =>
        obtain ⟨length, tail, same⟩ := induction (pending.join next)
        exact ⟨length, tail, same⟩
      next => exact ⟨pending.length, _, rfl⟩

theorem join_ordered (ordered : Ordered (pending :: next :: rest))
    (continues : pending.Continues next) : Ordered (pending.join next :: rest) := by
  have first := ordered.head
  have second := ordered.tail.head
  have base := continues.base
  have start := continues.start
  have stop_eq : (pending.join next).stop = next.stop := by
    simp only [stop, join] at *
    omega
  constructor
  · intro extent member
    rcases List.mem_cons.mp member with rfl | later
    · refine ⟨first.start, ?_, Nat.add_pos_left first.positive _, ?_⟩
      · rw [join, Nat.add_mod, first.length, second.length]
        rfl
      · have space := second.space
        simp only [join]
        omega
    · exact ordered.tail.tail.whole extent later
  · refine List.pairwise_cons.mpr ⟨?_, ordered.tail.tail.apart⟩
    intro extent member
    rw [stop_eq]
    exact ordered.tail.stop_le member

theorem mergeAfter_ordered (ordered : Ordered (pending :: rest)) :
    Ordered (mergeAfter pending rest) := by
  induction rest generalizing pending with
  | nil => exact ordered
  | cons next rest induction =>
      rw [mergeAfter]
      split
      next meets => exact induction (join_ordered ordered (continues_iff.mpr meets))
      next =>
        have merged := induction ordered.tail
        obtain ⟨length, tail, same⟩ := mergeAfter_head next rest
        constructor
        · intro extent member
          rcases List.mem_cons.mp member with rfl | later
          · exact ordered.head
          · exact merged.whole extent later
        · refine List.pairwise_cons.mpr ⟨?_, merged.apart⟩
          intro extent member
          rw [same] at merged member
          exact Nat.le_trans (ordered.stop_le List.mem_cons_self) (merged.start_le member)

theorem mergeAfter_maximal (ordered : Ordered (pending :: rest)) :
    ∀ extent ∈ mergeAfter pending rest, ∀ next ∈ mergeAfter pending rest,
      ¬extent.Continues next := by
  induction rest generalizing pending with
  | nil =>
      intro extent member next listed continues
      rw [mergeAfter, List.mem_singleton] at member listed
      subst member
      subst listed
      have := continues.start
      have := ordered.start_lt List.mem_cons_self
      omega
  | cons next rest induction =>
      have merged := mergeAfter_ordered ordered
      rw [mergeAfter] at merged ⊢
      split
      next meets => exact induction (join_ordered ordered (continues_iff.mpr meets))
      next apart =>
        rw [if_neg apart] at merged
        have below := induction ordered.tail
        obtain ⟨length, tail, same⟩ := mergeAfter_head next rest
        rw [same] at merged below ⊢
        apply merged.maximal_cons _ below
        intro continues
        exact apart (continues_iff.mp ⟨continues.start, continues.base, continues.rights⟩)

end Extent

/-- Merging ordered pieces that give the mapped pages finds the maximal runs. -/
theorem compacts_merge {pages : Pages} {pieces : List Extent} (ordered : Ordered pieces)
    (pages_iff : ∀ number attr, pages number = some attr ↔
      ∃ piece ∈ pieces, piece.Gives (number * pageBytes) attr) :
    Compacts pages (Extent.merge pieces) := by
  cases pieces with
  | nil => exact ⟨ordered, pages_iff, fun extent member => absurd member List.not_mem_nil⟩
  | cons first rest =>
      refine ⟨Extent.mergeAfter_ordered ordered, ?_, Extent.mergeAfter_maximal ordered⟩
      intro number attr
      rw [Extent.merge, Extent.mergeAfter_gives]
      exact pages_iff number attr

end Remap.PageTable
