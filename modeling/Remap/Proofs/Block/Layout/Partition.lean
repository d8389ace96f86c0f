import Remap.Proofs.Block.Layout
import Remap.Proofs.Block.Layout.Checked

/-!
# Spans cut off one by one

Arenas are cut off the front of the space in a loop, as long as what is left makes an arena. The
loop ends without an overflow, and its arenas are the planned ones: they follow each other from the
start of the space, all but the last are as large as allowed, and what is left in the end makes no
arena.
-/

namespace Remap.Block

theorem lt_alignDown_add (value : Nat) :
    value < alignDown value regionAlignment + regionAlignment := by
  change value < alignDown value (1 <<< 12) + 1 <<< 12
  rw [alignDown_shift]
  exact Nat.lt_div_mul_add (by decide)

theorem alignDown_of_aligned {value : Nat} (aligned : value % regionAlignment = 0) :
    alignDown value regionAlignment = value := by
  change alignDown value (1 <<< 12) = value
  rw [alignDown_shift]
  exact Nat.div_mul_cancel (Nat.dvd_of_mod_eq_zero aligned)

namespace Span

def cut (full : Nat) (wide : minArena ≤ full) (base remaining : Nat) : Option (List Span) :=
  if minArena ≤ remaining then
    let size := alignDown (min remaining full) regionAlignment
    match _taken : Word.sub remaining size with
    | none => none
    | some rest => do
        let next ← Word.add base size
        return ⟨base, size⟩ :: (← cut full wide next rest)
  else
    some []
termination_by remaining
decreasing_by
  have room : minArena ≤ remaining := ‹_›
  have large : minArena ≤ size := minArena_le_alignDown (Nat.le_min.mpr ⟨room, wide⟩)
  have positive : 0 < minArena := by decide
  have left := Word.sub_some _taken
  omega

/-- The arenas of `totalSize` bytes when no arena exceeds `largest`. The list of them is allocated
first, with one place more than there are full arenas. -/
def planChecked (totalSize largest : Nat) : Option (Except LayoutError (List Span)) :=
  let full := alignDown largest regionAlignment
  if small : totalSize < minArena ∨ full < minArena then
    some (.error (.tooSmall totalSize))
  else do
    let _places ← Word.add (totalSize / full) 1
    return .ok (← cut full (by omega) 0 totalSize)

inductive Adjoin : (low : Nat) → List Span → (high : Nat) → Prop
  | nil {place : Nat} : Adjoin place [] place
  | cons {span : Span} {rest : List Span} {high : Nat} (later : Adjoin span.stop rest high) :
      Adjoin span.base (span :: rest) high

/-- The spans partition the `remaining` bytes from `base` on into arenas of at most `full` bytes, up
to a rest that makes no arena. -/
structure Partitions (full base remaining : Nat) (spans : List Span) : Prop where
  adjoin : ∃ stop, Adjoin base spans stop ∧ stop ≤ base + remaining ∧
    base + remaining < stop + minArena
  aligned : ∀ span ∈ spans, span.size % regionAlignment = 0
  bounded : ∀ span ∈ spans, minArena ≤ span.size ∧ span.size ≤ full
  whole : ∀ span ∈ spans.dropLast, span.size = full

variable {full base remaining low high : Nat} {spans : List Span}

theorem Adjoin.le (adjoin : Adjoin low spans high) : low ≤ high := by
  induction adjoin with
  | nil => exact Nat.le_refl _
  | cons later induction => exact Nat.le_trans (Nat.le_add_right _ _) induction

theorem Adjoin.first_le {first : Span} {rest : List Span}
    (adjoin : Adjoin low (first :: rest) high) : low + first.size ≤ high := by
  cases adjoin with
  | cons later => exact later.le

theorem partitions_nil (short : remaining < minArena) : Partitions full base remaining [] where
  adjoin := ⟨base, .nil, Nat.le_add_right _ _, Nat.add_lt_add_left short _⟩
  aligned _ member := absurd member List.not_mem_nil
  bounded _ member := absurd member List.not_mem_nil
  whole _ member := absurd member List.not_mem_nil

theorem alignDown_min_eq_full (aligned : full % regionAlignment = 0)
    (more : regionAlignment ≤ remaining - alignDown (min remaining full) regionAlignment) :
    alignDown (min remaining full) regionAlignment = full := by
  by_cases short : remaining ≤ full
  · exfalso
    rw [Nat.min_eq_left short] at more
    have rounded := lt_alignDown_add remaining
    have size_le := alignDown_le remaining regionAlignment
    omega
  · rw [Nat.min_eq_right (Nat.le_of_not_le short), alignDown_of_aligned aligned]

theorem Partitions.cons (wide : minArena ≤ full) (aligned : full % regionAlignment = 0)
    (room : minArena ≤ remaining) (later : Partitions full
      (base + alignDown (min remaining full) regionAlignment)
      (remaining - alignDown (min remaining full) regionAlignment) spans) :
    Partitions full base remaining
      (⟨base, alignDown (min remaining full) regionAlignment⟩ :: spans) := by
  have size_le := alignDown_le (min remaining full) regionAlignment
  have large : minArena ≤ alignDown (min remaining full) regionAlignment :=
    minArena_le_alignDown (Nat.le_min.mpr ⟨room, wide⟩)
  obtain ⟨high, adjoin, inside, short⟩ := later.adjoin
  constructor
  · have after : Adjoin (stop ⟨base, alignDown (min remaining full) regionAlignment⟩) spans high :=
      adjoin
    exact ⟨high, .cons after, by omega, by omega⟩
  · exact List.forall_mem_cons.mpr ⟨alignDown_region _, later.aligned⟩
  · refine List.forall_mem_cons.mpr ⟨⟨large, ?_⟩, later.bounded⟩
    exact Nat.le_trans size_le (Nat.min_le_right _ _)
  · cases spans with
    | nil => exact fun _ member => absurd member List.not_mem_nil
    | cons next rest =>
        have next_le := adjoin.first_le
        have next_large := (later.bounded next List.mem_cons_self).1
        rw [List.dropLast_cons_cons, List.forall_mem_cons]
        refine ⟨alignDown_min_eq_full aligned ?_, later.whole⟩
        have region_le : regionAlignment ≤ minArena := by decide
        omega

theorem spread_of_lt (short : remaining < full) : spread full base remaining =
    if remaining < minArena then [] else [⟨base, alignDown remaining regionAlignment⟩] := by
  rw [spread, Nat.div_eq_of_lt short, Nat.mod_eq_of_lt short, Nat.zero_mul, Nat.add_zero]
  rfl

theorem spread_of_le (positive : 0 < full) (long : full ≤ remaining) :
    spread full base remaining = ⟨base, full⟩ :: spread full (base + full) (remaining - full) := by
  have count : remaining / full = (remaining - full) / full + 1 :=
    Nat.div_eq_sub_div positive long
  have places : ∀ index, base + (index + 1) * full = base + full + index * full := by
    intro index
    rw [Nat.succ_mul]
    omega
  rw [spread, spread, count, Nat.mod_eq_sub_mod long, List.range_succ_eq_map, List.map_cons,
    List.map_map, List.cons_append, Nat.zero_mul, Nat.add_zero, places]
  simp only [Function.comp_def, Nat.succ_eq_add_one, places]

section Cut

variable (wide : minArena ≤ full) (aligned : full % regionAlignment = 0)

include wide aligned

theorem spread_cons (room : minArena ≤ remaining) : spread full base remaining =
    ⟨base, alignDown (min remaining full) regionAlignment⟩ ::
      spread full (base + alignDown (min remaining full) regionAlignment)
        (remaining - alignDown (min remaining full) regionAlignment) := by
  have positive : 0 < minArena := by decide
  by_cases short : remaining < full
  · have rounded := lt_alignDown_add remaining
    have region_le : regionAlignment ≤ minArena := by decide
    rw [Nat.min_eq_left (Nat.le_of_lt short), spread_of_lt short, spread_of_lt (by omega),
      if_neg (Nat.not_lt.mpr room), if_pos (by omega)]
  · have long := Nat.le_of_not_lt short
    rw [Nat.min_eq_right long, alignDown_of_aligned aligned, spread_of_le (by omega) long]

/-- The loop ends without an overflow, and its arenas partition the space. -/
theorem cut_partitions (inside : base + remaining < Word.limit) :
    cut full wide base remaining = some (spread full base remaining) ∧
      Partitions full base remaining (spread full base remaining) := by
  induction remaining using Nat.strongRecOn generalizing base with
  | ind remaining induction =>
      rw [cut]
      have positive : 0 < minArena := by decide
      by_cases room : minArena ≤ remaining
      · have size_le := alignDown_le (min remaining full) regionAlignment
        have large : minArena ≤ alignDown (min remaining full) regionAlignment :=
          minArena_le_alignDown (Nat.le_min.mpr ⟨room, wide⟩)
        obtain ⟨ran, later⟩ := @induction
          (remaining - alignDown (min remaining full) regionAlignment) (by omega)
          (base + alignDown (min remaining full) regionAlignment) (by omega)
        rw [spread_cons wide aligned room]
        refine ⟨?_, later.cons wide aligned room⟩
        rw [if_pos room]
        dsimp only
        split
        next refused =>
          rw [Word.sub_eq (by omega)] at refused
          cases refused
        next rest taken =>
          obtain ⟨-, rfl⟩ := Word.sub_some taken
          rw [Word.add_eq (by omega)]
          dsimp only [bind, Option.bind]
          rw [ran]
          rfl
      · rw [if_neg room, spread_of_lt (by omega), if_pos (Nat.lt_of_not_le room)]
        exact ⟨rfl, partitions_nil (Nat.lt_of_not_le room)⟩

end Cut

/-- Planning the arenas of a space is refused if and only if the space, or the largest arena allowed
when it is rounded down to whole regions, is below the smallest arena. Otherwise the loop that cuts
them off ends without an overflow, and the arenas partition the space up to a rest that makes no
arena. -/
theorem plan_partitions (totalSize largest : UInt64) :
    planChecked totalSize.toNat largest.toNat = some (plan totalSize.toNat largest.toNat) ∧
    (plan totalSize.toNat largest.toNat = .error (.tooSmall totalSize.toNat) ↔
      totalSize.toNat < minArena ∨ largest.toNat / 4096 * 4096 < minArena) ∧
    (¬(totalSize.toNat < minArena ∨ largest.toNat / 4096 * 4096 < minArena) →
      ∃ spans, plan totalSize.toNat largest.toNat = .ok spans ∧
        Partitions (largest.toNat / 4096 * 4096) 0 totalSize.toNat spans) := by
  have full_eq : alignDown largest.toNat regionAlignment = largest.toNat / 4096 * 4096 :=
    alignDown_shift largest.toNat 12
  have aligned := alignDown_region largest.toNat
  rw [← full_eq, plan_eq_spread, planChecked]
  by_cases small : totalSize.toNat < minArena ∨
      alignDown largest.toNat regionAlignment < minArena
  · rw [if_pos small, dif_pos small]
    exact ⟨rfl, iff_of_true rfl small, fun large => absurd small large⟩
  · have wide : minArena ≤ alignDown largest.toNat regionAlignment := by omega
    have inside : 0 + totalSize.toNat < Word.limit := by
      rw [Nat.zero_add]
      exact totalSize.toNat_lt
    obtain ⟨ran, parted⟩ := cut_partitions wide aligned inside
    have places : totalSize.toNat / alignDown largest.toNat regionAlignment + 1 < Word.limit := by
      have fewer := Nat.div_le_div_left wide (show 0 < minArena by decide) (a := totalSize.toNat)
      have words := totalSize.toNat_lt
      simp only [Word.limit, minArena, Nat.reduceShiftLeft] at *
      omega
    rw [if_neg small, dif_neg small]
    refine ⟨?_, iff_of_false (fun refused => by cases refused) small, fun _ => ⟨_, rfl, parted⟩⟩
    rw [Word.add_eq places]
    dsimp only [bind, Option.bind]
    rw [ran]
    rfl

end Span

end Remap.Block
