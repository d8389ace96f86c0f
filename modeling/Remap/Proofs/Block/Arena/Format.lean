import Remap.Proofs.Block.Arena.Fresh
import Remap.Proofs.Block.Script

/-!
# A fresh arena is held

Laying out an arena is a script of accesses. Its writes zero the map and store the flog, which
makes the arena a fresh one, and store the copy of the info block and the info block last. All
of them lie in the span, and the data blocks keep their bytes. The chunks that the map is zeroed
in make up the whole map.
-/

namespace Remap.Block

open Remap.Media

namespace Arena

variable {contents before : Contents} {span : Span} {info : InfoBlock} {size : Nat} {sound : Prop}

def zeroWrites (span : Span) (info : InfoBlock) : List (Nat × List UInt8) :=
  (chunks (info.dataOffset.toNat - info.mapOffset.toNat)).map fun chunk =>
    (span.base + info.mapOffset.toNat + chunk.1,
      (List.replicate zeroChunk 0).drop (zeroChunk - chunk.2))

def clearWrites (span : Span) (info : InfoBlock) : List (Nat × List UInt8) :=
  zeroWrites span info ++
    [(span.base + info.flogOffset.toNat, (initialFlog info).flatMap FlogSlot.toBytes)]

def formatWrites (span : Span) (info : InfoBlock) : List (Nat × List UInt8) :=
  clearWrites span info ++
    [(span.base + info.infoOffset.toNat, info.toBytes), (span.base, info.toBytes)]

def formatActs (span : Span) (info : InfoBlock) : List Act :=
  (zeroWrites span info).map (fun write => .write write.1 write.2) ++
    [.write (span.base + info.flogOffset.toNat) ((initialFlog info).flatMap FlogSlot.toBytes),
      .flush, .write (span.base + info.infoOffset.toNat) info.toBytes, .flush,
      .write span.base info.toBytes, .flush]

theorem writes_formatActs (span : Span) (info : InfoBlock) :
    Act.writes (formatActs span info) = formatWrites span info := by
  have each (writes : List (Nat × List UInt8)) :
      Act.writes (writes.map fun write => .write write.1 write.2) = writes := by
    induction writes with
    | nil => rfl
    | cons write rest induction => rw [List.map_cons, Act.writes, induction]
  rw [formatActs, Act.writes_append, each, formatWrites, clearWrites, List.append_assoc]
  rfl

theorem format_eq {μ : Type} [Media μ] (span : Span) (info : InfoBlock) :
    (format span info : Step μ Arena) =
      Step.issue (formatActs span info) >>= fun _ => pure (fresh span info) := by
  have zeroed : (zeroMap span info : Step μ PUnit) =
      Step.issue ((zeroWrites span info).map fun write => .write write.1 write.2) := by
    rw [zeroMap, Step.issue, zeroWrites]
    simp only [List.forM_eq_forM, List.forM_map]
    rfl
  rw [formatActs, Step.issue_append, ← zeroed, format]
  simp only [Step.issue_cons, Step.issue_nil, Act.perform, bind_assoc, pure_bind]
  rfl

theorem drop_zeros {length : Nat} (short : length ≤ zeroChunk) :
    (List.replicate zeroChunk (0 : UInt8)).drop (zeroChunk - length) = List.replicate length 0 := by
  rw [List.drop_replicate]
  congr 1
  omega

theorem store_zeros (contents : Contents) (offset length position : Nat) :
    contents.store offset (List.replicate length 0) position =
      if offset ≤ position ∧ position < offset + length then 0 else contents position := by
  by_cases inside : offset ≤ position ∧ position < offset + length
  · rw [if_pos inside, Contents.store_inside inside.1 (by rw [List.length_replicate]; omega)]
    simp
  · rw [if_neg inside, Contents.store_outside]
    simp only [List.length_replicate]
    omega

theorem storeAll_zeroChunks (start : Nat) (chunks : List (Nat × Nat))
    (short : ∀ chunk ∈ chunks, chunk.2 ≤ zeroChunk) (position : Nat) :
    contents.storeAll (chunks.map fun chunk =>
        (start + chunk.1, (List.replicate zeroChunk 0).drop (zeroChunk - chunk.2))) position =
      if ∃ chunk ∈ chunks, start + chunk.1 ≤ position ∧ position < start + chunk.1 + chunk.2 then 0
      else contents position := by
  induction chunks generalizing contents with
  | nil => simp [Contents.storeAll]
  | cons chunk rest induction =>
      have first := drop_zeros (short chunk List.mem_cons_self)
      rw [List.map_cons, first]
      refine (induction fun other member => short other (List.mem_cons_of_mem chunk member)).trans ?_
      dsimp only
      rw [store_zeros]
      by_cases first : start + chunk.1 ≤ position ∧ position < start + chunk.1 + chunk.2
      · have covered : ∃ other ∈ chunk :: rest, start + other.1 ≤ position ∧
            position < start + other.1 + other.2 := ⟨chunk, List.mem_cons_self, first⟩
        rw [if_pos first, if_pos covered, ite_self]
      · rw [if_neg first]
        congr 1
        simp only [List.mem_cons, exists_eq_or_imp, first, false_or]

/-- The chunks cover the length that was cut, and no more. -/
theorem chunks_cover (length : Nat) :
    (∀ chunk ∈ chunks length, chunk.2 ≤ zeroChunk ∧ chunk.1 + chunk.2 ≤ length) ∧
      ∀ position, position < length →
        ∃ chunk ∈ chunks length, chunk.1 ≤ position ∧ position < chunk.1 + chunk.2 := by
  simp only [chunks, zeroChunk]
  constructor
  · intro chunk member
    obtain ⟨index, inside, rfl⟩ := List.mem_map.mp member
    have below := List.mem_range.mp inside
    dsimp only
    omega
  · intro position inside
    refine ⟨(position / 65536 * 65536, min 65536 (length - position / 65536 * 65536)), ?_, ?_, ?_⟩
    · apply List.mem_map.mpr
      exact ⟨position / 65536, List.mem_range.mpr (by omega), rfl⟩
    · exact Nat.div_mul_le_self _ _
    · dsimp only
      omega

theorem storeAll_zeroWrites (contents : Contents) (span : Span) (info : InfoBlock)
    (position : Nat) : contents.storeAll (zeroWrites span info) position =
      if span.base + info.mapOffset.toNat ≤ position ∧
        position < span.base + info.mapOffset.toNat +
          (info.dataOffset.toNat - info.mapOffset.toNat) then 0
      else contents position := by
  obtain ⟨bounded, covered⟩ := chunks_cover (info.dataOffset.toNat - info.mapOffset.toNat)
  refine (storeAll_zeroChunks _ _ (fun chunk member => (bounded chunk member).1) _).trans ?_
  congr 1
  rw [eq_iff_iff]
  constructor
  · rintro ⟨chunk, member, lower, upper⟩
    have within := (bounded chunk member).2
    omega
  · rintro ⟨lower, upper⟩
    obtain ⟨chunk, member, above, below⟩ :=
      covered (position - (span.base + info.mapOffset.toNat)) (by omega)
    exact ⟨chunk, member, by omega, by omega⟩

section Writes

variable (described : info.Describes span)

include described

theorem format_regions :
    span.base + infoBlockBytes ≤ span.base + info.flogOffset.toNat ∧
      span.base + info.flogOffset.toNat + ((initialFlog info).flatMap FlogSlot.toBytes).length ≤
        span.base + info.mapOffset.toNat ∧
      info.mapOffset.toNat ≤ info.dataOffset.toNat ∧
      info.dataOffset.toNat ≤ info.infoOffset.toNat ∧
      span.base + info.infoOffset.toNat + infoBlockBytes = span.stop := by
  have flog := described.flog_start
  have flogEnd := described.flog_end
  have map := described.map_end
  have data := described.data_end
  have last := described.info_end
  rw [length_flatMap_toBytes, length_initialFlog, Span.stop]
  omega

theorem zeroWrites_inside : ∀ write ∈ zeroWrites span info,
    span.base + info.mapOffset.toNat ≤ write.1 ∧
      write.1 + write.2.length ≤ span.base + info.dataOffset.toNat := by
  obtain ⟨-, -, ordered, -, -⟩ := format_regions described
  obtain ⟨bounded, -⟩ := chunks_cover (info.dataOffset.toNat - info.mapOffset.toNat)
  intro write member
  obtain ⟨chunk, chunkMember, rfl⟩ := List.mem_map.mp member
  obtain ⟨short, within⟩ := bounded chunk chunkMember
  dsimp only
  rw [drop_zeros short, List.length_replicate]
  omega

theorem clearWrites_inside : ∀ write ∈ clearWrites span info,
    span.base + infoBlockBytes ≤ write.1 ∧
      write.1 + write.2.length ≤ span.base + info.dataOffset.toNat := by
  obtain ⟨first, flog, map, -, -⟩ := format_regions described
  intro write member
  rcases List.mem_append.mp member with zero | last
  · have inside := zeroWrites_inside described write zero
    omega
  · cases List.mem_singleton.mp last
    dsimp only
    omega

theorem formatWrites_inside : ∀ write ∈ formatWrites span info,
    span.base ≤ write.1 ∧ write.1 + write.2.length ≤ span.stop := by
  obtain ⟨first, flog, map, data, last⟩ := format_regions described
  have width := info.length_toBytes
  intro write member
  rcases List.mem_append.mp member with clear | infos
  · have inside := clearWrites_inside described write clear
    omega
  · rcases List.mem_cons.mp infos with rfl | primary
    · dsimp only
      omega
    · cases List.mem_singleton.mp primary
      dsimp only
      omega

theorem cleared (contents : Contents) :
    Cleared span info (contents.storeAll (clearWrites span info)) := by
  obtain ⟨first, flog, map, data, -⟩ := format_regions described
  rw [clearWrites, Contents.storeAll_append]
  constructor
  · intro position lower upper
    refine (Contents.store_outside (.inr (by dsimp only; omega))).trans ?_
    rw [storeAll_zeroWrites, if_pos (by omega)]
  · have width : info.nfree.toNat * flogSlotBytes =
        ((initialFlog info).flatMap FlogSlot.toBytes).length := by
      rw [length_flatMap_toBytes, length_initialFlog]
    rw [width]
    exact Contents.load_store_same

/-- The info blocks are the last that is stored. -/
theorem storeAll_formatWrites (contents : Contents) :
    contents.storeAll (formatWrites span info) =
      ((contents.storeAll (clearWrites span info)).store (span.stop - infoBlockBytes)
        info.toBytes).store span.base info.toBytes := by
  obtain ⟨-, -, -, -, last⟩ := format_regions described
  have place : span.stop - infoBlockBytes = span.base + info.infoOffset.toNat := by omega
  rw [formatWrites, Contents.storeAll_append, place]
  rfl

theorem formatted_cleared (contents : Contents) :
    Cleared span info (contents.storeAll (formatWrites span info)) := by
  obtain ⟨first, flog, map, data, last⟩ := format_regions described
  have width := info.length_toBytes
  apply (cleared described contents).congr described
  intro position lower upper
  rw [storeAll_formatWrites described, Contents.store_outside (by omega),
    Contents.store_outside (by omega)]

theorem formatted_info (contents : Contents) :
    (contents.storeAll (formatWrites span info)).load span.base infoBlockBytes =
      info.toBytes := by
  rw [storeAll_formatWrites described, ← info.length_toBytes]
  exact Contents.load_store_same

theorem formatted_copy (contents : Contents) :
    (contents.storeAll (formatWrites span info)).load (span.stop - infoBlockBytes)
      infoBlockBytes = info.toBytes := by
  obtain ⟨first, flog, map, data, last⟩ := format_regions described
  have width := info.length_toBytes
  rw [storeAll_formatWrites described, Contents.load_store_apart (by omega), ← width]
  exact Contents.load_store_same

theorem formatted_value {lba : UInt32} (inside : lba < info.external) :
    (fresh span info).identityBytes (contents.storeAll (formatWrites span info)) lba =
      (fresh span info).identityBytes contents lba := by
  obtain ⟨first, flog, map, data, last⟩ := format_regions described
  have width := info.length_toBytes
  have total := described.internal_eq
  have below := UInt32.lt_iff_toNat_lt.mp inside
  have block : lba < (fresh span info).info.internal := by
    rw [UInt32.lt_iff_toNat_lt]
    change lba.toNat < info.internal.toNat
    omega
  obtain ⟨lower, upper⟩ := @data_range (fresh span info) described.divides lba block
  have fits := described.size_le
  have kept : (contents.storeAll (formatWrites span info)).AgreeOn contents
      (fresh span info).dataStart (span.base + info.infoOffset.toNat) := by
    intro position above below
    change span.base + info.dataOffset.toNat ≤ position at above
    rw [storeAll_formatWrites described, Contents.store_outside (by omega),
      Contents.store_outside (by omega)]
    exact Contents.storeAll_outside (clearWrites_inside described) position (.inr above)
  change _ + info.internalSize.toNat + _ ≤ span.stop at upper
  exact Contents.load_congr kept lower
    (by change (fresh span info).dataOffset lba + info.externalSize.toNat ≤ _; omega)

end Writes

section Cut

variable (contents) {count : Nat} (described : info.Describes span)

theorem length_formatWrites (span : Span) (info : InfoBlock) :
    (formatWrites span info).length = (clearWrites span info).length + 2 := by
  rw [formatWrites, List.length_append]
  rfl

/-- How far the layout of an arena got in its first `count` writes: to the map and the flog, to
the copy of the info block, or to its end. -/
theorem take_formatWrites (span : Span) (info : InfoBlock) (count : Nat) :
    (count ≤ (clearWrites span info).length ∧
      (formatWrites span info).take count = (clearWrites span info).take count) ∨
    (count = (clearWrites span info).length + 1 ∧ (formatWrites span info).take count =
      clearWrites span info ++ [(span.base + info.infoOffset.toNat, info.toBytes)]) ∨
    ((clearWrites span info).length + 2 ≤ count ∧
      (formatWrites span info).take count = formatWrites span info) := by
  rw [formatWrites, List.take_append]
  rcases Nat.lt_trichotomy count ((clearWrites span info).length + 1) with before | rfl | after
  · left
    rw [Nat.sub_eq_zero_of_le (by omega), List.take_zero, List.append_nil]
    exact ⟨by omega, rfl⟩
  · right; left
    rw [List.take_of_length_le (Nat.le_succ _), Nat.add_sub_cancel_left]
    exact ⟨rfl, rfl⟩
  · right; right
    rw [List.take_of_length_le (by omega), List.take_of_length_le]
    · exact ⟨after, rfl⟩
    · rw [List.length_cons, List.length_singleton]
      omega

include described

theorem clearWrites_keep (count : Nat) :
    (contents.storeAll ((clearWrites span info).take count)).load span.base infoBlockBytes =
        contents.load span.base infoBlockBytes ∧
      (contents.storeAll ((clearWrites span info).take count)).load (span.stop - infoBlockBytes)
        infoBlockBytes = contents.load (span.stop - infoBlockBytes) infoBlockBytes := by
  obtain ⟨first, flog, map, data, last⟩ := format_regions described
  have outside : (contents.storeAll ((clearWrites span info).take count)).AgreeOutside contents
      (span.base + infoBlockBytes) (span.base + info.dataOffset.toNat) :=
    Contents.storeAll_outside fun write member =>
      clearWrites_inside described write (List.mem_of_mem_take member)
  constructor
  · exact Contents.load_congr (outside.agreeOn (.inl (Nat.le_refl _))) (Nat.le_refl _)
      (Nat.le_refl _)
  · apply Contents.load_congr (outside.agreeOn (.inr (Nat.le_refl _))) _ (Nat.le_refl _)
    omega

theorem cut_info : (contents.storeAll ((formatWrites span info).take count)).load span.base
    infoBlockBytes =
      if (clearWrites span info).length + 2 ≤ count then info.toBytes
      else contents.load span.base infoBlockBytes := by
  obtain ⟨first, flog, map, data, last⟩ := format_regions described
  rcases take_formatWrites span info count with ⟨few, taken⟩ | ⟨some, taken⟩ | ⟨all, taken⟩
  · rw [taken, if_neg (by omega)]
    exact (clearWrites_keep contents described count).1
  · rw [taken, if_neg (by omega), Contents.storeAll_append]
    refine (Contents.load_store_apart (.inl (by dsimp only; omega))).trans ?_
    rw [← (clearWrites span info).take_length]
    exact (clearWrites_keep contents described _).1
  · rw [taken, if_pos all]
    exact formatted_info described contents

theorem cut_copy : (contents.storeAll ((formatWrites span info).take count)).load
    (span.stop - infoBlockBytes) infoBlockBytes =
      if (clearWrites span info).length < count then info.toBytes
      else contents.load (span.stop - infoBlockBytes) infoBlockBytes := by
  obtain ⟨first, flog, map, data, last⟩ := format_regions described
  have width := info.length_toBytes
  rcases take_formatWrites span info count with ⟨few, taken⟩ | ⟨some, taken⟩ | ⟨all, taken⟩
  · rw [taken, if_neg (by omega)]
    exact (clearWrites_keep contents described count).2
  · have place : span.stop - infoBlockBytes = span.base + info.infoOffset.toNat := by omega
    rw [taken, if_pos (by omega), Contents.storeAll_append, place, ← width]
    exact Contents.load_store_same
  · rw [taken, if_pos (by omega)]
    exact formatted_copy described contents

theorem cut_cleared (enough : (clearWrites span info).length ≤ count) :
    Cleared span info (contents.storeAll ((formatWrites span info).take count)) := by
  obtain ⟨first, flog, map, data, last⟩ := format_regions described
  rcases take_formatWrites span info count with ⟨few, taken⟩ | ⟨-, taken⟩ | ⟨-, taken⟩
  · rw [taken, List.take_of_length_le enough]
    exact cleared described contents
  · rw [taken, Contents.storeAll_append]
    apply (cleared described contents).congr described
    intro position lower upper
    exact (Contents.store_outside (.inl (by dsimp only; omega))).symm
  · rw [taken]
    exact formatted_cleared described contents

/-- Whichever info block is in use when the layout is cut short, it is the one that was being
laid out, or it was there before. -/
theorem inForce_cut {expected : Expectation} {used : InfoBlock} {held : Contents}
    (accepted : info.mismatch? expected = none)
    (chosen : inForce span expected (contents.storeAll ((formatWrites span info).take count)) =
      .ok (used, held)) :
    (used = info ∧ (clearWrites span info).length < count) ∨
      (count ≤ (clearWrites span info).length + 1 ∧
        (infoAt contents span.base expected = .ok used ∨
          infoAt contents (span.stop - infoBlockBytes) expected = .ok used)) := by
  have current := And.intro described.major_eq (And.intro described.minor_eq described.infoSize_eq)
  have primary := @cut_info contents _ _ count described
  have copy := @cut_copy contents _ _ count described
  generalize contents.storeAll ((formatWrites span info).take count) = after at primary copy chosen
  by_cases all : (clearWrites span info).length + 2 ≤ count
  · left
    rw [if_pos all] at primary
    have found := infoAt_toBytes primary current accepted
    rw [inForce, found] at chosen
    cases chosen
    exact ⟨rfl, by omega⟩
  · rw [if_neg all] at primary
    rcases inForce_ok chosen with ⟨found, -⟩ | ⟨-, found, -⟩
    · right
      rw [infoAt_congr primary] at found
      exact ⟨by omega, .inl found⟩
    · by_cases copied : (clearWrites span info).length < count
      · left
        rw [if_pos copied] at copy
        rw [infoAt_toBytes copy current accepted] at found
        cases found
        exact ⟨rfl, copied⟩
      · right
        rw [if_neg copied] at copy
        rw [infoAt_congr copy] at found
        exact ⟨by omega, .inr found⟩

end Cut

/-- A fresh arena takes writes and holds the bytes that were already in its blocks. -/
theorem meets_format {μ : Type} [Media μ] [Atomic μ] (described : info.Describes span)
    (room : span.stop ≤ size) :
    (format span info : Step μ Arena).Meets size sound before
      (fun arena after => arena = fresh span info ∧
        after.AgreeOutside before span.base span.stop ∧
        arena.Holds arena (arena.identityBytes before) after)
      (fun _ _ => ¬ sound) := by
  obtain ⟨head, others, flog_eq⟩ : ∃ head others, initialFlog info = head :: others :=
    List.exists_cons_of_length_pos (length_initialFlog info ▸ described.nfree_pos)
  have inside := formatWrites_inside described
  have issue : (Step.issue (formatActs span info) : Step μ _).Meets size sound before _ _ :=
    Step.meets_issue fun write member => by
      rw [writes_formatActs] at member
      exact Nat.le_trans (inside write member).2 room
  rw [format_eq]
  apply Step.meets_bind
  apply issue.mono _ fun _ _ => id
  rintro _ _ rfl
  rw [writes_formatActs]
  refine Step.meets_pure ⟨rfl, Contents.storeAll_outside inside, ?_⟩
  have cleared := formatted_cleared described before
  have durable := (cleared.durable described (formatted_info described before)
    (formatted_copy described before) flog_eq).value_congr
      fun lba lbaInside => formatted_value described lbaInside
  refine ⟨id, head, others, durable, rfl, .inr ?_⟩
  exact ⟨rfl, rfl, rfl, ⟨head.spare, flog_eq⟩, cleared.settled described⟩

end Arena

end Remap.Block
