import Remap.Proofs.Block.MapEntry
import Remap.Proofs.Bytes.Slices
import Remap.Proofs.Media.Words

/-!
# Flog slots on a media

A slot that was read back tells its two records apart by their sequence numbers and names
only blocks that exist. Staging the body of a record leaves the active record alone, and
storing the sequence number is what makes the staged record the active one.
-/

namespace Remap.Block

open Remap.Media

theorem seq_cases {seq : UInt32} (positive : seq ≠ 0) (small : seq ≤ 3) :
    seq = 1 ∨ seq = 2 ∨ seq = 3 := by
  simp only [← UInt32.toNat_inj, ne_eq, UInt32.le_iff_toNat_le] at *
  simp at *
  omega

theorem nextSeq_cycle {seq : UInt32} (positive : seq ≠ 0) (small : seq ≤ 3) :
    nextSeq seq ≠ 0 ∧ nextSeq seq ≤ 3 ∧ nextSeq seq ≠ seq ∧ nextSeq (nextSeq seq) ≠ seq := by
  rcases seq_cases positive small with rfl | rfl | rfl <;> decide

namespace FlogRecord

def storedAt (contents : Contents) (offset : Nat) : FlogRecord where
  lba := contents.word offset
  oldMap := ⟨contents.word (offset + 4)⟩
  newMap := ⟨contents.word (offset + 8)⟩
  seq := contents.word (offset + 12)

variable {contents left right : Contents} {offset other start stop : Nat} {record : FlogRecord}

theorem storedAt_store_body :
    storedAt (contents.store offset record.body) offset =
      { record with seq := (storedAt contents offset).seq } := by
  have words : contents.store offset record.body =
      ((contents.storeWord offset record.lba).storeWord (offset + 4) record.oldMap.raw).storeWord
        (offset + 8) record.newMap.raw := by
    rw [body, Contents.store_append, Contents.store_append]
    simp only [List.length_append, LittleEndian.length_encode]
    rfl
  rw [storedAt, words]
  rw [Contents.word_storeWord_same, Contents.word_storeWord_apart (by omega),
    Contents.word_storeWord_apart (by omega), Contents.word_storeWord_same,
    Contents.word_storeWord_apart (by omega), Contents.word_storeWord_same,
    Contents.word_storeWord_apart (by omega), Contents.word_storeWord_apart (by omega),
    Contents.word_storeWord_apart (by omega)]
  rfl

theorem storedAt_store_tail :
    storedAt (contents.store (offset + bodyWidth) record.tail) offset =
      { storedAt contents offset with seq := record.seq } := by
  change storedAt (contents.storeWord (offset + 12) record.seq) offset = _
  rw [storedAt, Contents.word_storeWord_apart (by omega), Contents.word_storeWord_apart (by omega),
    Contents.word_storeWord_apart (by omega), Contents.word_storeWord_same]
  rfl

theorem storedAt_store_apart {bytes : List UInt8}
    (apart : other + width ≤ offset ∨ offset + bytes.length ≤ other) :
    storedAt (contents.store offset bytes) other = storedAt contents other := by
  simp only [width] at apart
  rw [storedAt, Contents.word_store_apart (by omega), Contents.word_store_apart (by omega),
    Contents.word_store_apart (by omega), Contents.word_store_apart (by omega)]
  rfl

theorem storedAt_congr (agree : left.AgreeOn right start stop) (lower : start ≤ offset)
    (upper : offset + width ≤ stop) : storedAt left offset = storedAt right offset := by
  simp only [width] at upper
  rw [storedAt, Contents.word_congr agree (by omega) (by omega),
    Contents.word_congr agree (by omega) (by omega),
    Contents.word_congr agree (by omega) (by omega),
    Contents.word_congr agree (by omega) (by omega)]
  rfl

theorem ofBytes_load {skip length : Nat} (inside : skip + width ≤ length) :
    ofBytes skip (contents.load offset length) = storedAt contents (offset + skip) := by
  simp only [width] at inside
  simp only [ofBytes]
  rw [Contents.number_load (by omega), Contents.number_load (by omega),
    Contents.number_load (by omega), Contents.number_load (by omega)]
  rfl

theorem ofBytes_toBytes (record : FlogRecord) (front back : List UInt8) :
    ofBytes front.length (front ++ record.toBytes ++ back) = record := by
  have flat : front ++ record.toBytes ++ back =
      [front, LittleEndian.encode 4 record.lba.toNat, LittleEndian.encode 4 record.oldMap.raw.toNat,
        LittleEndian.encode 4 record.newMap.raw.toNat, LittleEndian.encode 4 record.seq.toNat,
        back].flatten := by
    simp [toBytes, body, tail]
  generalize pieces_eq : [front, LittleEndian.encode 4 record.lba.toNat,
    LittleEndian.encode 4 record.oldMap.raw.toNat, LittleEndian.encode 4 record.newMap.raw.toNat,
    LittleEndian.encode 4 record.seq.toNat, back] = pieces at flat
  have word (index : Nat) (value : UInt32) (skip : Nat)
      (found : pieces[index]? = some (LittleEndian.encode 4 value.toNat))
      (place : (pieces.take index).flatten.length = front.length + skip) :
      UInt32.ofNat (Bytes.number (front.length + skip) 4 (front ++ record.toBytes ++ back)) =
        value := by
    obtain ⟨inside, piece⟩ := List.getElem?_eq_some_iff.mp found
    have read := Bytes.slice_flatten pieces index inside
    rw [piece, place, LittleEndian.length_encode] at read
    rw [flat, Bytes.number, read, LittleEndian.decode_encode_of_lt 4 value.toNat_lt,
      UInt32.ofNat_toNat]
  subst pieces_eq
  simp only [ofBytes]
  rw [word 1 record.lba 0 rfl (by simp), word 2 record.oldMap.raw 4 rfl (by simp),
    word 3 record.newMap.raw 8 rfl (by simp), word 4 record.seq 12 rfl (by simp)]

end FlogRecord

namespace FlogSlot

structure Sound (slot : FlogSlot) (external internal : UInt32) : Prop where
  written : slot.active.seq ≠ 0
  active_le : slot.active.seq ≤ 3
  spare_le : slot.spare.seq ≤ 3
  follows : slot.spare.seq = 0 ∨ nextSeq slot.spare.seq = slot.active.seq
  active_lba : slot.active.lba < external
  spare_lba : slot.spare.lba < external
  old_lt : slot.active.oldMap.backingBlock slot.active.lba < internal
  new_lt : slot.active.newMap.backingBlock slot.active.lba < internal

variable {slot : FlogSlot} {record : FlogRecord} {external internal : UInt32}

theorem Sound.seq_ne (sound : slot.Sound external internal) :
    slot.active.seq ≠ slot.spare.seq := by
  intro equal
  rcases sound.follows with never | next
  · exact sound.written (equal.trans never)
  · have positive : slot.spare.seq ≠ 0 := equal ▸ sound.written
    exact (nextSeq_cycle positive sound.spare_le).2.2.1 (next.trans equal)

theorem Sound.activePosition_eq (sound : slot.Sound external internal) :
    activePosition slot.active.seq slot.spare.seq = 0 ∧
      activePosition slot.spare.seq slot.active.seq = 1 := by
  have written := sound.written
  unfold activePosition
  rcases sound.follows with never | next
  · simp [never, written]
  · by_cases never : slot.spare.seq = 0
    · simp [never, written]
    · have turn := (nextSeq_cycle never sound.spare_le).2.2.2
      rw [next] at turn
      simp [next, written, turn]

theorem Sound.ofRecords_eq (sound : slot.Sound external internal) {first second : FlogRecord}
    (stored : slot.records = [first, second]) :
    ofRecords first second external internal = .ok slot := by
  have activeLba := UInt32.not_le.mpr sound.active_lba
  have spareLba := UInt32.not_le.mpr sound.spare_lba
  have oldBlock := UInt32.not_le.mpr sound.old_lt
  have newBlock := UInt32.not_le.mpr sound.new_lt
  have activeSeq := UInt32.not_lt.mpr sound.active_le
  have spareSeq := UInt32.not_lt.mpr sound.spare_le
  rcases slot with ⟨active, spare, position⟩
  by_cases atFirst : position = 0
  · simp only [records, atFirst, if_true, List.cons.injEq, and_true] at stored
    obtain ⟨rfl, rfl⟩ := stored
    simp only [ofRecords, activeSeq, spareSeq, sound.seq_ne, or_self, if_false,
      sound.activePosition_eq.1, if_true]
    simp [List.find?, activeLba, spareLba, oldBlock, newBlock, atFirst]
  · have atSecond : position = 1 := by omega
    simp only [records, atFirst, if_false, List.cons.injEq, and_true] at stored
    obtain ⟨rfl, rfl⟩ := stored
    simp only [ofRecords, activeSeq, spareSeq, sound.seq_ne.symm, or_self, if_false,
      sound.activePosition_eq.2]
    simp [List.find?, activeLba, spareLba, oldBlock, newBlock, atSecond]

theorem activePosition_cases {first second : UInt32} (firstSmall : first ≤ 3)
    (secondSmall : second ≤ 3) (different : first ≠ second) :
    (activePosition first second = 0 ∧ first ≠ 0 ∧ (second = 0 ∨ nextSeq second = first)) ∨
      (activePosition first second = 1 ∧ second ≠ 0 ∧ (first = 0 ∨ nextSeq first = second)) := by
  by_cases noFirst : first = 0
  · have written : second ≠ 0 := fun noSecond => different (noFirst.trans noSecond.symm)
    exact .inr ⟨by simp [activePosition, noFirst, written], written, .inl noFirst⟩
  · by_cases noSecond : second = 0
    · exact .inl ⟨by simp [activePosition, noSecond], noFirst, .inl noSecond⟩
    · rcases seq_cases noFirst firstSmall with rfl | rfl | rfl <;>
        rcases seq_cases noSecond secondSmall with rfl | rfl | rfl <;>
          first | exact absurd rfl different | decide

/-- Whatever the two records are, they are only taken for a slot that is sound. -/
theorem ofRecords_sound {first second : FlogRecord}
    (decoded : ofRecords first second external internal = .ok slot) :
    slot.Sound external internal := by
  simp only [ofRecords] at decoded
  split at decoded
  next => cases decoded
  next ordered =>
    simp only [not_or, UInt32.not_lt] at ordered
    obtain ⟨firstSmall, secondSmall, different⟩ := ordered
    split at decoded
    next => cases decoded
    next located =>
      simp only [List.find?_eq_none, List.forall_mem_cons, decide_eq_true_eq, UInt32.not_le]
        at located
      obtain ⟨firstLba, secondLba, -⟩ := located
      split at decoded
      next => cases decoded
      next backed =>
        simp only [List.find?_eq_none, List.map_cons, List.map_nil, List.forall_mem_cons,
          decide_eq_true_eq, UInt32.not_le] at backed
        obtain ⟨oldBlock, newBlock, -⟩ := backed
        cases decoded
        rcases activePosition_cases firstSmall secondSmall different with
          ⟨position, written, follows⟩ | ⟨position, written, follows⟩
        · rw [position] at oldBlock newBlock
          simp only [position]
          exact ⟨written, firstSmall, secondSmall, follows, firstLba, secondLba, oldBlock, newBlock⟩
        · rw [position] at oldBlock newBlock
          simp only [position]
          exact ⟨written, secondSmall, firstSmall, follows, secondLba, firstLba, oldBlock, newBlock⟩

def staged (slot : FlogSlot) (record : FlogRecord) : FlogSlot :=
  { slot with spare := { record with seq := slot.spare.seq } }

theorem Sound.staged (sound : slot.Sound external internal) (inside : record.lba < external) :
    (slot.staged record).Sound external internal :=
  { sound with spare_lba := inside }

/-- Storing the next sequence number makes the staged record the active one. -/
theorem Sound.commit (sound : slot.Sound external internal) (inside : record.lba < external)
    (oldBlock : record.oldMap.backingBlock record.lba < internal)
    (newBlock : record.newMap.backingBlock record.lba < internal)
    (next : record.seq = nextSeq slot.active.seq) :
    (slot.commit record).Sound external internal := by
  obtain ⟨positive, small, -, -⟩ := nextSeq_cycle sound.written sound.active_le
  exact {
    written := next ▸ positive
    active_le := by
      change record.seq ≤ 3
      rw [next]
      exact small
    spare_le := sound.active_le
    follows := .inr next.symm
    active_lba := inside
    spare_lba := sound.active_lba
    old_lt := oldBlock
    new_lt := newBlock }

theorem initial_sound {number : UInt32} (own : number < external)
    (room : external.toNat + number.toNat < internal.toNat)
    (few : internal.toNat ≤ maxInternalBlocks) :
    (initial number external).Sound external internal := by
  have block : (external + number).toNat = external.toNat + number.toNat := by
    rw [UInt32.toNat_add]
    exact Nat.mod_eq_of_lt (Nat.lt_trans room internal.toNat_lt)
  have free_eq : (initial number external).freeBlock = external + number :=
    MapEntry.backingBlock_eq (MapEntry.explicit_normal _ _) (by omega)
  have free_lt : (initial number external).freeBlock < internal := by
    rw [free_eq, UInt32.lt_iff_toNat_lt, block]
    exact room
  exact {
    written := by simp [initial]
    active_le := by
      change (1 : UInt32) ≤ 3
      decide
    spare_le := UInt32.zero_le
    follows := .inl rfl
    active_lba := own
    spare_lba := Std.lt_of_le_of_lt UInt32.zero_le own
    old_lt := free_lt
    new_lt := free_lt }

structure StoredAt (slot : FlogSlot) (contents : Contents) (offset : Nat)
    (external internal : UInt32) : Prop where
  sound : slot.Sound external internal
  active_eq :
    FlogRecord.storedAt contents (offset + slot.position.val * FlogRecord.width) = slot.active
  spare_eq :
    FlogRecord.storedAt contents (offset + slot.sparePosition * FlogRecord.width) = slot.spare

variable {contents left right : Contents} {offset start stop : Nat}

theorem position_cases (slot : FlogSlot) :
    (slot.position.val = 0 ∧ slot.sparePosition = 1) ∨
      (slot.position.val = 1 ∧ slot.sparePosition = 0) := by
  rw [sparePosition]
  omega

theorem StoredAt.ofBytes_eq (stored : slot.StoredAt contents offset external internal) :
    ofBytes (contents.load offset flogSlotBytes) external internal = .ok slot := by
  rw [ofBytes, FlogRecord.ofBytes_load (by decide), FlogRecord.ofBytes_load (by decide)]
  apply stored.sound.ofRecords_eq
  have active := stored.active_eq
  have spare := stored.spare_eq
  rcases slot.position_cases with ⟨position, other⟩ | ⟨position, other⟩
  · rw [position, Nat.zero_mul] at active
    rw [other, Nat.one_mul] at spare
    have first : slot.position = 0 := Fin.ext position
    rw [records, if_pos first, active, spare]
  · rw [position, Nat.one_mul] at active
    rw [other, Nat.zero_mul] at spare
    have second : slot.position ≠ 0 := fun first => by simp [first] at position
    rw [records, if_neg second, active, spare]

theorem Sound.storedAt (sound : slot.Sound external internal)
    (loaded : contents.load offset flogSlotBytes = slot.toBytes) :
    slot.StoredAt contents offset external internal := by
  have split (first second : FlogRecord) (stored : slot.records = [first, second]) :
      FlogRecord.storedAt contents (offset + 0) = first ∧
        FlogRecord.storedAt contents (offset + FlogRecord.width) = second := by
    have bytes : slot.toBytes = first.toBytes ++ second.toBytes ++
        List.replicate (flogSlotBytes - 2 * FlogRecord.width) 0 := by
      simp [toBytes, stored]
    have readFirst : FlogRecord.ofBytes 0 (contents.load offset flogSlotBytes) =
        FlogRecord.storedAt contents (offset + 0) := FlogRecord.ofBytes_load (by decide)
    have readSecond : FlogRecord.ofBytes FlogRecord.width (contents.load offset flogSlotBytes) =
        FlogRecord.storedAt contents (offset + FlogRecord.width) :=
      FlogRecord.ofBytes_load (by decide)
    rw [← readFirst, ← readSecond, loaded, bytes]
    constructor
    · have read := first.ofBytes_toBytes [] (second.toBytes ++
        List.replicate (flogSlotBytes - 2 * FlogRecord.width) 0)
      simpa using read
    · have read := second.ofBytes_toBytes first.toBytes
        (List.replicate (flogSlotBytes - 2 * FlogRecord.width) 0)
      simpa using read
  rcases slot.position_cases with ⟨position, other⟩ | ⟨position, other⟩
  · have first : slot.position = 0 := Fin.ext position
    obtain ⟨active, spare⟩ := split slot.active slot.spare (by simp [records, first])
    refine ⟨sound, ?_, ?_⟩
    · rw [position, Nat.zero_mul]
      exact active
    · rw [other, Nat.one_mul]
      exact spare
  · have second : slot.position ≠ 0 := fun first => by simp [first] at position
    obtain ⟨spare, active⟩ := split slot.spare slot.active (by simp [records, second])
    refine ⟨sound, ?_, ?_⟩
    · rw [position, Nat.one_mul]
      exact active
    · rw [other, Nat.zero_mul]
      exact spare

theorem StoredAt.congr (stored : slot.StoredAt left offset external internal)
    (agree : left.AgreeOn right start stop) (lower : start ≤ offset)
    (upper : offset + flogSlotBytes ≤ stop) :
    slot.StoredAt right offset external internal := by
  have positions := slot.position_cases
  have room : offset + 2 * FlogRecord.width ≤ stop :=
    Nat.le_trans (by simp [FlogRecord.width, flogSlotBytes]) upper
  refine ⟨stored.sound, ?_, ?_⟩
  · rw [← FlogRecord.storedAt_congr agree (by omega) (by simp only [FlogRecord.width] at *; omega)]
    exact stored.active_eq
  · rw [← FlogRecord.storedAt_congr agree (by omega) (by simp only [FlogRecord.width] at *; omega)]
    exact stored.spare_eq

/-- Staging stores the body over the spare record. -/
theorem StoredAt.store_body (stored : slot.StoredAt contents offset external internal)
    (inside : record.lba < external) :
    (slot.staged record).StoredAt
      (contents.store (offset + slot.sparePosition * FlogRecord.width) record.body)
      offset external internal := by
  have positions := slot.position_cases
  refine ⟨stored.sound.staged inside, ?_, ?_⟩
  · change FlogRecord.storedAt _ (offset + slot.position.val * FlogRecord.width) = slot.active
    rw [FlogRecord.storedAt_store_apart, stored.active_eq]
    simp only [FlogRecord.length_body, FlogRecord.bodyWidth, FlogRecord.width]
    omega
  · change FlogRecord.storedAt _ (offset + slot.sparePosition * FlogRecord.width) =
      { record with seq := slot.spare.seq }
    rw [FlogRecord.storedAt_store_body, stored.spare_eq]

/-- Storing the sequence number of a staged record commits it. -/
theorem StoredAt.store_tail
    (stored : (slot.staged record).StoredAt contents offset external internal)
    (oldBlock : record.oldMap.backingBlock record.lba < internal)
    (newBlock : record.newMap.backingBlock record.lba < internal)
    (next : record.seq = nextSeq slot.active.seq) :
    (slot.commit record).StoredAt
      (contents.store (offset + slot.sparePosition * FlogRecord.width + FlogRecord.bodyWidth)
        record.tail) offset external internal := by
  have positions := slot.position_cases
  have flipped : (slot.commit record).position.val = slot.sparePosition ∧
      (slot.commit record).sparePosition = slot.position.val := by
    rcases slot with ⟨active, spare, position⟩
    rcases positions with ⟨place, other⟩ | ⟨place, other⟩
    · have first : position = 0 := Fin.ext place
      simp [commit, sparePosition, first]
    · have second : position = 1 := Fin.ext place
      simp [commit, sparePosition, second]
  have spare := stored.spare_eq
  have active := stored.active_eq
  refine ⟨?_, ?_, ?_⟩
  · have inside : record.lba < external := stored.sound.spare_lba
    exact stored.sound.commit inside oldBlock newBlock next
  · rw [flipped.1, FlogRecord.storedAt_store_tail]
    change FlogRecord.storedAt contents (offset + slot.sparePosition * FlogRecord.width) =
      { record with seq := slot.spare.seq } at spare
    rw [spare]
    rfl
  · rw [flipped.2, FlogRecord.storedAt_store_apart]
    · exact active
    · have width : record.tail.length = 4 := by simp [FlogRecord.tail]
      simp only [width, FlogRecord.bodyWidth, FlogRecord.width]
      omega

def AllStoredAt (contents : Contents) (external internal : UInt32) :
    (offset : Nat) → List FlogSlot → Prop
  | _, [] => True
  | offset, slot :: rest =>
      slot.StoredAt contents offset external internal ∧
        AllStoredAt contents external internal (offset + flogSlotBytes) rest

variable {slots : List FlogSlot}

theorem AllStoredAt.congr (stored : AllStoredAt left external internal offset slots)
    (agree : left.AgreeOn right start stop) (lower : start ≤ offset)
    (upper : offset + slots.length * flogSlotBytes ≤ stop) :
    AllStoredAt right external internal offset slots := by
  induction slots generalizing offset with
  | nil => trivial
  | cons slot rest induction =>
      rw [List.length_cons, Nat.add_mul, Nat.one_mul] at upper
      constructor
      · exact stored.1.congr agree lower (by omega)
      · exact induction stored.2 (by omega) (by omega)

theorem AllStoredAt.decode_eq (stored : AllStoredAt contents external internal offset slots) :
    (Bytes.chunks flogSlotBytes slots.length
      (contents.load offset (slots.length * flogSlotBytes))).mapM
        (fun bytes => ofBytes bytes external internal) = .ok slots := by
  induction slots generalizing offset with
  | nil => rfl
  | cons slot rest induction =>
      have total : (slot :: rest).length * flogSlotBytes =
          flogSlotBytes + rest.length * flogSlotBytes := by
        rw [List.length_cons, Nat.add_mul, Nat.one_mul, Nat.add_comm]
      rw [total, List.length_cons, Bytes.chunks, Contents.take_load, Contents.drop_load,
        List.mapM_cons, stored.1.ofBytes_eq, induction stored.2]
      rfl

theorem AllStoredAt.get (stored : AllStoredAt contents external internal offset slots)
    {index : Nat} (found : slots[index]? = some slot) :
    slot.StoredAt contents (offset + index * flogSlotBytes) external internal := by
  induction slots generalizing offset index with
  | nil => simp at found
  | cons first rest induction =>
      cases index with
      | zero =>
          cases found
          rw [Nat.zero_mul]
          exact stored.1
      | succ index =>
          have place : offset + (index + 1) * flogSlotBytes =
              offset + flogSlotBytes + index * flogSlotBytes := by
            rw [Nat.add_mul, Nat.one_mul]
            omega
          rw [place]
          exact induction stored.2 found

theorem allStoredAt_of_load (sound : ∀ slot ∈ slots, slot.Sound external internal)
    (loaded : contents.load offset (slots.length * flogSlotBytes) = slots.flatMap toBytes) :
    AllStoredAt contents external internal offset slots := by
  induction slots generalizing offset with
  | nil => trivial
  | cons slot rest induction =>
      have total : (slot :: rest).length * flogSlotBytes =
          flogSlotBytes + rest.length * flogSlotBytes := by
        rw [List.length_cons, Nat.add_mul, Nat.one_mul, Nat.add_comm]
      rw [total, List.flatMap_cons] at loaded
      have width := slot.length_toBytes
      constructor
      · apply (sound slot List.mem_cons_self).storedAt
        have front : (contents.load offset (flogSlotBytes + rest.length * flogSlotBytes)).take
            flogSlotBytes = contents.load offset flogSlotBytes := Contents.take_load
        rw [← front, loaded, ← width, List.take_left]
      · apply induction fun other member => sound other (List.mem_cons_of_mem slot member)
        rw [← Contents.drop_load, loaded, ← width, List.drop_left]

end FlogSlot

end Remap.Block
