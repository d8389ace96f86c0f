import Remap.Proofs.Block.Flog

/-!
# Slots through any number of commits

A slot that starts out as one of a fresh arena and commits one record after the other is read
back from its bytes at every point, with the record committed last as the active one. The body
of the next record is three words. Whichever of them are stored over the spare record, the slot
still has the same active record; the sequence number makes the next record the active one once
all three are stored.
-/

namespace Remap.Block

open Remap.Media

/-! A commit describes a change of the map. The record that it stages is stored word by word, and
when that is cut short the words not yet stored are those of the record below. -/

structure MapChange where
  lba : UInt32
  oldMap : MapEntry
  newMap : MapEntry
deriving DecidableEq, Repr

structure MapChange.Inside (change : MapChange) (external internal : UInt32) : Prop where
  lba_lt : change.lba < external
  old_lt : change.oldMap.backingBlock change.lba < internal
  new_lt : change.newMap.backingBlock change.lba < internal

def turn (commits : Nat) : UInt32 :=
  .ofNat (commits % 3 + 1)

theorem nextSeq_turn (commits : Nat) : nextSeq (turn commits) = turn (commits + 1) := by
  have phase : commits % 3 = 0 ∨ commits % 3 = 1 ∨ commits % 3 = 2 := by omega
  have next : (commits + 1) % 3 = (commits % 3 + 1) % 3 := Nat.add_mod commits 1 3
  rw [turn, turn, next]
  rcases phase with first | second | third
  · rw [first]
    rfl
  · rw [second]
    rfl
  · rw [third]
    rfl

namespace FlogRecord

def bodyWord (record : FlogRecord) : Fin 3 → UInt32
  | 0 => record.lba
  | 1 => record.oldMap.raw
  | 2 => record.newMap.raw

def storeWords (record : FlogRecord) (words : List (Fin 3)) (offset : Nat)
    (contents : Contents) : Contents :=
  words.foldl (fun contents word =>
    contents.storeWord (offset + 4 * word.val) (record.bodyWord word)) contents

def overlaid (record : FlogRecord) (words : List (Fin 3)) (old : FlogRecord) : FlogRecord where
  lba := if 0 ∈ words then record.lba else old.lba
  oldMap := if 1 ∈ words then record.oldMap else old.oldMap
  newMap := if 2 ∈ words then record.newMap else old.newMap
  seq := old.seq

variable {record old : FlogRecord} {words : List (Fin 3)} {contents : Contents} {offset : Nat}

theorem overlaid_cons (word : Fin 3) :
    record.overlaid (word :: words) old = record.overlaid words (record.overlaid [word] old) := by
  match word with
  | 0 => by_cases again : 0 ∈ words <;> simp [overlaid, again]
  | 1 => by_cases again : 1 ∈ words <;> simp [overlaid, again]
  | 2 => by_cases again : 2 ∈ words <;> simp [overlaid, again]

theorem overlaid_lba_lt {external : UInt32} (inside : record.lba < external)
    (oldInside : old.lba < external) : (record.overlaid words old).lba < external := by
  rw [overlaid]
  dsimp only
  split
  next => exact inside
  next => exact oldInside

theorem overlaid_whole (whole : ∀ word, word ∈ words) :
    record.overlaid words old = { record with seq := old.seq } := by
  simp [overlaid, whole]

theorem storedAt_storeWord (word : Fin 3) :
    storedAt (contents.storeWord (offset + 4 * word.val) (record.bodyWord word)) offset =
      record.overlaid [word] (storedAt contents offset) := by
  match word with
  | 0 =>
      change storedAt (contents.storeWord offset record.lba) offset = _
      rw [storedAt, Contents.word_storeWord_same, Contents.word_storeWord_apart (by omega),
        Contents.word_storeWord_apart (by omega), Contents.word_storeWord_apart (by omega)]
      rfl
  | 1 =>
      change storedAt (contents.storeWord (offset + 4) record.oldMap.raw) offset = _
      rw [storedAt, Contents.word_storeWord_same, Contents.word_storeWord_apart (by omega),
        Contents.word_storeWord_apart (by omega), Contents.word_storeWord_apart (by omega)]
      rfl
  | 2 =>
      change storedAt (contents.storeWord (offset + 8) record.newMap.raw) offset = _
      rw [storedAt, Contents.word_storeWord_same, Contents.word_storeWord_apart (by omega),
        Contents.word_storeWord_apart (by omega), Contents.word_storeWord_apart (by omega)]
      rfl

theorem storedAt_storeWords :
    storedAt (record.storeWords words offset contents) offset =
      record.overlaid words (storedAt contents offset) := by
  induction words generalizing contents with
  | nil => rfl
  | cons word rest induction =>
      have later : storedAt (record.storeWords (word :: rest) offset contents) offset =
          record.overlaid rest (storedAt
            (contents.storeWord (offset + 4 * word.val) (record.bodyWord word)) offset) := induction
      rw [later, storedAt_storeWord, ← overlaid_cons]

theorem storeWords_outside :
    (record.storeWords words offset contents).AgreeOutside contents offset
      (offset + bodyWidth) := by
  induction words generalizing contents with
  | nil => exact .refl contents _ _
  | cons word rest induction =>
      have here : (contents.storeWord (offset + 4 * word.val) (record.bodyWord word)).AgreeOutside
          contents offset (offset + bodyWidth) := by
        apply Contents.store_agreeOutside (by omega)
        rw [LittleEndian.length_encode, bodyWidth]
        omega
      exact induction.trans here

end FlogRecord

namespace FlogSlot

def next (slot : FlogSlot) (change : MapChange) : FlogRecord :=
  slot.nextRecord change.lba change.oldMap change.newMap

/-- The slot after the changes, each staged and committed before the next one. -/
def commitAll (slot : FlogSlot) (changes : List MapChange) : FlogSlot :=
  changes.foldl (fun slot change => slot.commit (slot.next change)) slot

variable {slot : FlogSlot} {record : FlogRecord} {number external internal : UInt32}
  {changes : List MapChange} {change : MapChange} {words : List (Fin 3)} {contents : Contents}
  {offset commits : Nat}

theorem commitAll_append (first second : List MapChange) :
    slot.commitAll (first ++ second) = (slot.commitAll first).commitAll second := by
  rw [commitAll, commitAll, commitAll, List.foldl_append]

theorem Sound.commit_next (sound : slot.Sound external internal)
    (inside : change.Inside external internal) :
    (slot.commit (slot.next change)).Sound external internal :=
  sound.commit inside.lba_lt inside.old_lt inside.new_lt rfl

theorem Sound.commitAll (sound : slot.Sound external internal)
    (inside : ∀ change ∈ changes, change.Inside external internal) :
    (slot.commitAll changes).Sound external internal := by
  induction changes generalizing slot with
  | nil => exact sound
  | cons change rest induction =>
      apply induction (sound.commit_next (inside change List.mem_cons_self))
      exact fun later member => inside later (List.mem_cons_of_mem change member)

theorem commitAll_seq (started : slot.active.seq = turn commits) :
    (slot.commitAll changes).active.seq = turn (commits + changes.length) := by
  induction changes generalizing slot commits with
  | nil => exact started
  | cons change rest induction =>
      have stepped : (slot.commit (slot.next change)).active.seq = turn (commits + 1) := by
        rw [← nextSeq_turn, ← started]
        rfl
      have total : commits + (change :: rest).length = commits + 1 + rest.length := by
        rw [List.length_cons]
        omega
      rw [total]
      exact induction stepped

theorem commitAll_active (started : slot.active.seq = turn 0) :
    (slot.commitAll changes).active =
      match changes.getLast? with
      | none => slot.active
      | some last => ⟨last.lba, last.oldMap, last.newMap, turn changes.length⟩ := by
  rcases changes.eq_nil_or_concat with rfl | ⟨early, last, rfl⟩
  · rfl
  · rw [List.concat_eq_append]
    have seq : (slot.commitAll (early ++ [last])).active.seq =
        turn (0 + (early ++ [last]).length) := commitAll_seq started
    rw [Nat.zero_add, commitAll_append] at seq
    rw [List.getLast?_append, commitAll_append]
    dsimp only [List.getLast?_singleton, Option.or]
    rw [← seq]
    rfl

theorem Sound.ofBytes_toBytes (sound : slot.Sound external internal) :
    ofBytes slot.toBytes external internal = .ok slot := by
  have loaded : (Contents.store (fun _ => 0) 0 slot.toBytes).load 0 flogSlotBytes =
      slot.toBytes := by
    rw [← slot.length_toBytes]
    exact Contents.load_store_same
  rw [← loaded]
  exact (sound.storedAt loaded).ofBytes_eq

def torn (slot : FlogSlot) (record : FlogRecord) (words : List (Fin 3)) : FlogSlot :=
  { slot with spare := record.overlaid words slot.spare }

theorem torn_whole (whole : ∀ word, word ∈ words) :
    slot.torn record words = slot.staged record := by
  rw [torn, staged, FlogRecord.overlaid_whole whole]

theorem StoredAt.storeWords (stored : slot.StoredAt contents offset external internal)
    (inside : record.lba < external) :
    (slot.torn record words).StoredAt
      (record.storeWords words (offset + slot.sparePosition * FlogRecord.width) contents)
      offset external internal := by
  have positions := slot.position_cases
  refine ⟨{ stored.sound with
    spare_lba := FlogRecord.overlaid_lba_lt inside stored.sound.spare_lba }, ?_, ?_⟩
  · change FlogRecord.storedAt _ (offset + slot.position.val * FlogRecord.width) = slot.active
    have outside : (record.storeWords words (offset + slot.sparePosition * FlogRecord.width)
        contents).AgreeOutside contents _ _ := FlogRecord.storeWords_outside
    have active : (record.storeWords words (offset + slot.sparePosition * FlogRecord.width)
        contents).AgreeOn contents (offset + slot.position.val * FlogRecord.width)
        (offset + slot.position.val * FlogRecord.width + FlogRecord.width) := by
      apply outside.agreeOn
      simp only [FlogRecord.bodyWidth, FlogRecord.width]
      omega
    rw [FlogRecord.storedAt_congr active (Nat.le_refl _) (Nat.le_refl _)]
    exact stored.active_eq
  · change FlogRecord.storedAt _ (offset + slot.sparePosition * FlogRecord.width) =
      record.overlaid words slot.spare
    rw [FlogRecord.storedAt_storeWords, stored.spare_eq]

/-- **A slot through any number of commits.** From a fresh slot on, whatever changes of external
blocks are committed one after the other, the slot is read back from its bytes, and the record
of the last change is active. Wherever these bytes are stored, some words of the body of the
next record, in any order, leave the active record as it is; all three of them and then the
sequence number yield the slot that has committed the next record. -/
theorem commits_survive (own : number < external)
    (room : external.toNat + number.toNat < internal.toNat)
    (few : internal.toNat ≤ maxInternalBlocks)
    (inside : ∀ change ∈ changes, change.Inside external internal) :
    let slot := (initial number external).commitAll changes
    ofBytes slot.toBytes external internal = .ok slot ∧
      (slot.active = match changes.getLast? with
        | none => (initial number external).active
        | some last => ⟨last.lba, last.oldMap, last.newMap, turn changes.length⟩) ∧
      ∀ (contents : Contents) (offset : Nat) (change : MapChange) (words : List (Fin 3)),
        contents.load offset flogSlotBytes = slot.toBytes → change.Inside external internal →
        let record := slot.next change
        let place := offset + slot.sparePosition * FlogRecord.width
        let staged := record.storeWords words place contents
        (∃ torn, ofBytes (staged.load offset flogSlotBytes) external internal = .ok torn ∧
          torn.active = slot.active) ∧
        ((∀ word, word ∈ words) →
          ofBytes ((staged.store (place + FlogRecord.bodyWidth) record.tail).load offset
            flogSlotBytes) external internal = .ok (slot.commit record)) := by
  intro slot
  have sound : slot.Sound external internal := (initial_sound own room few).commitAll inside
  refine ⟨sound.ofBytes_toBytes, commitAll_active rfl, ?_⟩
  intro contents offset change words loaded named record place staged
  have stored : (slot.torn record words).StoredAt staged offset external internal :=
    (sound.storedAt loaded).storeWords named.lba_lt
  refine ⟨⟨slot.torn record words, stored.ofBytes_eq, rfl⟩, fun whole => ?_⟩
  rw [torn_whole whole] at stored
  exact (stored.store_tail named.old_lt named.new_lt rfl).ofBytes_eq

/-- Two changes, the first of a block that was marked bad, and the third one cut short. -/
theorem commits_survive_small :
    let changes : List MapChange :=
      [⟨3, ⟨MapEntry.errorFlag ||| 3⟩, .normal 5⟩, ⟨0, .zero, .normal 3⟩]
    let slot := (initial 1 4).commitAll changes
    let contents : Contents := .store (fun _ => 0) 100 slot.toBytes
    let record := slot.next ⟨2, .normal 2, .normal 0⟩
    let torn := record.storeWords [2, 0] 116 contents
    let whole := record.storeWords [2, 0, 1] 116 contents
    slot.active = ⟨0, .zero, .normal 3, 3⟩ ∧
      ofBytes slot.toBytes 4 6 = .ok slot ∧
      (∃ found, ofBytes (torn.load 100 flogSlotBytes) 4 6 = .ok found ∧
        found.active = slot.active) ∧
      ofBytes ((whole.store 128 record.tail).load 100 flogSlotBytes) 4 6 =
        .ok (slot.commit record) := by
  intro changes slot contents record torn whole
  have inside : ∀ change ∈ changes, change.Inside 4 6 := by
    simp only [changes, List.forall_mem_cons]
    exact ⟨⟨by decide, by decide, by decide⟩, ⟨by decide, by decide, by decide⟩, by simp⟩
  obtain ⟨decoded, active, later⟩ := @commits_survive 1 4 6 changes (by decide) (by decide)
    (by decide) inside
  have loaded : contents.load 100 flogSlotBytes = slot.toBytes := by
    rw [← slot.length_toBytes]
    exact Contents.load_store_same
  have named : MapChange.Inside ⟨2, .normal 2, .normal 0⟩ 4 6 :=
    ⟨by decide, by decide, by decide⟩
  refine ⟨active, decoded, (later contents 100 _ [2, 0] loaded named).1, ?_⟩
  exact (later contents 100 _ [2, 0, 1] loaded named).2 (by decide)

end FlogSlot

end Remap.Block
