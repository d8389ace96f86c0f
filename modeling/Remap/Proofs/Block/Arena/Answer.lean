import Remap.Proofs.Block.Arena.Durable

/-!
# What the blocks of an arena read as

The contents of a media decide what a block reads as: its map entry, and the data block that
this names. A read fails otherwise only through a fault of the media.
-/

namespace Remap.Block

open Remap.Media

namespace Arena

def answer (arena : Arena) (contents : Contents) (lba : UInt32) : Except Error (List UInt8) :=
  match (arena.entryAt contents lba).mapping lba with
  | .bad => .error (.badBlock lba arena.span.base)
  | .zeros => .ok (List.replicate arena.info.externalSize.toNat 0)
  | .data block =>
      if arena.info.internal ≤ block then
        .error (.danglingEntry lba block arena.info.internal)
      else
        .ok (contents.load (arena.dataOffset block) arena.info.externalSize.toNat)

variable {arena later : Arena} {contents left right : Contents} {lba other block : UInt32}

theorem answer_of_mapping (mapped : (arena.entryAt contents lba).mapping lba = .data block)
    (inside : block < arena.info.internal) :
    arena.answer contents lba =
      .ok (contents.load (arena.dataOffset block) arena.info.externalSize.toNat) := by
  rw [answer, mapped]
  exact if_neg (UInt32.not_le.mpr inside)

theorem answer_transfer (span_eq : later.span = arena.span) (info_eq : later.info = arena.info) :
    later.answer contents lba = arena.answer contents lba := by
  rcases arena with ⟨span, info, flog, readOnly⟩
  rcases later with ⟨laterSpan, laterInfo, laterFlog, laterReadOnly⟩
  dsimp only at span_eq info_eq
  subst span_eq info_eq
  rfl

section Divided

variable (divided : arena.info.Divides arena.span)
include divided

/-- The regions before the map have no part in it. -/
theorem answer_congr (agree : left.AgreeOn right arena.mapStart arena.span.stop)
    (inside : lba < arena.info.external) : arena.answer left lba = arena.answer right lba := by
  have order := region_order divided
  have map : left.AgreeOn right arena.mapStart arena.dataStart :=
    agree.mono (Nat.le_refl _) order.2.2.2
  rw [answer, answer, entryAt_congr divided map inside]
  split
  next => rfl
  next => rfl
  next block _ =>
    by_cases dangling : arena.info.internal ≤ block
    · rw [if_pos dangling, if_pos dangling]
    · obtain ⟨lower, upper⟩ := data_range divided (UInt32.not_le.mp dangling)
      have smaller := divided.size_le
      rw [if_neg dangling, if_neg dangling, Contents.load_congr agree (by omega) (by omega)]

theorem answer_storeWord_other (inside : lba < arena.info.external) (different : other ≠ lba)
    (entry : MapEntry) :
    arena.answer (contents.storeWord (arena.entryOffset lba) entry.raw) other =
      arena.answer contents other := by
  obtain ⟨-, upper⟩ := entry_range divided inside
  rw [answer, answer, entryAt_storeWord_other different]
  split
  next => rfl
  next => rfl
  next block _ =>
    by_cases dangling : arena.info.internal ≤ block
    · rw [if_pos dangling, if_pos dangling]
    · obtain ⟨lower, -⟩ := data_range divided (UInt32.not_le.mp dangling)
      rw [if_neg dangling, if_neg dangling, Contents.storeWord, Contents.load_store_apart]
      rw [LittleEndian.length_encode]
      exact .inr (Nat.le_trans upper lower)

theorem answer_storeWord_same (inside : lba < arena.info.external)
    (small : arena.info.internal.toNat ≤ maxInternalBlocks) (held : block < arena.info.internal) :
    arena.answer (contents.storeWord (arena.entryOffset lba) (MapEntry.normal block).raw) lba =
      .ok (contents.load (arena.dataOffset block) arena.info.externalSize.toNat) := by
  obtain ⟨-, upper⟩ := entry_range divided inside
  obtain ⟨lower, -⟩ := data_range divided held
  have total := divided.internal_eq
  have lbaBelow := UInt32.lt_iff_toNat_lt.mp inside
  have blockBelow := UInt32.lt_iff_toNat_lt.mp held
  have mapped : (MapEntry.normal block).mapping lba = .data block :=
    MapEntry.mapping_eq (MapEntry.explicit_normal _ _) (by omega) (by omega)
  have stored : arena.entryAt (contents.storeWord (arena.entryOffset lba)
      (MapEntry.normal block).raw) lba = .normal block := entryAt_storeWord_same
  rw [← stored] at mapped
  rw [answer_of_mapping mapped held, Contents.storeWord, Contents.load_store_apart]
  rw [LittleEndian.length_encode]
  exact .inr (Nat.le_trans upper lower)

variable {μ : Type} [Media μ] [Atomic μ] {size : Nat} {sound : Prop} {before : Contents}

theorem meets_answer (room : arena.span.stop ≤ size) (inside : lba < arena.info.external) :
    (arena.read lba arena.info.externalSize.toNat : Step μ _).Meets size sound before
      (fun bytes after => after = before ∧ arena.answer before lba = .ok bytes)
      (fun cause after => after = before ∧ (sound → arena.answer before lba = .error cause)) := by
  have smaller := divided.size_le
  rw [read, answer]
  apply Step.meets_bind
  apply meets_readMapEntry divided room inside
  · cases (arena.entryAt before lba).mapping lba with
    | bad => exact Step.meets_throw ⟨rfl, fun _ => rfl⟩
    | zeros => exact Step.meets_pure ⟨rfl, rfl⟩
    | data block =>
        dsimp only
        by_cases dangling : arena.info.internal ≤ block
        · simp only [if_pos dangling]
          exact Step.meets_throw ⟨rfl, fun _ => rfl⟩
        · obtain ⟨lower, upper⟩ := data_range divided (UInt32.not_le.mp dangling)
          simp only [if_neg dangling]
          apply Step.meets_readAt (by omega)
          · exact ⟨rfl, rfl⟩
          · exact fun _ unsound => ⟨rfl, fun sound => absurd sound unsound⟩
  · exact fun _ unsound => ⟨rfl, fun sound => absurd sound unsound⟩

end Divided

theorem Durable.answer_eq {value : UInt32 → List UInt8} {target : UInt32 → UInt32}
    {head : FlogSlot} {others : List FlogSlot}
    (durable : arena.Durable value target head others contents)
    (settled : arena.Settled contents target lba) (inside : lba < arena.info.external) :
    arena.answer contents lba = .ok (value lba) := by
  have targetInside := durable.target_lt inside
  have mapped := MapEntry.mapping_eq settled (durable.lba_small inside)
    (durable.small_of_lt targetInside)
  rw [answer_of_mapping mapped targetInside, durable.value_eq lba inside]

end Arena

end Remap.Block
