import Remap.Proofs.Block.Arena.Confined

/-!
# The map as an array of entries

An entry is read and stored through its cache line, which it shares with others. Still the map
behaves as an array: what is stored is read back, and neither another entry nor any byte
elsewhere changes. Nothing but whole cache lines of the map is accessed for it, and an access
that fails leaves everything as it was.
-/

namespace Remap.Block

open Remap.Media

def Arena.OwnsLine (arena : Arena) (event : Event) : Prop :=
  ∃ line, line % cacheLine = 0 ∧ arena.mapStart ≤ line ∧ line + cacheLine ≤ arena.dataStart ∧
    (event = .read line cacheLine ∨ event = .write line cacheLine)

namespace Arena

variable {μ : Type} [Media μ] [Atomic μ] {arena : Arena} {lba other : UInt32} {entry : MapEntry}

theorem lineOffset_aligned (arena : Arena) (lba : UInt32) :
    arena.lineOffset lba % cacheLine = 0 := by
  have line_eq : arena.lineOffset lba = arena.entryOffset lba / 1 <<< 6 * 1 <<< 6 :=
    alignDown_shift _ 6
  simp only [cacheLine, Nat.reduceShiftLeft] at line_eq ⊢
  omega

section Lines

variable (lined : arena.info.Lined arena.span)
include lined

theorem ownsLine_read (inside : lba < arena.info.external) :
    arena.OwnsLine (.read (arena.lineOffset lba) cacheLine) := by
  obtain ⟨lower, -, -, upper⟩ := line_inMap lined inside
  exact ⟨_, arena.lineOffset_aligned lba, lower, upper, .inl rfl⟩

theorem ownsLine_write (inside : lba < arena.info.external) :
    arena.OwnsLine (.write (arena.lineOffset lba) cacheLine) := by
  obtain ⟨lower, -, -, upper⟩ := line_inMap lined inside
  exact ⟨_, arena.lineOffset_aligned lba, lower, upper, .inr rfl⟩

theorem readMapEntry_on (inside : lba < arena.info.external) {media after : μ}
    {outcome : Except Error MapEntry}
    (ran : (arena.readMapEntry lba : Step μ _).on media = (outcome, after)) :
    Media.size after = Media.size media ∧
      (∀ found, outcome = .ok found → found = arena.entryAt (Atomic.contents media) lba) ∧
      Atomic.contents after = Atomic.contents media ∧
      (Atomic.Faultless media → arena.dataStart ≤ Media.size media →
        Atomic.Faultless after ∧ ∃ found, outcome = .ok found) := by
  have read : (arena.readMapEntry lba : Step μ _).Delivers media
      (arena.dataStart ≤ Media.size media) fun found contents =>
        found = arena.entryAt (Atomic.contents media) lba ∧ contents = Atomic.contents media :=
    meets_readEntry lined And.right inside ⟨rfl, rfl⟩ fun _ unsound => ⟨unsound, rfl⟩
  obtain ⟨size_eq, found, failed, succeeds⟩ := read.ran ran
  refine ⟨size_eq, fun value ok => (found value ok).1, ?_, succeeds⟩
  cases outcome with
  | ok value => exact (found value rfl).2
  | error cause => exact failed cause rfl

theorem writeMapEntry_on (inside : lba < arena.info.external) {media after : μ}
    {outcome : Except Error Unit}
    (ran : (arena.writeMapEntry lba entry : Step μ _).on media = (outcome, after)) :
    Media.size after = Media.size media ∧
      (∀ value, outcome = .ok value → Atomic.contents after =
        (Atomic.contents media).storeWord (arena.entryOffset lba) entry.raw) ∧
      (∀ cause, outcome = .error cause → Atomic.contents after = Atomic.contents media) ∧
      (Atomic.Faultless media → arena.dataStart ≤ Media.size media →
        Atomic.Faultless after ∧ ∃ value, outcome = .ok value) := by
  have write : (arena.writeMapEntry lba entry : Step μ _).Delivers media
      (arena.dataStart ≤ Media.size media) fun _ contents =>
        contents = (Atomic.contents media).storeWord (arena.entryOffset lba) entry.raw :=
    meets_writeEntry lined And.right inside rfl fun _ unsound => ⟨unsound, rfl⟩
  exact write.ran ran

end Lines

/-- **The map acts as an array.** An entry that was stored is read back, every other entry is
read as before, and no byte but those of the entry has changed. A store that fails changes
nothing, and on a media that is large enough and without faults nothing fails. Every access is
one of a whole cache line of the map. -/
theorem map_array {expected : Expectation} (validated : arena.info.validate expected = .ok ())
    (aligned : arena.span.base % cacheLine = 0) (inside : lba < arena.info.external)
    (also : other < arena.info.external) (entry : MapEntry) :
    (∀ (media early wrote late : μ) (previous later : Except Error MapEntry)
        (outcome : Except Error Unit),
      (arena.readMapEntry other : Step μ _).on media = (previous, early) →
      (arena.writeMapEntry lba entry : Step μ _).on early = (outcome, wrote) →
      (arena.readMapEntry other : Step μ _).on wrote = (later, late) →
      (∀ found, previous = .ok found → found = arena.entryAt (Atomic.contents media) other) ∧
        Atomic.contents early = Atomic.contents media ∧
        (∀ cause, outcome = .error cause → Atomic.contents wrote = Atomic.contents early) ∧
        (outcome = .ok () →
          (∀ found, later = .ok found →
            found = if other = lba then entry else arena.entryAt (Atomic.contents media) other) ∧
          (Atomic.contents wrote).AgreeOutside (Atomic.contents early) (arena.entryOffset lba)
            (arena.entryOffset lba + mapEntryBytes)) ∧
        Atomic.contents late = Atomic.contents wrote ∧
        (Atomic.Faultless media → arena.dataStart ≤ Media.size media →
          outcome = .ok () ∧ (∃ found, previous = .ok found) ∧ ∃ found, later = .ok found)) ∧
    ∀ probe : Probe μ, probe.recording = true →
      probe.Continues arena.OwnsLine ((arena.readMapEntry lba : Step (Probe μ) _).on probe).2 ∧
      probe.Continues arena.OwnsLine
        ((arena.writeMapEntry lba entry : Step (Probe μ) _).on probe).2 := by
  have lined := InfoBlock.lined_of_accepted (InfoBlock.accepted_of_validated validated) aligned
  constructor
  · intro media early wrote late previous later outcome readEarly write readLate
    obtain ⟨earlySize, earlyFound, earlySame, earlyOk⟩ := readMapEntry_on lined also readEarly
    obtain ⟨wroteSize, stored, kept, wroteOk⟩ := writeMapEntry_on lined inside write
    obtain ⟨-, lateFound, lateSame, lateOk⟩ := readMapEntry_on lined also readLate
    refine ⟨earlyFound, earlySame, kept, ?_, lateSame, ?_⟩
    · intro succeeded
      constructor
      · intro found read
        rw [lateFound found read, stored () succeeded, earlySame]
        split
        next same =>
          subst same
          exact entryAt_storeWord_same
        next different => exact entryAt_storeWord_other different
      · rw [stored () succeeded]
        exact Contents.store_agreeOutside (Nat.le_refl _) (by simp [mapEntryBytes])
    · intro faultless room
      obtain ⟨earlyFaultless, earlyRead⟩ := earlyOk faultless room
      rw [← earlySize] at room
      obtain ⟨wroteFaultless, ⟨⟩, succeeded⟩ := wroteOk earlyFaultless room
      rw [← wroteSize] at room
      exact ⟨succeeded, earlyRead, (lateOk wroteFaultless room).2⟩
  · intro probe recording
    have read : (arena.readMapEntry lba : Step (Probe μ) _).Confined (Atomic.contents probe)
        arena.OwnsLine fun _ _ => True :=
      confined_readMapEntry lined inside (ownsLine_read lined inside) trivial
    have write : (arena.writeMapEntry lba entry : Step (Probe μ) _).Confined
        (Atomic.contents probe) arena.OwnsLine fun _ _ => True :=
      confined_writeMapEntry lined inside (ownsLine_read lined inside)
        (ownsLine_write lined inside)
    exact ⟨(read probe recording rfl).1, (write probe recording rfl).1⟩

def lineArena : Arena where
  span := ⟨64, 28672⟩
  info := .ofGeometry .nil .nil 512 512 ⟨17, 18, 1, 4096, 8192, 12288, 24576⟩ 0
  flog := []
  readOnly := false

theorem lineArena_validated : lineArena.info.validate ⟨.nil, 512, 512, 28672, false⟩ = .ok () := by
  decide +kernel

/-- The last entry of a line is stored, and the one before it reads as it did. -/
theorem map_array_neighbours : ∃ early wrote late : Simulated,
    (lineArena.readMapEntry 14).on (Simulated.blank 12352) = (.ok .zero, early) ∧
      (lineArena.writeMapEntry 15 (.normal 3)).on early = (.ok (), wrote) ∧
      (lineArena.readMapEntry 14).on wrote = (.ok .zero, late) := by
  rcases readEarly : (lineArena.readMapEntry 14).on (Simulated.blank 12352) with ⟨previous, early⟩
  rcases write : (lineArena.writeMapEntry 15 (.normal 3)).on early with ⟨outcome, wrote⟩
  rcases readLate : (lineArena.readMapEntry 14).on wrote with ⟨later, late⟩
  have inside : (15 : UInt32) < lineArena.info.external := by decide
  have also : (14 : UInt32) < lineArena.info.external := by decide
  obtain ⟨before, -, -, after, -, succeeds⟩ :=
    (map_array lineArena_validated (by decide) inside also (.normal 3)).1 (Simulated.blank 12352)
      early wrote late previous later outcome readEarly write readLate
  obtain ⟨rfl, ⟨first, rfl⟩, second, rfl⟩ := succeeds ⟨rfl, rfl⟩ (by decide)
  have zero : lineArena.entryAt (Atomic.contents (Simulated.blank 12352)) 14 = .zero :=
    congrArg MapEntry.mk (Contents.word_eq_zero fun position _ _ => Image.byteAt_blank _ position)
  have unchanged := (after rfl).1 second rfl
  rw [if_neg (by decide)] at unchanged
  refine ⟨early, wrote, late, ?_, write, ?_⟩
  · rw [before first rfl, zero]
  · rw [readLate, unchanged, zero]

end Arena

end Remap.Block
