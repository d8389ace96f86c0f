import Remap.Proofs.Block.Arena.Degraded
import Remap.Proofs.Block.Device.Powered
import Remap.Proofs.Block.Device.ReadsAs

/-!
# Writes that fail

A write that fails before its sequence number is stored leaves nothing behind that any block, a
later mount or the next write could see. One that fails from there on makes its arena read-only:
its block has its old or its new bytes, every other block has kept its own, and the arena
refuses writes up to the next mount.
-/

namespace Remap.Block

open Remap.Media

namespace Device

structure Serves {μ : Type} [Media μ] [Atomic μ] (device : Device) (layout : Layout)
    (homes : List Arena) (value : Nat → List UInt8) (media : μ) : Prop where
  founded : Founded layout (Media.size media) homes
  mounted : Mounted homes device.arenas value (Atomic.contents media)
  fits : device.Fits layout (Media.size media)

namespace Serves

variable {μ : Type} [Media μ] [Atomic μ] {device : Device} {layout : Layout} {homes : List Arena}
  {value : Nat → List UInt8} {media : μ} {lba index : Nat} {block : UInt32} {arena : Arena}
  {bytes : List UInt8}

theorem of_reached {entropy : Entropy} {start created : μ} {fresh : Device}
    (laidOut : (create layout entropy).on start = (.ok fresh, created)) {calls : List Call}
    (reached : (Session.run layout ⟨created, some fresh⟩ calls).2 = ⟨media, some device⟩) :
    ∃ value, device.Serves layout fresh.arenas value media := by
  obtain ⟨founded, holds⟩ := Session.holds_created laidOut
  obtain ⟨contents, shown, held⟩ := Session.run_holds founded holds calls
  have freshParted : Session.Partitioned layout (⟨created, some fresh⟩ : Session μ) := by
    rintro _ ⟨⟩
    exact returns_create layout entropy start fresh created laidOut
  have parted := Session.run_partitioned freshParted calls
  rw [reached] at shown held parted
  obtain ⟨size_eq, mounted, -⟩ := held
  rw [← shown.contents_eq] at mounted
  rw [← shown.size_eq] at founded
  obtain ⟨surveyed, found, -⟩ := founded.surveyed
  obtain ⟨internalSize, spans, -, checked, -, -⟩ := survey_parts found
  exact ⟨_, founded, mounted, parted device rfl, checked, size_eq⟩

variable (serves : device.Serves layout homes value media)

include serves

theorem readsAs_value (placed : place? device.arenas lba = some (index, block))
    (found : device.arenas[index]? = some arena) (writable : arena.readOnly = false) :
    device.readsAs media lba = .ok (value lba) := by
  have reading : (arena.read block layout.blockSize.toNat : Step Replica _).Meets
      (Media.size media) True (Atomic.contents media) _ _ :=
    serves.mounted.read serves.founded.room serves.founded.sizes placed found
  rw [← serves.fits.size_eq] at reading
  rcases readsAs_cases placed found reading with
    ⟨bytes, after, read, -, same⟩ | ⟨cause, after, -, -, unsound⟩
  · exact read.trans (congrArg Except.ok (same writable))
  · exact absurd trivial (unsound writable)

theorem room (found : device.arenas[index]? = some arena) :
    arena.span.stop ≤ Media.size media :=
  Nat.le_trans (serves.fits.parted.stop_le (List.mem_of_getElem? found)) serves.fits.room

theorem size_eq (found : device.arenas[index]? = some arena) :
    arena.info.externalSize = device.externalSize := by
  rw [serves.fits.parted.size_eq arena (List.mem_of_getElem? found), serves.fits.size_eq]

theorem live (found : device.arenas[index]? = some arena) (writable : arena.readOnly = false) :
    ∃ (value : UInt32 → List UInt8) (target : UInt32 → UInt32) (head : FlogSlot)
      (others : List FlogSlot) (spare : FlogRecord),
      arena.Durable value target head others (Atomic.contents media) ∧
      arena.AllSettled (Atomic.contents media) target ∧
      arena.flog = { head with spare } :: others := by
  obtain ⟨home, value, holds⟩ := serves.mounted.holds_of_mem arena (List.mem_of_getElem? found)
  exact ⟨value, holds.live writable⟩

theorem reloads : ∃ reloaded last,
    (load layout.parent layout.totalSize layout.blockSize).on (Replica.of media) =
      (.ok reloaded, last) ∧
    ∀ lba, lba < device.blockCount → reloaded.readsAs last lba = .ok (value lba) := by
  obtain ⟨reloaded, last, loaded, -, count, reads⟩ :=
    @load_faultless Replica _ _ layout homes value (Replica.of media) serves.founded
      serves.mounted.allKept trivial
  obtain ⟨-, -, -, -, reloaded_eq, -⟩ := load_mounted trivial loaded
  refine ⟨reloaded, last, loaded, fun lba inside => ?_⟩
  rw [blockCount_eq serves.mounted, ← count] at inside
  rw [readsAs, show reloaded.externalSize = layout.blockSize by rw [reloaded_eq]]
  exact reads lba inside

theorem writes (placed : place? device.arenas lba = some (index, block))
    (found : device.arenas[index]? = some arena) (writable : arena.readOnly = false)
    (width : bytes.length = device.externalSize.toNat) :
    (device.write lba bytes (Replica.of media)).1.1 = .ok () := by
  obtain ⟨-, -, -, -, fine⟩ := serves.mounted.write serves.founded.ordered serves.founded.room
    serves.founded.sizes placed found (serves.fits.size_eq ▸ width)
    (Replica.of_shows (Shows.self media))
  rw [write_of_locate (locate_of_place placed width) found]
  exact (fine trivial writable).1

end Serves

/-- What a failed write of the block at `block` of the arena at `index` leaves if the arena still
takes writes: the device in memory is the one from before, and what was staged is not seen. -/
structure Undone {μ : Type} [Media μ] [Atomic μ] (layout : Layout) (index : Nat) (arena : Arena)
    (block : UInt32) (current later : Device) (before after : Journal μ) : Prop where
  device_eq : later = current
  staging : ∃ slot others made, arena.flog = slot :: others ∧
    after.attempts = before.attempts ++ made ∧
    Attempt.Follows made (arena.stagePlan slot block)
  reads : ∀ lba, later.readsAs after lba = current.readsAs before lba
  reloads : ∃ reloaded last,
    (load layout.parent layout.totalSize layout.blockSize).on (Replica.of after) =
      (.ok reloaded, last) ∧
    ∀ lba block, place? current.arenas lba = some (index, block) →
      reloaded.readsAs last lba = current.readsAs before lba
  writes : ∀ lba block bytes, place? later.arenas lba = some (index, block) →
    bytes.length = later.externalSize.toNat →
    (later.write lba bytes (Replica.of after)).1.1 = .ok ()

/-- What a failed write of block `lba`, the one at `block` of the arena at `index`, leaves if it
made the arena read-only. -/
structure Frozen {μ : Type} [Media μ] [Atomic μ] (layout : Layout) (index : Nat) (arena : Arena)
    (block : UInt32) (lba : Nat) (bytes : List UInt8) (current later : Device)
    (before after : Journal μ) : Prop where
  committing : ∃ slot others late, arena.flog = slot :: others ∧
    after.attempts = before.attempts ++
      ((arena.stagePlan slot block).map Attempt.success ++ late) ∧
    Attempt.Course (arena.commitPlan slot block) false late
  others : ∀ other, other ≠ lba → later.readsAs after other = current.readsAs before other
  own : later.readsAs after lba = current.readsAs before lba ∨ later.readsAs after lba = .ok bytes
  refused : ∀ calls, Call.load ∉ calls → ∀ media final,
    (Session.run layout ⟨after, some later⟩ calls).2 = ⟨media, some final⟩ →
    ∀ lba block bytes, final.locate lba bytes.length = .ok (index, block) →
      ∃ cause, cause.kind = .aborted ∧
        final.write lba bytes media = ((.error cause, final), media)

section Outcomes

variable {μ : Type} [Media μ] [Atomic μ] {current : Device} {layout : Layout} {homes : List Arena}
  {value : Nat → List UInt8} {before after : Journal μ} {lba index : Nat} {block : UInt32}
  {arena : Arena} {bytes : List UInt8} {cause : Error}

/-- While the media holds a device as before, with the same bytes, nothing of a write is seen. -/
theorem Serves.undone (serves : current.Serves layout homes value before)
    (still : current.Serves layout homes value after)
    (found : current.arenas[index]? = some arena) (writable : arena.readOnly = false)
    (size_eq : Media.size after = Media.size before)
    (outside : (Atomic.contents after).AgreeOutside (Atomic.contents before) arena.span.base
      arena.span.stop)
    (staging : ∃ slot others made, arena.flog = slot :: others ∧
      after.attempts = before.attempts ++ made ∧
      Attempt.Follows made (arena.stagePlan slot block)) :
    Undone layout index arena block current current before after := by
  have same : { current with arenas := current.arenas.set index arena } = current := by
    rw [set_of_found found]
  have own (other : Nat) (block : UInt32)
      (placed : place? current.arenas other = some (index, block)) :
      arena.answer (Atomic.contents after) block = arena.answer (Atomic.contents before) block := by
    rw [← still.fits.readsAs_eq placed found, ← serves.fits.readsAs_eq placed found,
      still.readsAs_value placed found writable, serves.readsAs_value placed found writable]
  obtain ⟨reloaded, last, loaded, reads⟩ := still.reloads
  constructor
  case device_eq => rfl
  case staging => exact staging
  case reads =>
    intro other
    have kept := serves.fits.readsAs_set size_eq found rfl rfl outside (own other)
    rwa [same] at kept
  case reloads =>
    refine ⟨reloaded, last, loaded, fun other block placed => ?_⟩
    rw [serves.readsAs_value placed found writable]
    exact reads other (place_lt placed).1
  case writes => exact fun _ _ _ placed width => still.writes placed found writable width

theorem Serves.write_outside (serves : current.Serves layout homes value before)
    (placed : place? current.arenas lba = some (index, block))
    (found : current.arenas[index]? = some arena) (writable : arena.readOnly = false)
    (width : bytes.length = current.externalSize.toNat) :
    Media.size (arena.write block bytes before).2 = Media.size before ∧
      (Atomic.contents (arena.write block bytes before).2).AgreeOutside (Atomic.contents before)
        arena.span.base arena.span.stop := by
  obtain ⟨_, target, head, others, spare, durable, settled, flog_eq⟩ := serves.live found writable
  rw [← serves.size_eq found] at width
  obtain ⟨contents, shown, outside, -⟩ := Arena.write_live durable settled writable
    ⟨spare, flog_eq⟩ (Shows.self before) (serves.room found) (block_lt_external placed found) width
  exact ⟨shown.size_eq, shown.contents_eq ▸ outside⟩

theorem Serves.kept (serves : current.Serves layout homes value before)
    (placed : place? current.arenas lba = some (index, block))
    (found : current.arenas[index]? = some arena)
    (width : bytes.length = current.externalSize.toNat)
    (same : (arena.write block bytes before).1.2 = arena)
    (lost : arena.lands block bytes before = false) :
    current.Serves layout homes value (arena.write block bytes before).2 := by
  obtain ⟨contents, shown, -, held, -⟩ := serves.mounted.write serves.founded.ordered
    serves.founded.room serves.founded.sizes placed found (serves.fits.size_eq ▸ width)
    (Shows.self before)
  have value_eq : Function.update value lba (value lba) = value := Function.update_eq_self lba value
  rw [same, set_of_found found, lost, if_neg Bool.false_ne_true, value_eq,
    ← shown.contents_eq] at held
  exact ⟨shown.size_eq ▸ serves.founded, held, shown.size_eq ▸ serves.fits⟩

/-- A failed write that leaves its arena writable stopped while it was staged. -/
theorem Serves.undone_of_write (serves : current.Serves layout homes value before)
    (placed : place? current.arenas lba = some (index, block))
    (found : current.arenas[index]? = some arena)
    (width : bytes.length = current.externalSize.toNat)
    (failed : (arena.write block bytes before).1.1 = .error cause)
    (stays : (arena.write block bytes before).1.2.readOnly = false) :
    Undone layout index arena block current
      { current with arenas := current.arenas.set index (arena.write block bytes before).1.2 }
      before (arena.write block bytes before).2 := by
  have writable : arena.readOnly = false := by
    by_contra readOnly
    rw [Bool.not_eq_false] at readOnly
    rw [Arena.write_refused (.inl readOnly), readOnly] at stays
    cases stays
  obtain ⟨_, _, head, others, spare, -, -, flog_eq⟩ := serves.live found writable
  have run : Arena.WriteRun arena { head with spare } others block bytes before _ _ _ _ :=
    Arena.write_run writable flog_eq before
  obtain ⟨made, entered, ⟨same, lost, -, course⟩ | ⟨degraded, -⟩⟩ := run.attempts
  · obtain ⟨size_eq, outside⟩ := serves.write_outside placed found writable width
    rw [same, set_of_found found]
    exact serves.undone (serves.kept placed found width same lost) found writable size_eq outside
      ⟨_, others, made, flog_eq, entered, course.follows⟩
  · rw [degraded (failed ▸ rfl)] at stays
    cases stays

/-- A failed write that makes its arena read-only had reached the sequence number. -/
theorem Serves.frozen_of_write (serves : current.Serves layout homes value before)
    (placed : place? current.arenas lba = some (index, block))
    (found : current.arenas[index]? = some arena) (writable : arena.readOnly = false)
    (width : bytes.length = current.externalSize.toNat)
    (failed : (arena.write block bytes before).1.1 = .error cause)
    (degraded : (arena.write block bytes before).1.2.readOnly = true) :
    Frozen layout index arena block lba bytes current
      { current with arenas := current.arenas.set index (arena.write block bytes before).1.2 }
      before (arena.write block bytes before).2 := by
  obtain ⟨value, target, head, others, spare, durable, settled, flog_eq⟩ :=
    serves.live found writable
  have inside := block_lt_external placed found
  have answers := durable.answers settled
  have between := Arena.write_between durable settled writable ⟨spare, flog_eq⟩ (Shows.self before)
    (serves.room found) inside (serves.size_eq found ▸ width) degraded
  obtain ⟨size_eq, outside⟩ := serves.write_outside placed found writable width
  obtain ⟨span_eq, info_eq⟩ := arena.write_keeps block bytes before
  have run : Arena.WriteRun arena { head with spare } others block bytes before _ _ _ _ :=
    Arena.write_run writable flog_eq before
  obtain ⟨made, entered, reached⟩ := run.attempts
  rw [failed] at reached
  generalize (arena.write block bytes before).1.2 = left at *
  generalize (arena.write block bytes before).2 = after at *
  constructor
  case committing =>
    obtain ⟨same, -⟩ | ⟨-, late, rfl, course⟩ := reached
    · rw [same, writable] at degraded
      cases degraded
    · exact ⟨_, others, late, flog_eq, entered, course⟩
  case others =>
    intro other different
    refine serves.fits.readsAs_set size_eq found span_eq info_eq outside
      fun number otherPlaced => ?_
    have apart : number ≠ block := fun same => different (place_inj (same ▸ otherPlaced) placed)
    have otherInside := block_lt_external otherPlaced found
    rw [Arena.answer_transfer span_eq info_eq, between.others number otherInside apart,
      answers number otherInside]
  case own =>
    rw [serves.fits.readsAs_own size_eq found span_eq info_eq placed,
      Arena.answer_transfer span_eq info_eq, serves.fits.readsAs_eq placed found,
      answers block inside]
    exact between.own
  case refused =>
    intro calls others media final reached other number buffer located
    exact Session.run_refuses (getElem?_set_of_found found left) degraded others reached located

end Outcomes

/-- **Writes that fail.** At any point of a session, whichever accesses failed before, let a write
of a block return an error. If its arena takes writes afterwards, the device in memory is as
before, every block reads as before, the blocks of the arena also do after a mount without
faults, and the next write to them succeeds without faults. If the write made the arena
read-only, it failed at the store of the sequence number or later, every other block reads as
before, its own has the old or the new bytes, and the arena refuses writes without an access up to
the next mount. -/
theorem failed_write {μ : Type} [Media μ] [Atomic μ] {layout : Layout} {entropy : Entropy}
    {start created before after : Journal μ} {device current later : Device} {lba index : Nat}
    {block : UInt32} {bytes : List UInt8} {cause : Error}
    (laidOut : (create layout entropy).on start = (.ok device, created)) (calls : List Call)
    (reached : (Session.run layout ⟨created, some device⟩ calls).2 = ⟨before, some current⟩)
    (placed : place? current.arenas lba = some (index, block))
    (failed : current.write lba bytes before = ((.error cause, later), after)) :
    ∃ arena left, current.arenas[index]? = some arena ∧ later.arenas[index]? = some left ∧
      (left.readOnly = false → Undone layout index arena block current later before after) ∧
      (arena.readOnly = false → left.readOnly = true →
        Frozen layout index arena block lba bytes current later before after) := by
  obtain ⟨value, serves⟩ := Serves.of_reached laidOut reached
  obtain ⟨-, arena, found⟩ := place_lt placed
  rcases write_cases current lba bytes before with ⟨reason, -, made⟩ |
    ⟨_, _, _, located, same, made⟩
  · rw [failed] at made
    cases made
    refine ⟨arena, arena, found, found, fun writable => ?_, fun writable degraded => ?_⟩
    · obtain ⟨_, _, head, others, spare, -, -, flog_eq⟩ := serves.live found writable
      refine serves.undone serves found writable rfl (Contents.AgreeOutside.refl _ _ _) ?_
      exact ⟨_, others, [], flog_eq, (List.append_nil _).symm, Attempt.follows_nil _⟩
    · rw [writable] at degraded
      cases degraded
  · cases placed.symm.trans (place_of_locate located)
    cases found.symm.trans same
    have width := width_of_locate located
    rw [failed] at made
    obtain ⟨pair, rfl⟩ := Prod.mk.inj made
    obtain ⟨outcome_eq, rfl⟩ := Prod.mk.inj pair
    refine ⟨arena, _, found, getElem?_set_of_found found _, fun stays => ?_, fun writable degraded => ?_⟩
    · exact serves.undone_of_write placed found width outcome_eq.symm stays
    · exact serves.frozen_of_write placed found writable width outcome_eq.symm degraded

/-- The power fails before the data is stored, or before the sequence number is. -/
theorem failed_write_small :
    (∃ (start created after : Journal Simulated) (device later : Device) (arena : Arena)
      (cause : Error),
      (create smallLayout zeroEntropy).on start = (.ok device, created) ∧
      device.write 0 (List.replicate 512 7) created = ((.error cause, later), after) ∧
      Undone smallLayout 0 arena 0 device later created after) ∧
    ∃ (start created after : Journal Simulated) (device later : Device) (arena : Arena)
      (cause : Error),
      (create smallLayout zeroEntropy).on start = (.ok device, created) ∧
      device.write 0 (List.replicate 512 7) created = ((.error cause, later), after) ∧
      Frozen smallLayout 0 arena 0 0 (List.replicate 512 7) device later created after := by
  obtain ⟨info, planned⟩ := small_planned
  have width {device : Device} {start created : Journal Simulated}
      (laidOut : (create smallLayout zeroEntropy).on start = (.ok device, created)) :
      (List.replicate 512 (7 : UInt8)).length = device.externalSize.toNat := by
    rw [create_blockSize laidOut]
    exact List.length_replicate
  constructor
  · obtain ⟨start, created, device, laidOut, size_eq, lasts⟩ := create_powered planned 0
    obtain ⟨arena, slot, others, first⟩ := create_first laidOut
    rw [size_eq] at first
    obtain ⟨cause, left, after, made, stays⟩ := write_unpowered first (width laidOut) lasts
    obtain ⟨same, other, here, there, undone, -⟩ :=
      failed_write laidOut [] rfl first.placed made
    cases (getElem?_set_of_found first.found _).symm.trans there
    exact ⟨start, created, after, device, _, same, cause, laidOut, made, undone stays⟩
  · obtain ⟨start, created, device, laidOut, size_eq, lasts⟩ := create_powered planned 2
    obtain ⟨arena, slot, others, first⟩ := create_first laidOut
    rw [size_eq] at first
    obtain ⟨cause, left, after, made, degraded, -⟩ := write_cut first (width laidOut) lasts
    obtain ⟨same, other, here, there, -, frozen⟩ :=
      failed_write laidOut [] rfl first.placed made
    cases (getElem?_set_of_found first.found _).symm.trans there
    cases first.found.symm.trans here
    exact ⟨start, created, after, device, _, arena, cause, laidOut, made,
      frozen first.writable degraded⟩

end Device

end Remap.Block
