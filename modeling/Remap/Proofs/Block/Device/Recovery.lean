import Remap.Proofs.Block.Arena.Replay
import Remap.Proofs.Block.Device.Mount
import Remap.Proofs.Block.Device.Ownership
import Remap.Proofs.Block.Device.PowerLoss

/-!
# Recovery

A mount completes the map changes that the flog describes. If the slots that describe one name
different blocks, each change is decided by the map as the mount found it, whatever the order,
and no other byte changes but those of an info block that is restored from its copy. After that
all arenas stand: the next mount finds them as they are.
-/

namespace Remap.Block

open Remap.Media

structure Recovers (before after : Contents) (surveyed : Span × Expectation) (arena : Arena) :
    Prop where
  completed : arena.readOnly = false → ∀ slot ∈ arena.flog, slot.needsRecovery = true →
    arena.entryAt after slot.active.lba =
      slot.completed (arena.entryAt before slot.active.lba)
  anyOrder : arena.readOnly = false → ∀ slots : List FlogSlot, slots.Perm arena.unsettled →
    (slots.foldl arena.replayed before).AgreeOn after arena.mapStart arena.dataStart
  changed : ∀ position, surveyed.1.base ≤ position → position < surveyed.1.stop →
    after position ≠ before position →
      (arena.readOnly = false ∧ ∃ slot ∈ arena.flog, slot.needsRecovery = true ∧
        arena.entryOffset slot.active.lba ≤ position ∧
        position < arena.entryOffset slot.active.lba + mapEntryBytes) ∨
      Restored before after surveyed position

namespace MountedFrom

variable {before after : Contents} {pair : Span × Expectation} {arena : Arena} {size : Nat}

theorem recovered (mounted : MountedFrom before after pair arena)
    (framed : pair.2.Frames pair.1 size) :
    ∃ info held, Arena.inForce pair.1 pair.2 before = .ok (info, held) ∧
      arena = Arena.mounted pair.1 info held ∧ arena.info.Divides arena.span ∧
      (∀ slot ∈ arena.flog, slot.active.lba < arena.info.external) ∧
      held.AgreeOn before arena.mapStart arena.dataStart ∧
      (arena.recovered held).AgreeOn after arena.mapStart arena.dataStart := by
  obtain ⟨info, held, chosen, rfl, last⟩ := mounted
  have divided := Arena.mounted_divides held
    (framed.divides info (Arena.inForce_accepted chosen).2)
  have order := Arena.region_order divided
  rw [Arena.mounted_span] at order
  exact ⟨info, held, chosen, rfl, divided, fun slot => Arena.mounted_lba,
    (Arena.inForce_outside chosen).agreeOn (.inr (by omega)), last.mono (by omega) (by omega)⟩

variable (mounted : MountedFrom before after pair arena) (framed : pair.2.Frames pair.1 size)
  (distinct : arena.readOnly = false → Arena.Distinct arena.unsettled)

include mounted framed distinct

theorem completed (writable : arena.readOnly = false) :
    ∀ slot ∈ arena.unsettled, arena.entryAt after slot.active.lba =
      slot.completed (arena.entryAt before slot.active.lba) := by
  obtain ⟨info, held, chosen, mount, divided, named, map, last⟩ := mounted.recovered framed
  intro slot member
  have inside := named slot (List.mem_of_mem_filter member)
  rw [← Arena.entryAt_congr divided last inside, ← Arena.entryAt_congr divided map inside]
  exact Arena.entryAt_replayAll (distinct writable) member

theorem recovers : Recovers before after pair arena := by
  obtain ⟨info, held, chosen, mount, divided, named, map, last⟩ := mounted.recovered framed
  have unsettled : ∀ slot ∈ arena.unsettled, slot.active.lba < arena.info.external :=
    fun slot member => named slot (List.mem_of_mem_filter member)
  refine ⟨?_, ?_, ?_⟩
  · intro writable slot member needed
    exact mounted.completed framed distinct writable slot (List.mem_filter.mpr ⟨member, needed⟩)
  · intro writable slots perm
    rw [← Arena.replayAll_perm (distinct writable) perm.symm]
    exact (Arena.replayAll_congr divided (Nat.le_refl _) (Nat.le_refl _) unsettled map.symm).trans
      last
  · intro position lower upper changed
    have end_eq : arena.recovered held position = after position := by
      obtain ⟨other, same, again, rfl, last⟩ := mounted
      rw [chosen] at again
      cases again
      exact last position lower upper
    by_cases kept : arena.recovered held position = held position
    · right
      refine mounted.restored framed chosen fun same => changed ?_
      rw [← end_eq, kept, same]
    · left
      constructor
      · cases readOnly : arena.readOnly with
        | false => rfl
        | true =>
            rw [mount] at readOnly kept
            exact absurd (congrFun (Arena.recovered_of_readOnly readOnly) position) kept
      · obtain ⟨slot, member, inside⟩ := Arena.replayAll_changed kept
        obtain ⟨inFlog, needed⟩ := List.mem_filter.mp member
        exact ⟨slot, inFlog, needed, inside⟩

/-- After a mount the next one finds the arena as it is. -/
theorem stands : Stands after pair arena := by
  have completed := mounted.completed framed distinct
  obtain ⟨info, held, chosen, mount, divided, named, map, last⟩ := mounted.recovered framed
  obtain ⟨same, flog, mapBehind⟩ := mounted.front framed chosen
  refine ⟨info, ?_, ?_, ?_⟩
  · apply Arena.inForce_again chosen
    exact (Contents.load_congr same (Nat.le_refl _) (by omega)).symm
  · rw [mount]
    exact Arena.mounted_congr (same.mono (by omega) (by omega))
  · cases readOnly : arena.readOnly with
    | true =>
        rw [mount] at readOnly ⊢
        exact Arena.recovered_of_readOnly readOnly
    | false =>
        apply Arena.replayAll_completed
        intro slot member
        rw [completed readOnly slot member, FlogSlot.completed_completed]

end MountedFrom

/-- Of the slots of a held arena only the first is ever in use. -/
theorem Arena.Holds.distinct {home arena : Arena} {value : UInt32 → List UInt8}
    {contents : Contents} (holds : home.Holds arena value contents)
    (writable : arena.readOnly = false) : Arena.Distinct arena.unsettled := by
  obtain ⟨target, head, others, spare, durable, -, flog_eq⟩ := holds.live writable
  have idle : others.filter (·.needsRecovery) = [] := by
    rw [List.filter_eq_nil_iff]
    intro slot member
    rw [durable.idle slot member]
    exact Bool.false_ne_true
  rw [Arena.unsettled, flog_eq, List.filter_cons, idle, Arena.Distinct]
  split <;> simp

variable {μ : Type} [Media μ] [Atomic μ]

theorem Device.load_distinct {layout : Layout} {homes : List Arena} {value : Nat → List UInt8}
    {media after : μ} {device : Device} (founded : Founded layout (Media.size media) homes)
    (kept : AllKept homes value (Atomic.contents media))
    (ran : (Device.load layout.parent layout.totalSize layout.blockSize).on media =
      (.ok device, after)) :
    ∀ arena ∈ device.arenas, arena.readOnly = false → Arena.Distinct arena.unsettled := by
  have load : (Device.load layout.parent layout.totalSize layout.blockSize : Step μ _).Meets
      (Media.size media) False (Atomic.contents media) _ _ := Device.meets_load founded kept
  obtain ⟨contents, -, -, mounted, -⟩ := load.of_ok ⟨rfl, rfl, False.elim⟩ ran
  intro arena member writable
  obtain ⟨home, value, holds⟩ := mounted.holds_of_mem arena member
  exact holds.distinct writable

/-- **Recovery.** A mount without faults, of contents in which the slots to replay name different
blocks, completes the map entry of each of them as the entry was before, in whatever order, and
changes no other byte but those of a restored info block. Mounting once more yields the same
device and leaves the contents as they are. -/
theorem Device.load_recovers {parent : Uuid} {totalSize : Nat} {blockSize : UInt32}
    {media after : μ} {device : Device} (faultless : Atomic.Faultless media)
    (ran : (Device.load parent totalSize blockSize).on media = (.ok device, after))
    (distinct : ∀ arena ∈ device.arenas, arena.readOnly = false →
      Arena.Distinct arena.unsettled) :
    (∃ surveyed,
        Device.survey parent totalSize blockSize (Media.size media) = .ok surveyed ∧
        List.Forall₂ (Recovers (Atomic.contents media) (Atomic.contents after)) surveyed
          device.arenas ∧
        AgreeApart device.arenas (Atomic.contents after) (Atomic.contents media)) ∧
      ∃ last, (Device.load parent totalSize blockSize).on after = (.ok device, last) ∧
        Atomic.contents last = Atomic.contents after := by
  obtain ⟨surveyed, found, sound, size_eq, device_eq, mounted, apart⟩ :=
    Device.load_mounted faultless ran
  obtain ⟨framed, -⟩ := Device.survey_framed found
  obtain ⟨lengths, mounted⟩ := List.forall₂_iff_get.mp mounted
  constructor
  · refine ⟨surveyed, found, List.forall₂_iff_get.mpr ⟨lengths, ?_⟩, apart⟩
    intro index inside member
    exact (mounted index inside member).recovers (framed _ (List.get_mem _ _))
      (distinct _ (List.get_mem _ _))
  · rw [device_eq]
    apply Device.load_stands sound (size_eq ▸ found)
    refine List.forall₂_iff_get.mpr ⟨lengths, fun index inside member => ?_⟩
    exact (mounted index inside member).stands (framed _ (List.get_mem _ _))
      (distinct _ (List.get_mem _ _))

/-- The power fails once the sequence number of a write is stored, before the map changes. -/
theorem Device.load_recovers_small :
    ∃ (device : Device) (created media : Simulated) (reloaded : Device) (after : Simulated),
      (Device.create Device.smallLayout Device.zeroEntropy).on (Simulated.blank minArena) =
        (.ok device, created) ∧
      media = (Session.run Device.smallLayout
        ⟨created.setPlan { writeBudget := some 3 }, some device⟩
          [.write 0 (List.replicate 512 7)]).2.media.reboot ∧
      (Device.load .nil minArena 512).on media = (.ok reloaded, after) ∧
      (∀ arena ∈ reloaded.arenas, arena.readOnly = false) ∧
      (∃ surveyed, Device.survey .nil minArena 512 (Media.size media) = .ok surveyed ∧
        List.Forall₂ (Recovers (Atomic.contents media) (Atomic.contents after)) surveyed
          reloaded.arenas ∧
        AgreeApart reloaded.arenas (Atomic.contents after) (Atomic.contents media)) ∧
      ∃ last, (Device.load .nil minArena 512).on after = (.ok reloaded, last) ∧
        Atomic.contents last = Atomic.contents after := by
  obtain ⟨device, created, laid, -⟩ := Device.small_created
  obtain ⟨founded, contents, shown, size_eq, mounted, -⟩ := Session.holds_created laid
  have cut : Session.Holds Device.smallLayout device.arenas
      (Media.size (Simulated.blank minArena)) False _
      ⟨created.setPlan { writeBudget := some 3 }, some device⟩ :=
    ⟨contents, ⟨shown.size_eq, shown.contents_eq, False.elim⟩, size_eq, mounted, False.elim⟩
  obtain ⟨same, kept⟩ := (Session.run_holds founded cut
    [.write 0 (List.replicate 512 7)]).allKept
  have healed := Simulated.reboot_shows (Session.run Device.smallLayout
    ⟨created.setPlan { writeBudget := some 3 }, some device⟩
      [.write 0 (List.replicate 512 7)]).2.media
  rw [← healed.contents_eq] at kept
  rw [← same, ← healed.size_eq] at founded
  obtain ⟨reloaded, after, ran, writable, -⟩ :=
    Device.load_faultless founded kept (healed.faultless trivial)
  refine ⟨device, created, _, reloaded, after, laid, rfl, ran, writable, ?_⟩
  exact Device.load_recovers (healed.faultless trivial) ran
    (Device.load_distinct founded kept ran)

end Remap.Block
