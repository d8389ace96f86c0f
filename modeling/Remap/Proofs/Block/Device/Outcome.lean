import Remap.Proofs.Block.Device.Created

/-!
# Mounting arbitrary contents

A mount without faults fails only if some arena has no info block that can be used. Nothing in
the flogs, the maps and the data blocks decides it: an arena with a flog that cannot be read is
mounted all the same, as it is, and takes no writes.
-/

namespace Remap.Block

open Remap.Media

namespace Arena

variable {contents : Contents} {span : Span} {expected : Expectation}
  {info : InfoBlock} {held : Contents}

def infoInUse? (contents : Contents) (span : Span) (expected : Expectation) : Option InfoBlock :=
  (infoAt contents span.base expected).toOption <|>
    (infoAt contents (span.stop - infoBlockBytes) expected).toOption

def FlogRefused (contents : Contents) (span : Span) (info : InfoBlock) : Prop :=
  ∃ index, index < info.nfree.toNat ∧ ∀ slot,
    FlogSlot.ofBytes (contents.load (span.base + info.flogOffset.toNat + index * flogSlotBytes)
      flogSlotBytes) info.external info.internal ≠ .ok slot

theorem infoInUse_of_inForce (chosen : inForce span expected contents = .ok (info, held)) :
    infoInUse? contents span expected = some info := by
  rw [infoInUse?]
  rcases inForce_ok chosen with ⟨found, -⟩ | ⟨⟨cause, refused⟩, found, -⟩
  · rw [found]
    rfl
  · rw [refused, found]
    rfl

theorem mounted_readOnly_iff :
    (mounted span info contents).readOnly = true ↔
      info.hasErrorFlag = true ∨ FlogRefused contents span info := by
  rw [FlogRefused, ← decodeFlog_error_iff]
  rcases mounted_cases span info contents with
    ⟨flog, mount, sound, decoded⟩ | ⟨mount, marked⟩ | ⟨mount, sound, refused⟩
  · rw [mount, sound, decoded]
    simp
  · rw [mount, marked]
    simp
  · rw [mount]
    exact ⟨fun _ => .inr refused, fun _ => rfl⟩

theorem mounted_info :
    (mounted span info contents).info = info ∨
      (mounted span info contents).readOnly = true ∧
        (mounted span info contents).info = info.withErrorFlag := by
  rcases mounted_cases span info contents with ⟨flog, mount, -⟩ | ⟨mount, -⟩ | ⟨mount, -⟩
  · rw [mount]
    exact .inl rfl
  · rw [mount]
    exact .inl rfl
  · rw [mount]
    exact .inr ⟨rfl, rfl⟩

end Arena

/-- The arena as it is mounted with the info block in use, and what that changes in its span if
the arena takes no writes. -/
structure Opened (before after : Contents) (surveyed : Span × Expectation) (arena : Arena)
    (info : InfoBlock) : Prop where
  span_eq : arena.span = surveyed.1
  inUse : Arena.infoInUse? before surveyed.1 surveyed.2 = some info
  info_eq : arena.info = info ∨ arena.readOnly = true ∧ arena.info = info.withErrorFlag
  readOnly_iff : arena.readOnly = true ↔
    info.hasErrorFlag = true ∨ Arena.FlogRefused before surveyed.1 info
  kept : arena.readOnly = true → ∀ position, surveyed.1.base ≤ position →
    position < surveyed.1.stop → after position ≠ before position →
      Restored before after surveyed position

theorem MountedFrom.opened {before after : Contents} {pair : Span × Expectation} {arena : Arena}
    {size : Nat} (mounted : MountedFrom before after pair arena)
    (framed : pair.2.Frames pair.1 size) : ∃ info, Opened before after pair arena info := by
  have made := mounted
  obtain ⟨info, held, chosen, rfl, last⟩ := mounted
  have order := @Arena.region_order ⟨pair.1, info, [], false⟩
    (framed.divides info (Arena.inForce_accepted chosen).2)
  simp only [Arena.flogStart, Arena.flogLength, Arena.mapStart, Arena.dataStart] at order
  have flog : held.AgreeOn before (pair.1.base + info.flogOffset.toNat)
      (pair.1.base + info.mapOffset.toNat) :=
    (Arena.inForce_outside chosen).agreeOn (.inr (by omega))
  refine ⟨info, Arena.mounted_span _ _ _, Arena.infoInUse_of_inForce chosen, Arena.mounted_info,
    ?_, ?_⟩
  · rw [← Arena.mounted_readOnly_iff, Arena.mounted_congr (flog.mono (Nat.le_refl _) (by omega))]
  · intro readOnly position lower upper changed
    apply made.restored framed chosen
    rw [← last position lower upper, Arena.recovered_of_readOnly readOnly] at changed
    exact changed

namespace Device

variable {μ ν : Type} [Media μ] [Atomic μ] [Media ν] [Atomic ν] {parent : Uuid} {totalSize : Nat}
  {blockSize internalSize : UInt32} {surveyed : List (Span × Expectation)}

theorem load_ok_iff {media : μ} (faultless : Atomic.Faultless media)
    (found : survey parent totalSize blockSize (Media.size media) = .ok surveyed) :
    (∃ device last, (load parent totalSize blockSize).on media = (.ok device, last)) ↔
      ∀ pair ∈ surveyed, Arena.Usable (Atomic.contents media) pair.1 pair.2 := by
  constructor
  · rintro ⟨device, last, ran⟩ pair member
    obtain ⟨others, again, -, -, -, mounted, -⟩ := load_mounted faultless ran
    rw [found] at again
    cases again
    obtain ⟨lengths, each⟩ := List.forall₂_iff_get.mp mounted
    obtain ⟨index, inside, rfl⟩ := List.getElem_of_mem member
    obtain ⟨info, held, chosen, -⟩ := each index inside (lengths ▸ inside)
    exact Arena.usable_of_inForce chosen
  · intro usable
    rcases ran : (load parent totalSize blockSize).on media with ⟨outcome, last⟩
    cases outcome with
    | ok device => exact ⟨device, last, rfl⟩
    | error cause =>
        obtain ⟨pair, member, refused⟩ := load_fails faultless found ran
        exact absurd (usable pair member) (Arena.not_usable_of_inForce refused)

/-- **The outcome of a mount.** Without faults, and with room for at least one arena, a mount
succeeds if and only if one info block of each arena can be used, whatever the other bytes are,
and else it refuses its parameters. An arena is read-only if its info block says so or a slot of
its flog cannot be decoded; then the mount changed nothing in it but a restored info block. -/
theorem load_outcome {media after : μ} {outcome : Except Error Device}
    (sized : dataBlockSize blockSize = .ok internalSize) (large : minArena ≤ totalSize)
    (enough : totalSize ≤ Media.size media) (faultless : Atomic.Faultless media)
    (ran : (load parent totalSize blockSize).on media = (outcome, after)) :
    ∃ spans, Span.plan totalSize maxArena = .ok spans ∧
      ((∃ device, outcome = .ok device) ↔
        ∀ pair ∈ expectations parent blockSize internalSize spans,
          Arena.Usable (Atomic.contents media) pair.1 pair.2) ∧
      (∀ cause, outcome = .error cause → cause.kind = .invalidParameter) ∧
      (∀ device, outcome = .ok device →
        List.Forall₂ (fun pair arena => ∃ info,
            Opened (Atomic.contents media) (Atomic.contents after) pair arena info)
          (expectations parent blockSize internalSize spans) device.arenas ∧
        AgreeApart device.arenas (Atomic.contents after) (Atomic.contents media)) ∧
      ∀ other : ν, Atomic.Faultless other → Media.size other = Media.size media →
        (∀ span ∈ spans, ∀ offset ∈ [span.base, span.stop - infoBlockBytes],
          (Atomic.contents other).load offset infoBlockBytes =
            (Atomic.contents media).load offset infoBlockBytes) →
        ((∃ device last, (load parent totalSize blockSize).on other = (.ok device, last)) ↔
          ∃ device, outcome = .ok device) := by
  obtain ⟨spans, planned, found⟩ := @survey_ok parent _ _ _ _ sized enough large
  obtain ⟨framed, -⟩ := survey_framed found
  have okay : (∃ device, outcome = .ok device) ↔
      ∀ pair ∈ expectations parent blockSize internalSize spans,
        Arena.Usable (Atomic.contents media) pair.1 pair.2 := by
    rw [← load_ok_iff faultless found, ran]
    simp
  refine ⟨spans, planned, okay, ?_, ?_, ?_⟩
  · rintro cause rfl
    obtain ⟨pair, -, refused⟩ := load_fails faultless found ran
    obtain ⟨primary, backup, -, -, rfl⟩ := Arena.inForce_error refused
    rfl
  · rintro device rfl
    obtain ⟨others, again, -, -, -, mounted, apart⟩ := load_mounted faultless ran
    rw [found] at again
    cases again
    obtain ⟨lengths, each⟩ := List.forall₂_iff_get.mp mounted
    refine ⟨List.forall₂_iff_get.mpr ⟨lengths, fun index inside member => ?_⟩, apart⟩
    exact (each index inside member).opened (framed _ (List.get_mem _ _))
  · intro other sound size_eq same
    rw [load_ok_iff sound (size_eq ▸ found), okay]
    refine forall₂_congr fun pair member => Arena.usable_congr ?_
    exact same pair.1 (expectations_mem member).1

theorem load_outcome_small :
    ∃ (device : Device) (created after : Simulated),
      (create smallLayout zeroEntropy).on (Simulated.blank minArena) = (.ok device, created) ∧
      dataBlockSize 512 = .ok 512 ∧ minArena ≤ Media.size created ∧ Atomic.Faultless created ∧
      (load .nil minArena 512).on created = (.ok device, after) ∧
      ∃ spans, Span.plan minArena maxArena = .ok spans ∧
        (∀ pair ∈ expectations .nil 512 512 spans,
          Arena.Usable (Atomic.contents created) pair.1 pair.2) ∧
        List.Forall₂ (fun pair arena => ∃ info,
            Opened (Atomic.contents created) (Atomic.contents after) pair arena info)
          (expectations .nil 512 512 spans) device.arenas := by
  obtain ⟨device, created, laid, faultless, -⟩ := small_created
  obtain ⟨-, -, -, size_eq, -⟩ := create_contents laid
  obtain ⟨after, ran, -⟩ := load_created laid faultless rfl rfl
  have room : minArena ≤ Media.size created := Nat.le_of_eq size_eq.symm
  have sized : dataBlockSize 512 = .ok 512 := by decide
  obtain ⟨spans, cut, okay, -, opened, -⟩ :=
    @load_outcome Simulated Simulated _ _ _ _ .nil _ _ _ _ _ _ sized (Nat.le_refl _) room faultless ran
  exact ⟨device, created, after, laid, sized, room, faultless, ran, spans, cut,
    okay.mp ⟨device, rfl⟩, (opened device rfl).1⟩

end Device

end Remap.Block
