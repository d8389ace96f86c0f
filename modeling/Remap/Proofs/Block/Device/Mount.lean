import Remap.Proofs.Block.Arena.Mount
import Remap.Proofs.Block.Device.Founded

/-!
# Mounting a device from any contents

Without faults the arenas of a device are mounted each from its own span, as if it were the
only one. So whether the mount succeeds is decided by the info blocks alone, and an arena with
a damaged flog is degraded by itself.
-/

namespace Remap.Block

open Remap.Media

structure Surveyed (blockSize : UInt32) (span : Span) (expected : Expectation) : Prop where
  aligned : span.base % regionAlignment = 0
  large : minArena ≤ span.size
  arenaSize_eq : expected.arenaSize = span.size
  externalSize_eq : expected.externalSize = blockSize
  fits : expected.externalSize.toNat ≤ expected.internalSize.toNat

def MountedFrom (before after : Contents) (surveyed : Span × Expectation) (arena : Arena) : Prop :=
  ∃ info held, Arena.inForce surveyed.1 surveyed.2 before = .ok (info, held) ∧
    arena = Arena.mounted surveyed.1 info held ∧
    (arena.recovered held).AgreeOn after surveyed.1.base surveyed.1.stop

/-- The info block at the start of the arena could not be used, and the mount replaced it by the
one that its copy holds; the byte at `position` is part of it. -/
def Restored (before after : Contents) (surveyed : Span × Expectation) (position : Nat) : Prop :=
  ∃ cause info, Arena.infoAt before surveyed.1.base surveyed.2 = .error cause ∧
    Arena.infoAt before (surveyed.1.stop - infoBlockBytes) surveyed.2 = .ok info ∧
    after.load surveyed.1.base infoBlockBytes = info.toBytes ∧
    surveyed.1.base ≤ position ∧ position < surveyed.1.base + infoBlockBytes

def Stands (contents : Contents) (surveyed : Span × Expectation) (arena : Arena) : Prop :=
  ∃ info, Arena.inForce surveyed.1 surveyed.2 contents = .ok (info, contents) ∧
    arena = Arena.mounted surveyed.1 info contents ∧ arena.recovered contents = contents

namespace MountedFrom

variable {before middle after : Contents} {pair : Span × Expectation} {arena : Arena} {size : Nat}

theorem span_eq (mounted : MountedFrom before after pair arena) : arena.span = pair.1 := by
  obtain ⟨info, held, -, rfl, -⟩ := mounted
  exact Arena.mounted_span _ _ _

theorem of_before (mounted : MountedFrom middle after pair arena)
    (framed : pair.2.Frames pair.1 size)
    (agree : before.AgreeOn middle pair.1.base pair.1.stop) :
    MountedFrom before after pair arena := by
  obtain ⟨info, held, chosen, rfl, last⟩ := mounted
  obtain ⟨other, again, same, recovered⟩ := Arena.mount_congr framed agree.symm chosen
  exact ⟨info, other, again, same, recovered.symm.trans last⟩

theorem of_stands {home : Arena} (mounted : MountedFrom before after pair arena)
    (stands : Stands before pair home) :
    arena = home ∧ before.AgreeOn after pair.1.base pair.1.stop := by
  obtain ⟨info, held, chosen, rfl, last⟩ := mounted
  obtain ⟨other, again, rfl, same⟩ := stands
  rw [chosen] at again
  cases again
  refine ⟨rfl, ?_⟩
  rw [same] at last
  exact last

theorem front (mounted : MountedFrom before after pair arena)
    (framed : pair.2.Frames pair.1 size) {info : InfoBlock} {held : Contents}
    (chosen : Arena.inForce pair.1 pair.2 before = .ok (info, held)) :
    held.AgreeOn after pair.1.base (pair.1.base + info.mapOffset.toNat) ∧
      pair.1.base + infoBlockBytes ≤ pair.1.base + info.flogOffset.toNat ∧
      pair.1.base + info.flogOffset.toNat + info.nfree.toNat * flogSlotBytes ≤
        pair.1.base + info.mapOffset.toNat := by
  obtain ⟨other, same, again, rfl, last⟩ := mounted
  rw [chosen] at again
  cases again
  have order := @Arena.region_order ⟨pair.1, info, [], false⟩
    (framed.divides info (Arena.inForce_accepted chosen).2)
  simp only [Arena.flogStart, Arena.flogLength, Arena.mapStart, Arena.dataStart] at order
  refine ⟨?_, order.1, order.2.1⟩
  exact (Arena.recovered_front framed chosen).symm.trans (last.mono (Nat.le_refl _) (by omega))

theorem restored (mounted : MountedFrom before after pair arena)
    (framed : pair.2.Frames pair.1 size) {info : InfoBlock} {held : Contents}
    (chosen : Arena.inForce pair.1 pair.2 before = .ok (info, held)) {position : Nat}
    (changed : held position ≠ before position) : Restored before after pair position := by
  obtain ⟨same, flog, map⟩ := mounted.front framed chosen
  rcases Arena.inForce_ok chosen with ⟨-, rfl⟩ | ⟨⟨cause, refused⟩, found, rfl⟩
  · exact absurd rfl changed
  · refine ⟨cause, info, refused, found, ?_, ?_⟩
    · rw [← Contents.load_congr same (Nat.le_refl _) (by omega), ← info.length_toBytes]
      exact Contents.load_store_same
    · by_contra outside
      refine changed (Contents.store_outside ?_)
      rw [info.length_toBytes]
      omega

end MountedFrom

namespace Device

variable {parent : Uuid} {totalSize size : Nat} {blockSize internalSize : UInt32}
  {surveyed : List (Span × Expectation)} {before middle after : Contents}

theorem expectations_mem {spans : List Span} {pair : Span × Expectation}
    (member : pair ∈ expectations parent blockSize internalSize spans) :
    pair.1 ∈ spans ∧ pair.2.arenaSize = pair.1.size ∧ pair.2.externalSize = blockSize ∧
      pair.2.internalSize = internalSize := by
  induction spans with
  | nil => simp [expectations] at member
  | cons span rest induction =>
      rw [expectations] at member
      rcases List.mem_cons.mp member with rfl | later
      · exact ⟨List.mem_cons_self, rfl, rfl, rfl⟩
      · obtain ⟨found, facts⟩ := induction later
        exact ⟨List.mem_cons_of_mem span found, facts⟩

theorem expectations_spans (parent : Uuid) (blockSize internalSize : UInt32)
    (spans : List Span) :
    (expectations parent blockSize internalSize spans).map Prod.fst = spans := by
  induction spans with
  | nil => rfl
  | cons span rest induction => rw [expectations, List.map_cons, induction]

theorem survey_parts (found : survey parent totalSize blockSize size = .ok surveyed) :
    ∃ internalSize spans, dataBlockSize blockSize = .ok internalSize ∧ totalSize ≤ size ∧
      Span.plan totalSize maxArena = .ok spans ∧
      surveyed = expectations parent blockSize internalSize spans := by
  rw [survey] at found
  obtain ⟨internalSize, sized, found⟩ := bind_ok found
  obtain ⟨_, checked, found⟩ := bind_ok found
  obtain ⟨spans, planned, found⟩ := bind_ok found
  cases found
  exact ⟨internalSize, spans, sized, checkRoom_ok checked, mapError_ok planned, rfl⟩

theorem surveyed_of_mem (found : survey parent totalSize blockSize size = .ok surveyed) :
    ∀ pair ∈ surveyed, Surveyed blockSize pair.1 pair.2 := by
  obtain ⟨internalSize, spans, sized, -, planned, rfl⟩ := survey_parts found
  obtain ⟨-, shapes⟩ := Span.plan_sound planned
  obtain ⟨-, -, fits⟩ := dataBlockSize_ok sized
  intro pair member
  obtain ⟨inPlan, arenaSize, external, internal⟩ := expectations_mem member
  obtain ⟨aligned, -, large, -⟩ := shapes pair.1 inPlan
  refine ⟨aligned, large, arenaSize, external, ?_⟩
  rw [external, internal]
  exact fits

/-- Surveyed arenas follow one another on the media, and each is framed by what is expected. -/
theorem survey_framed (found : survey parent totalSize blockSize size = .ok surveyed) :
    (∀ pair ∈ surveyed, pair.2.Frames pair.1 size) ∧
      surveyed.Pairwise fun first second => first.1.stop ≤ second.1.base := by
  have shapes := surveyed_of_mem found
  obtain ⟨internalSize, spans, sized, enough, planned, rfl⟩ := survey_parts found
  obtain ⟨apart, bounds⟩ := Span.plan_sound planned
  constructor
  · intro pair member
    obtain ⟨aligned, large, arenaSize_eq, externalSize_eq, fits⟩ := shapes pair member
    obtain ⟨-, -, -, -, inside⟩ := bounds pair.1 (expectations_mem member).1
    have header : infoBlockBytes ≤ minArena := by decide
    refine ⟨Nat.le_trans header large, Nat.le_trans inside enough, fun info accepted => ?_⟩
    exact (info.divides_of_accepted accepted arenaSize_eq large aligned fits).1
  · rw [← expectations_spans parent blockSize internalSize spans, List.pairwise_map] at apart
    exact apart

theorem survey_ok (sized : dataBlockSize blockSize = .ok internalSize)
    (enough : totalSize ≤ size) (large : minArena ≤ totalSize) :
    ∃ spans, Span.plan totalSize maxArena = .ok spans ∧
      survey parent totalSize blockSize size =
        .ok (expectations parent blockSize internalSize spans) := by
  have full : minArena ≤ alignDown maxArena regionAlignment := by decide
  have planned := Span.plan_ok.mpr ⟨large, full, rfl⟩
  refine ⟨_, planned, ?_⟩
  rw [survey, sized, checkRoom, if_neg (Nat.not_lt.mpr enough), planned]
  rfl

theorem mounted_of_before {arenas : List Arena}
    (mounted : List.Forall₂ (MountedFrom middle after) surveyed arenas)
    (framed : ∀ pair ∈ surveyed, pair.2.Frames pair.1 size)
    (agree : ∀ pair ∈ surveyed, before.AgreeOn middle pair.1.base pair.1.stop) :
    List.Forall₂ (MountedFrom before after) surveyed arenas := by
  induction mounted with
  | nil => exact .nil
  | @cons pair _ _ _ here _ induction =>
      refine .cons (here.of_before (framed pair List.mem_cons_self)
        (agree pair List.mem_cons_self)) (induction ?_ ?_)
      · exact fun later member => framed later (List.mem_cons_of_mem pair member)
      · exact fun later member => agree later (List.mem_cons_of_mem pair member)

variable {μ : Type} [Media μ]

theorem load_refused {media : μ} {cause : Error}
    (refused : survey parent totalSize blockSize (Media.size media) = .error cause) :
    (load parent totalSize blockSize).on media = (.error cause, media) := by
  have media_eq : (get : Step μ μ).on media = (.ok media, media) := rfl
  rw [load, Step.on_bind, media_eq]
  dsimp only
  rw [refused]
  rfl

variable [Atomic μ]

theorem meets_mountAll (framed : ∀ pair ∈ surveyed, pair.2.Frames pair.1 size)
    (apart : surveyed.Pairwise fun first second => first.1.stop ≤ second.1.base) :
    (surveyed.mapM fun (span, expected) => Arena.load span expected : Step μ _).Meets size True
      before
      (fun arenas after => List.Forall₂ (MountedFrom before after) surveyed arenas ∧
        AgreeApart arenas after before)
      (fun cause _ => ∃ pair ∈ surveyed, Arena.inForce pair.1 pair.2 before = .error cause) := by
  induction surveyed generalizing before with
  | nil => exact Step.meets_pure ⟨.nil, fun _ _ => rfl⟩
  | cons pair rest induction =>
      obtain ⟨span, expected⟩ := pair
      obtain ⟨behind, apartRest⟩ := List.pairwise_cons.mp apart
      have here : expected.Frames span size := framed (span, expected) List.mem_cons_self
      have framedRest := fun later member => framed later (List.mem_cons_of_mem _ member)
      rw [List.mapM_cons]
      apply Step.meets_bind
      apply (Arena.meets_mounted here).mono
      · rintro _ _ ⟨info, held, chosen, rfl, rfl⟩
        -- the later arenas are mounted from what the first one left, where their spans are the same
        have outside := Arena.recovered_outside here chosen
        have kept (later : Span × Expectation) (member : later ∈ rest) :
            ((Arena.mounted span info held).recovered held).AgreeOn before later.1.base
              later.1.stop :=
          outside.agreeOn (.inr (behind later member))
        apply Step.meets_bind
        apply (induction framedRest apartRest).mono
        · rintro arenas after ⟨mounted, agree⟩
          refine Step.meets_pure ⟨.cons ⟨info, held, chosen, rfl, ?_⟩ ?_, ?_⟩
          · intro position lower upper
            refine (agree position fun arena member => ?_).symm
            obtain ⟨later, laterMember, from_⟩ := forall₂_of_mem mounted member
            have := behind later laterMember
            rw [from_.span_eq]
            omega
          · exact mounted_of_before mounted framedRest fun later member => (kept later member).symm
          · intro position apartAll
            rw [agree position fun arena member =>
              apartAll arena (List.mem_cons_of_mem _ member)]
            have first := apartAll _ List.mem_cons_self
            rw [Arena.mounted_span] at first
            exact outside position first
        · rintro cause _ ⟨later, member, refused⟩
          refine ⟨later, List.mem_cons_of_mem _ member, ?_⟩
          exact Arena.inForce_error_congr (framedRest later member).large (kept later member)
            refused
      · rintro cause _ ⟨refused, -⟩
        exact ⟨(span, expected), List.mem_cons_self, refused⟩

theorem meets_mount (found : survey parent totalSize blockSize size = .ok surveyed) :
    (load parent totalSize blockSize : Step μ _).Meets size True before
      (fun device after =>
        device = ⟨parent, blockSize, internalBlockSize blockSize, device.arenas⟩ ∧
          List.Forall₂ (MountedFrom before after) surveyed device.arenas ∧
          AgreeApart device.arenas after before)
      (fun cause _ => ∃ pair ∈ surveyed, Arena.inForce pair.1 pair.2 before = .error cause) := by
  obtain ⟨framed, apart⟩ := survey_framed found
  rw [load]
  apply Step.meets_get
  intro media size_eq
  rw [size_eq, found]
  apply Step.meets_bind
  apply Step.meets_ofExcept
  · rintro _ ⟨⟩
    apply Step.meets_bind
    apply (meets_mountAll framed apart).mono _ fun _ _ => id
    exact fun arenas after made => Step.meets_pure ⟨rfl, made⟩
  · rintro _ ⟨⟩

theorem load_mounted {media after : μ} {device : Device} (faultless : Atomic.Faultless media)
    (ran : (load parent totalSize blockSize).on media = (.ok device, after)) :
    ∃ surveyed, survey parent totalSize blockSize (Media.size media) = .ok surveyed ∧
      Atomic.Faultless after ∧ Media.size after = Media.size media ∧
      device = ⟨parent, blockSize, internalBlockSize blockSize, device.arenas⟩ ∧
      List.Forall₂ (MountedFrom (Atomic.contents media) (Atomic.contents after)) surveyed
        device.arenas ∧
      AgreeApart device.arenas (Atomic.contents after) (Atomic.contents media) := by
  cases found : survey parent totalSize blockSize (Media.size media) with
  | error cause =>
      rw [load_refused found] at ran
      cases ran
  | ok surveyed =>
      have mount : (load parent totalSize blockSize : Step μ _).Meets (Media.size media) True
          (Atomic.contents media) _ _ := meets_mount found
      obtain ⟨contents, shown, facts⟩ := mount.of_ok ⟨rfl, rfl, fun _ => faultless⟩ ran
      rw [← shown.contents_eq] at facts
      exact ⟨surveyed, rfl, shown.faultless trivial, shown.size_eq, facts⟩

/-- Without faults a mount fails only for an arena whose info block cannot be used. -/
theorem load_fails {media after : μ} {cause : Error} (faultless : Atomic.Faultless media)
    (found : survey parent totalSize blockSize (Media.size media) = .ok surveyed)
    (ran : (load parent totalSize blockSize).on media = (.error cause, after)) :
    ∃ pair ∈ surveyed, Arena.inForce pair.1 pair.2 (Atomic.contents media) = .error cause := by
  have mount : (load parent totalSize blockSize : Step μ _).Meets (Media.size media) True
      (Atomic.contents media) _ _ := meets_mount found
  obtain ⟨contents, shown, refused⟩ := mount.of_error ⟨rfl, rfl, fun _ => faultless⟩ ran
  exact refused

theorem mounted_of_stands {arenas homes : List Arena}
    (mounted : List.Forall₂ (MountedFrom before after) surveyed arenas)
    (stands : List.Forall₂ (Stands before) surveyed homes) :
    arenas = homes ∧ ∀ arena ∈ arenas, before.AgreeOn after arena.span.base arena.span.stop := by
  induction mounted generalizing homes with
  | nil =>
      cases stands
      exact ⟨rfl, by simp⟩
  | cons here _ induction =>
      obtain _ | ⟨standsHere, standsRest⟩ := stands
      obtain ⟨rfl, same⟩ := here.of_stands standsHere
      obtain ⟨rfl, kept⟩ := induction standsRest
      refine ⟨rfl, fun arena member => ?_⟩
      rcases List.mem_cons.mp member with rfl | later
      · rw [here.span_eq]
        exact same
      · exact kept arena later

theorem load_stands {media : μ} {homes : List Arena} (faultless : Atomic.Faultless media)
    (found : survey parent totalSize blockSize (Media.size media) = .ok surveyed)
    (stands : List.Forall₂ (Stands (Atomic.contents media)) surveyed homes) :
    ∃ last, (load parent totalSize blockSize).on media =
        (.ok ⟨parent, blockSize, internalBlockSize blockSize, homes⟩, last) ∧
      Atomic.contents last = Atomic.contents media := by
  rcases ran : (load parent totalSize blockSize).on media with ⟨outcome, last⟩
  cases outcome with
  | error cause =>
      obtain ⟨pair, member, refused⟩ := load_fails faultless found ran
      obtain ⟨index, inside, rfl⟩ := List.getElem_of_mem member
      obtain ⟨info, chosen, -⟩ := stands.get inside (stands.length_eq ▸ inside)
      rw [List.get_eq_getElem, refused] at chosen
      cases chosen
  | ok device =>
      obtain ⟨others, again, -, -, device_eq, mounted, apart⟩ := load_mounted faultless ran
      rw [found] at again
      cases again
      obtain ⟨arenas_eq, kept⟩ := mounted_of_stands mounted stands
      refine ⟨last, ?_, ?_⟩
      · rw [device_eq, arenas_eq]
      · funext position
        by_cases inside : ∃ arena ∈ device.arenas,
            arena.span.base ≤ position ∧ position < arena.span.stop
        · obtain ⟨arena, member, lower, upper⟩ := inside
          exact (kept arena member position lower upper).symm
        · refine apart position fun arena member => ?_
          by_contra within
          exact inside ⟨arena, member, by omega, by omega⟩

end Device

end Remap.Block
