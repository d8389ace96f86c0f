import Mathlib.Data.List.Forall2
import Remap.Proofs.Block.Arena.Planned
import Remap.Proofs.Block.Device.Mounted

/-!
# Devices that were laid out

Laying out a device fixes where its arenas are and what their info blocks say, and whoever
mounts it with the same parameters comes to expect just that. Once laid out the arenas are
held, with the bytes that were at their places before; mounting keeps them held.
-/

namespace Remap.Block

open Remap.Media

structure Suits (blockSize : UInt32) (surveyed : Span × Expectation) (home : Arena) : Prop where
  span_eq : home.span = surveyed.1
  described : home.info.Describes home.span
  accepted : home.info.mismatch? surveyed.2 = none
  size_eq : home.info.externalSize = blockSize

structure Founded (layout : Layout) (size : Nat) (homes : List Arena) : Prop where
  surveyed : ∃ surveyed,
    Device.survey layout.parent layout.totalSize layout.blockSize size = .ok surveyed ∧
      List.Forall₂ (Suits layout.blockSize) surveyed homes
  ordered : InOrder homes
  room : ∀ home ∈ homes, home.span.stop ≤ size
  sizes : ∀ home ∈ homes, home.info.externalSize = layout.blockSize

namespace Device

theorem forall₂_at {α β : Type} {related : α → β → Prop} {left : List α} {right : List β}
    {index : Nat} {first : α} {second : β} (all : List.Forall₂ related left right)
    (inLeft : left[index]? = some first) (inRight : right[index]? = some second) :
    related first second := by
  obtain ⟨leftInside, rfl⟩ := List.getElem?_eq_some_iff.mp inLeft
  obtain ⟨rightInside, rfl⟩ := List.getElem?_eq_some_iff.mp inRight
  exact all.get leftInside rightInside

theorem forall₂_of_mem {α β : Type} {related : α → β → Prop} {left : List α} {right : List β}
    {second : β} (all : List.Forall₂ related left right) (member : second ∈ right) :
    ∃ first ∈ left, related first second := by
  induction all with
  | nil => cases member
  | @cons first _ _ _ here _ induction =>
      rcases List.mem_cons.mp member with rfl | later
      · exact ⟨first, List.mem_cons_self, here⟩
      · obtain ⟨other, found, there⟩ := induction later
        exact ⟨other, List.mem_cons_of_mem first found, there⟩

theorem mapError_ok {ε δ α : Type} {outcome : Except ε α} {change : ε → δ} {value : α}
    (mapped : outcome.mapError change = .ok value) : outcome = .ok value := by
  cases outcome with
  | error cause => cases mapped
  | ok result =>
      cases mapped
      rfl

theorem mapError_error {ε δ α : Type} {outcome : Except ε α} {change : ε → δ} {cause : δ}
    (mapped : outcome.mapError change = .error cause) : ∃ reason, cause = change reason := by
  cases outcome with
  | error reason =>
      cases mapped
      exact ⟨reason, rfl⟩
  | ok result => cases mapped

theorem dataBlockSize_ok {blockSize internalSize : UInt32}
    (sized : dataBlockSize blockSize = .ok internalSize) :
    internalSize = internalBlockSize blockSize ∧ 0 < blockSize.toNat ∧
      blockSize.toNat ≤ internalSize.toNat := by
  unfold dataBlockSize at sized
  dsimp only at sized
  split at sized
  next => cases sized
  next supported =>
    cases sized
    rw [not_or] at supported
    obtain ⟨nonzero, wide⟩ := supported
    refine ⟨rfl, ?_, ?_⟩
    · apply Nat.pos_of_ne_zero
      intro zero
      exact nonzero (UInt32.toNat_inj.mp zero)
    · exact UInt32.le_iff_toNat_le.mp (UInt32.not_lt.mp wide)

theorem dataBlockSize_error {blockSize : UInt32} {cause : Error}
    (refused : dataBlockSize blockSize = .error cause) : cause.kind = .invalidParameter := by
  rw [dataBlockSize] at refused
  split at refused <;> cases refused
  rfl

theorem checkRoom_ok {totalSize mediaSize : Nat}
    (checked : checkRoom totalSize mediaSize = .ok ()) :
    totalSize ≤ mediaSize := by
  unfold checkRoom at checked
  split at checked
  next => cases checked
  next enough => exact Nat.not_lt.mp enough

theorem checkRoom_error {totalSize mediaSize : Nat} {cause : Error}
    (refused : checkRoom totalSize mediaSize = .error cause) : cause.kind = .invalidParameter := by
  rw [checkRoom] at refused
  split at refused <;> cases refused
  rfl

section InfoBlocks

variable {layout : Layout} {internalSize : UInt32} {entropy : Entropy} {draw : Nat} {span : Span}
  {spans rest : List Span} {infos : List InfoBlock}

theorem infoBlocks_cons_ok
    (computed : infoBlocks layout internalSize entropy draw (span :: rest) = .ok infos) :
    ∃ geometry uuid more,
      Geometry.compute span.size layout.nfree.toNat internalSize.toNat = .ok geometry ∧
      entropy.uuid? draw = some uuid ∧
      infoBlocks layout internalSize entropy (draw + 1) rest = .ok more ∧
      infos = InfoBlock.planned uuid layout.parent layout.blockSize internalSize geometry span
        (!rest.isEmpty) :: more := by
  rw [infoBlocks] at computed
  obtain ⟨geometry, laid, computed⟩ := bind_ok computed
  split at computed
  next uuid drawn =>
    obtain ⟨more, recursive, computed⟩ := bind_ok computed
    refine ⟨geometry, uuid, more, mapError_ok laid, drawn, recursive, ?_⟩
    cases computed
    cases rest <;> rfl
  next => cases computed

/-- The info blocks of a fresh device are what a survey of the device accepts. -/
theorem infoBlocks_suit (positive : 0 < layout.blockSize.toNat)
    (fits : layout.blockSize.toNat ≤ internalSize.toNat)
    (shapes : ∀ span ∈ spans, span.base % regionAlignment = 0 ∧ span.size % regionAlignment = 0 ∧
      minArena ≤ span.size ∧ span.size ≤ maxArena)
    (computed : infoBlocks layout internalSize entropy draw spans = .ok infos) :
    List.Forall₂ (Suits layout.blockSize)
      (expectations layout.parent layout.blockSize internalSize spans)
      ((spans.zip infos).map fun (span, info) => Arena.fresh span info) := by
  induction spans generalizing draw infos with
  | nil =>
      cases computed
      exact .nil
  | cons span rest induction =>
      obtain ⟨geometry, uuid, more, laid, -, recursive, rfl⟩ := infoBlocks_cons_ok computed
      obtain ⟨base_aligned, size_aligned, large, small⟩ := shapes span List.mem_cons_self
      have sound := Geometry.compute_sound laid
      refine .cons ⟨rfl, ?_, ?_, rfl⟩ (induction ?_ recursive)
      · exact InfoBlock.planned_describes sound small base_aligned large fits
      · exact InfoBlock.planned_accepted sound small size_aligned large positive fits
      · exact fun later member => shapes later (List.mem_cons_of_mem span member)

theorem length_infoBlocks
    (computed : infoBlocks layout internalSize entropy draw spans = .ok infos) :
    infos.length = spans.length := by
  induction spans generalizing draw infos with
  | nil =>
      cases computed
      rfl
  | cons span rest induction =>
      obtain ⟨geometry, uuid, more, laid, -, recursive, rfl⟩ := infoBlocks_cons_ok computed
      rw [List.length_cons, List.length_cons, induction recursive]

end InfoBlocks

def freshArenas (pairs : List (Span × InfoBlock)) : List Arena :=
  pairs.map fun (span, info) => Arena.fresh span info

theorem fresh_writable (pairs : List (Span × InfoBlock)) :
    ∀ arena ∈ freshArenas pairs, arena.readOnly = false := by
  intro arena member
  obtain ⟨pair, -, rfl⟩ := List.mem_map.mp member
  rfl

theorem plan_parts {layout : Layout} {entropy : Entropy} {size : Nat}
    {pairs : List (Span × InfoBlock)} (planned : plan layout entropy size = .ok pairs) :
    ∃ internalSize spans infos, dataBlockSize layout.blockSize = .ok internalSize ∧
      checkRoom layout.totalSize size = .ok () ∧
      Span.plan layout.totalSize maxArena = .ok spans ∧
      infoBlocks layout internalSize entropy 0 spans = .ok infos ∧ pairs = spans.zip infos := by
  rw [plan] at planned
  obtain ⟨internalSize, sized, planned⟩ := bind_ok planned
  obtain ⟨_, checked, planned⟩ := bind_ok planned
  split at planned
  next => cases planned
  next positive =>
    obtain ⟨spans, cut, planned⟩ := bind_ok planned
    obtain ⟨infos, computed, planned⟩ := bind_ok planned
    cases planned
    exact ⟨internalSize, spans, infos, sized, checked, mapError_ok cut, computed, rfl⟩

theorem plan_founded {layout : Layout} {entropy : Entropy} {size : Nat}
    {pairs : List (Span × InfoBlock)} (planned : plan layout entropy size = .ok pairs) :
    Founded layout size (freshArenas pairs) := by
  obtain ⟨internalSize, spans, infos, sized, checked, cut, computed, rfl⟩ := plan_parts planned
  obtain ⟨rfl, positive, fits⟩ := dataBlockSize_ok sized
  have enough := checkRoom_ok checked
  obtain ⟨apart, shapes⟩ := Span.plan_sound cut
  have suits := infoBlocks_suit positive fits
    (fun span member =>
      have shape := shapes span member
      ⟨shape.1, shape.2.1, shape.2.2.1, shape.2.2.2.1⟩) computed
  have spans_eq : (freshArenas (spans.zip infos)).map Arena.span = spans := by
    have lengths := length_infoBlocks computed
    rw [freshArenas, List.map_map]
    exact List.map_fst_zip (by omega)
  refine ⟨⟨_, ?_, suits⟩, ?_, ?_, ?_⟩
  · rw [survey, sized, checked, cut]
    rfl
  · rw [InOrder]
    rw [← spans_eq, List.pairwise_map] at apart
    exact apart
  · intro home member
    have inSpans : home.span ∈ spans := spans_eq ▸ List.mem_map_of_mem member
    have shape := shapes home.span inSpans
    omega
  · intro home member
    obtain ⟨_, -, suited⟩ := forall₂_of_mem suits member
    exact suited.size_eq

def initialBytes : List Arena → Contents → Nat → List UInt8
  | [], _, _ => []
  | home :: rest, contents, lba =>
      if lba < home.info.external.toNat then home.identityBytes contents (.ofNat lba)
      else initialBytes rest contents (lba - home.info.external.toNat)

theorem initialBytes_congr {homes : List Arena} {before after : Contents}
    (described : ∀ home ∈ homes, home.info.Describes home.span)
    (agree : ∀ home ∈ homes, before.AgreeOn after home.span.base home.span.stop) (lba : Nat) :
    initialBytes homes before lba = initialBytes homes after lba := by
  induction homes generalizing lba with
  | nil => rfl
  | cons home rest induction =>
      rw [initialBytes, initialBytes]
      split
      next inside =>
        have shape := described home List.mem_cons_self
        have block : UInt32.ofNat lba < home.info.internal := by
          have total := shape.internal_eq
          exact ofNat_lt_of_lt (by omega)
        obtain ⟨lower, upper⟩ := Arena.data_range shape.divides block
        have order := Arena.region_order shape.divides
        have fits := shape.size_le
        exact Contents.load_congr (agree home List.mem_cons_self) (by omega) (by omega)
      next =>
        exact induction (fun later member => described later (List.mem_cons_of_mem home member))
          (fun later member => agree later (List.mem_cons_of_mem home member)) _

variable {μ : Type} [Media μ] [Atomic μ] {size : Nat} {sound : Prop} {before : Contents}

theorem meets_formatAll {pairs : List (Span × InfoBlock)}
    (described : ∀ home ∈ freshArenas pairs, home.info.Describes home.span)
    (ordered : InOrder (freshArenas pairs))
    (room : ∀ home ∈ freshArenas pairs, home.span.stop ≤ size) :
    (pairs.mapM fun (span, info) => Arena.format span info : Step μ _).Meets size sound before
      (fun arenas after => arenas = freshArenas pairs ∧
        AgreeApart (freshArenas pairs) after before ∧
        Mounted (freshArenas pairs) (freshArenas pairs)
          (initialBytes (freshArenas pairs) before) after)
      (fun _ _ => ¬ sound) := by
  induction pairs generalizing before with
  | nil => exact Step.meets_pure ⟨rfl, fun _ _ => rfl, trivial⟩
  | cons pair rest induction =>
      obtain ⟨span, info⟩ := pair
      have laterDescribed := fun home member =>
        described home (List.mem_cons_of_mem (Arena.fresh span info) member)
      have formatHead : (Arena.format span info : Step μ _).Meets size sound before _ _ :=
        Arena.meets_format (described (Arena.fresh span info) List.mem_cons_self)
          (room (Arena.fresh span info) List.mem_cons_self)
      rw [List.mapM_cons]
      apply Step.meets_bind
      apply formatHead.mono
      · rintro _ middle ⟨rfl, outside, holds⟩
        have apart : ∀ later ∈ freshArenas rest,
            before.AgreeOn middle later.span.base later.span.stop :=
          @agreeOn_of_outside _ (Arena.fresh span info) _ _ outside ordered
        apply Step.meets_bind
        apply (induction laterDescribed (List.pairwise_cons.mp ordered).2
          (fun home member => room home (List.mem_cons_of_mem _ member))).mono
        · rintro _ after ⟨rfl, agree, mounted⟩
          refine Step.meets_pure ⟨rfl, ?_, ?_, ?_⟩
          · exact (agreeApart_of_outside outside).trans agree.cons
          · apply (holds.congr (agree.agreeOn ordered)).value_congr
            intro lba inside
            have below : lba.toNat < (Arena.fresh span info).info.external.toNat :=
              UInt32.lt_iff_toNat_lt.mp inside
            change _ = initialBytes (Arena.fresh span info :: freshArenas rest) before lba.toNat
            rw [initialBytes, if_pos below, UInt32.ofNat_toNat]
          · have same : (fun lba => initialBytes (Arena.fresh span info :: freshArenas rest) before
                ((Arena.fresh span info).info.external.toNat + lba)) =
                initialBytes (freshArenas rest) middle := by
              funext lba
              rw [initialBytes, if_neg (by omega), Nat.add_sub_cancel_left]
              exact initialBytes_congr laterDescribed apart lba
            change Mounted (freshArenas rest) (freshArenas rest) (fun lba =>
              initialBytes (Arena.fresh span info :: freshArenas rest) before
                ((Arena.fresh span info).info.external.toNat + lba)) after
            rw [same]
            exact mounted
        · exact fun _ _ => id
      · exact fun _ _ => id

theorem meets_loadAll {blockSize : UInt32} {surveyed : List (Span × Expectation)}
    {homes : List Arena} {value : Nat → List UInt8}
    (suits : List.Forall₂ (Suits blockSize) surveyed homes) (ordered : InOrder homes)
    (room : ∀ home ∈ homes, home.span.stop ≤ size) (kept : AllKept homes value before) :
    (surveyed.mapM fun (span, expected) => Arena.load span expected : Step μ _).Meets
      size sound before
      (fun arenas after => AgreeApart homes after before ∧ Mounted homes arenas value after ∧
        (sound → ∀ arena ∈ arenas, arena.readOnly = false))
      (fun _ after => ¬ sound ∧ AgreeApart homes after before ∧ AllKept homes value after) := by
  induction suits generalizing before value with
  | nil => exact Step.meets_pure ⟨fun _ _ => rfl, trivial, by simp⟩
  | @cons surveyed home surveyedRest homes suits _ induction =>
      obtain ⟨span, expected⟩ := surveyed
      obtain ⟨⟨target, head, others, durable⟩, keptRest⟩ := kept
      have span_eq : home.span = span := suits.span_eq
      have loadHead : (Arena.load home.span expected : Step μ _).Meets size sound before _ _ :=
        Arena.load_holds durable suits.accepted (room home List.mem_cons_self)
      rw [span_eq] at loadHead
      rw [List.mapM_cons]
      apply Step.meets_bind
      apply loadHead.mono
      · rintro arena middle ⟨outside, holds, writable⟩
        rw [← span_eq] at outside
        apply Step.meets_bind
        apply (induction (List.pairwise_cons.mp ordered).2
          (fun later member => room later (List.mem_cons_of_mem home member))
          (keptRest.congr (agreeOn_of_outside outside ordered))).mono
        · rintro arenas after ⟨agree, mounted, allWritable⟩
          refine Step.meets_pure ⟨?_, ⟨?_, mounted⟩, ?_⟩
          · exact (agreeApart_of_outside outside).trans agree.cons
          · exact holds.congr (agree.agreeOn ordered)
          · intro sound other member
            rcases List.mem_cons.mp member with rfl | later
            · exact writable sound
            · exact allWritable sound other later
        · rintro _ after ⟨unsound, agree, keptAfter⟩
          refine ⟨unsound, (agreeApart_of_outside outside).trans agree.cons, ?_, keptAfter⟩
          exact (holds.congr (agree.agreeOn ordered)).kept
      · rintro _ after ⟨unsound, outside, keptHead⟩
        rw [← span_eq] at outside
        refine ⟨unsound, agreeApart_of_outside outside, ⟨target, head, others, keptHead⟩, ?_⟩
        exact keptRest.congr (agreeOn_of_outside outside ordered)

theorem described_of_suits {blockSize : UInt32} {surveyed : List (Span × Expectation)}
    {homes : List Arena} (suits : List.Forall₂ (Suits blockSize) surveyed homes) :
    ∀ home ∈ homes, home.info.Describes home.span := by
  intro home member
  obtain ⟨_, -, suited⟩ := forall₂_of_mem suits member
  exact suited.described

/-- A fresh device is held as it is mounted, each block with the bytes of its identity
position. Without faults only a refused plan keeps it from being laid out. -/
theorem meets_create {layout : Layout} {entropy : Entropy} :
    (create layout entropy : Step μ Device).Meets size sound before
      (fun device after => Founded layout size device.arenas ∧
        (∃ pairs, plan layout entropy size = .ok pairs ∧ device.arenas = freshArenas pairs) ∧
        device.externalSize = layout.blockSize ∧
        (∀ arena ∈ device.arenas, arena.readOnly = false) ∧
        Mounted device.arenas device.arenas (initialBytes device.arenas before) after)
      (fun cause _ => sound → plan layout entropy size = .error cause) := by
  rw [create]
  apply Step.meets_get
  intro media size_eq
  rw [size_eq]
  apply Step.meets_bind
  apply Step.meets_ofExcept
  · intro pairs planned
    have founded := plan_founded planned
    obtain ⟨surveyed, -, suits⟩ := founded.surveyed
    apply Step.meets_bind
    apply (meets_formatAll (described_of_suits suits) founded.ordered founded.room).mono
    · rintro _ after ⟨rfl, -, mounted⟩
      exact Step.meets_pure ⟨founded, ⟨pairs, planned, rfl⟩, rfl, fresh_writable pairs, mounted⟩
    · exact fun _ _ unsound sound => absurd sound unsound
  · exact fun _ refused _ => refused

theorem meets_load {layout : Layout} {homes : List Arena} {value : Nat → List UInt8}
    (founded : Founded layout size homes) (kept : AllKept homes value before) :
    (load layout.parent layout.totalSize layout.blockSize : Step μ Device).Meets size sound before
      (fun device after => device.externalSize = layout.blockSize ∧
        Mounted homes device.arenas value after ∧
        (sound → ∀ arena ∈ device.arenas, arena.readOnly = false))
      (fun _ after => ¬ sound ∧ AllKept homes value after) := by
  obtain ⟨surveyed, found, suits⟩ := founded.surveyed
  rw [load]
  apply Step.meets_get
  intro media size_eq
  rw [size_eq]
  apply Step.meets_bind
  apply Step.meets_ofExcept
  · intro other planned
    rw [found] at planned
    cases planned
    apply Step.meets_bind
    apply (meets_loadAll suits founded.ordered founded.room kept).mono
    · rintro arenas after ⟨-, mounted, writable⟩
      exact Step.meets_pure ⟨rfl, mounted, writable⟩
    · rintro _ after ⟨unsound, -, keptAfter⟩
      exact ⟨unsound, keptAfter⟩
  · intro cause refused
    rw [found] at refused
    cases refused

theorem infoBlocks_ok {layout : Layout} {entropy : Entropy} {internalSize : UInt32}
    {spans : List Span} (drawn : ∀ draw, ∃ uuid, entropy.uuid? draw = some uuid)
    (laid : ∀ span ∈ spans, ∃ geometry,
      Geometry.compute span.size layout.nfree.toNat internalSize.toNat = .ok geometry)
    (draw : Nat) : ∃ infos, infoBlocks layout internalSize entropy draw spans = .ok infos := by
  induction spans generalizing draw with
  | nil => exact ⟨[], rfl⟩
  | cons span rest induction =>
      obtain ⟨geometry, computed⟩ := laid span List.mem_cons_self
      obtain ⟨uuid, draw_eq⟩ := drawn draw
      obtain ⟨more, recursive⟩ := induction (fun later member =>
        laid later (List.mem_cons_of_mem span member)) (draw + 1)
      rw [infoBlocks, computed, draw_eq, recursive]
      exact ⟨_, rfl⟩

theorem plan_ok {layout : Layout} {entropy : Entropy} {internalSize : UInt32} {spans : List Span}
    (sized : dataBlockSize layout.blockSize = .ok internalSize) (enough : layout.totalSize ≤ size)
    (positive : layout.nfree ≠ 0) (cut : Span.plan layout.totalSize maxArena = .ok spans)
    (drawn : ∀ draw, ∃ uuid, entropy.uuid? draw = some uuid)
    (laid : ∀ span ∈ spans, ∃ geometry,
      Geometry.compute span.size layout.nfree.toNat internalSize.toNat = .ok geometry) :
    ∃ infos, plan layout entropy size = .ok (spans.zip infos) ∧ infos.length = spans.length := by
  obtain ⟨infos, computed⟩ := infoBlocks_ok drawn laid 0
  refine ⟨infos, ?_, length_infoBlocks computed⟩
  rw [plan, sized, checkRoom, if_neg (Nat.not_lt.mpr enough), cut]
  simp only [bind, Except.bind, pure, Except.pure, Except.mapError, computed, positive, if_false]

theorem create_ok {layout : Layout} {entropy : Entropy} {media : μ}
    {pairs : List (Span × InfoBlock)} (faultless : Atomic.Faultless media)
    (planned : plan layout entropy (Media.size media) = .ok pairs) :
    ∃ device after, (create layout entropy).on media = (.ok device, after) ∧
      Atomic.Faultless after ∧ device.arenas = freshArenas pairs ∧
      ∀ arena ∈ device.arenas, arena.readOnly = false := by
  have creating : (create layout entropy : Step μ _).Meets (Media.size media) True
      (Atomic.contents media) _ _ := meets_create
  have made := creating media ⟨rfl, rfl, fun _ => faultless⟩
  rcases ran : (create layout entropy).on media with ⟨outcome, after⟩
  rw [ran] at made
  cases outcome with
  | error cause =>
      obtain ⟨_, _, refused⟩ := made
      rw [planned] at refused
      cases refused trivial
  | ok device =>
      obtain ⟨_, shown, _, ⟨other, planned', arenas_eq⟩, _, writable, _⟩ := made
      rw [planned] at planned'
      cases planned'
      exact ⟨device, after, rfl, shown.faultless trivial, arenas_eq, writable⟩

def smallLayout : Layout := ⟨.nil, 1, 512, minArena⟩

def zeroEntropy : Entropy := fun _ => some (Vector.replicate 16 0)

theorem small_planned : ∃ info, plan smallLayout zeroEntropy minArena =
    .ok [(⟨0, minArena⟩, info)] := by
  have laid : ∃ geometry, Geometry.compute minArena 1 512 = .ok geometry := by
    apply Geometry.compute_ok <;> decide
  have sized : dataBlockSize smallLayout.blockSize = .ok 512 := by decide
  have cut : Span.plan smallLayout.totalSize maxArena = .ok [⟨0, minArena⟩] := rfl
  have drawn (draw : Nat) : ∃ uuid, zeroEntropy.uuid? draw = some uuid := ⟨_, rfl⟩
  obtain ⟨infos, planned, length⟩ := plan_ok sized (Nat.le_refl minArena) (by decide) cut drawn
    fun span member => by
      rw [List.mem_singleton.mp member]
      exact laid
  obtain ⟨info, rfl⟩ := List.length_eq_one_iff.mp length
  exact ⟨info, planned⟩

theorem small_created :
    ∃ device after,
      (create smallLayout zeroEntropy).on (Simulated.blank minArena) = (.ok device, after) ∧
      Atomic.Faultless after ∧ ∃ arena ∈ device.arenas, arena.readOnly = false := by
  obtain ⟨info, planned⟩ := small_planned
  have blank : Atomic.Faultless (Simulated.blank minArena) := ⟨rfl, rfl⟩
  obtain ⟨device, after, created, faultless, arenas_eq, writable⟩ := create_ok blank planned
  have member : Arena.fresh ⟨0, minArena⟩ info ∈ device.arenas := by
    rw [arenas_eq]
    exact List.mem_singleton.mpr rfl
  exact ⟨device, after, created, faultless, _, member, writable _ member⟩

end Device

end Remap.Block
