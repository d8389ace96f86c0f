import Remap.Proofs.Block.Device.Mount

/-!
# What a fresh device is mounted as

Laying out a device is one script, that of its arenas one after the other, and what it writes in
the span of an arena is what the arena alone writes. So the contents after it are those of fresh
arenas, and these are mounted as they were laid out, without a change to the media.
-/

namespace Remap.Block

open Remap.Media

structure LaidOut (pairs : List (Span × InfoBlock)) (size : Nat) : Prop where
  described : ∀ pair ∈ pairs, pair.2.Describes pair.1
  apart : pairs.Pairwise fun first second => first.1.stop ≤ second.1.base
  room : ∀ pair ∈ pairs, pair.1.stop ≤ size

namespace Device

variable {layout : Layout} {entropy : Entropy} {size index count : Nat}
  {pairs : List (Span × InfoBlock)} {span : Span} {info : InfoBlock} {contents : Contents}

def createActs (pairs : List (Span × InfoBlock)) : List Act :=
  pairs.flatMap fun pair => Arena.formatActs pair.1 pair.2

def createWrites (pairs : List (Span × InfoBlock)) : List (Nat × List UInt8) :=
  pairs.flatMap fun pair => Arena.formatWrites pair.1 pair.2

def writesBefore (pairs : List (Span × InfoBlock)) (index : Nat) : Nat :=
  (createWrites (pairs.take index)).length

theorem createActs_cons (pair : Span × InfoBlock) (rest : List (Span × InfoBlock)) :
    createActs (pair :: rest) = Arena.formatActs pair.1 pair.2 ++ createActs rest :=
  List.flatMap_cons

theorem createWrites_cons (pair : Span × InfoBlock) (rest : List (Span × InfoBlock)) :
    createWrites (pair :: rest) = Arena.formatWrites pair.1 pair.2 ++ createWrites rest :=
  List.flatMap_cons

theorem writes_createActs (pairs : List (Span × InfoBlock)) :
    Act.writes (createActs pairs) = createWrites pairs := by
  induction pairs with
  | nil => rfl
  | cons pair rest induction =>
      rw [createActs_cons, Act.writes_append, Arena.writes_formatActs, induction,
        createWrites_cons]

theorem plan_laidOut (planned : plan layout entropy size = .ok pairs) : LaidOut pairs size := by
  have founded := plan_founded planned
  obtain ⟨surveyed, -, suits⟩ := founded.surveyed
  have fresh (pair : Span × InfoBlock) (member : pair ∈ pairs) :
      Arena.fresh pair.1 pair.2 ∈ freshArenas pairs := List.mem_map_of_mem member
  refine ⟨fun pair member => described_of_suits suits _ (fresh pair member), ?_,
    fun pair member => founded.room _ (fresh pair member)⟩
  have ordered := founded.ordered
  rw [InOrder, freshArenas, List.pairwise_map] at ordered
  exact ordered

section Run

variable {μ : Type} [Media μ]

theorem formatAll_eq (pairs : List (Span × InfoBlock)) :
    (pairs.mapM fun (span, info) => Arena.format span info : Step μ _) =
      Step.issue (createActs pairs) >>= fun _ => pure (freshArenas pairs) := by
  induction pairs with
  | nil => rfl
  | cons pair rest induction =>
      rw [List.mapM_cons, induction, createActs_cons, Step.issue_append]
      dsimp only
      rw [Arena.format_eq]
      simp only [bind_assoc, pure_bind]
      rfl

variable {media : μ}

theorem create_on (media : μ) : (create layout entropy).on media =
    Step.on (do
      let arenas ← Step.ofExcept (plan layout entropy (Media.size media))
      let arenas ← arenas.mapM fun (span, info) => Arena.format span info
      return Device.mk layout.parent layout.blockSize (internalBlockSize layout.blockSize)
        arenas) media := rfl

theorem create_planned (planned : plan layout entropy (Media.size media) = .ok pairs) :
    (create layout entropy).on media =
      (Step.issue (createActs pairs) >>= fun _ => pure (Device.mk layout.parent layout.blockSize
        (internalBlockSize layout.blockSize) (freshArenas pairs))).on media := by
  have handed : (Step.ofExcept (.ok pairs) : Step μ _) = pure pairs := rfl
  rw [create_on, planned, handed, pure_bind, formatAll_eq]
  simp only [bind_assoc, pure_bind]

theorem create_refused {cause : Error}
    (refused : plan layout entropy (Media.size media) = .error cause) :
    (create layout entropy).on media = (.error cause, media) := by
  rw [create_on, refused]
  rfl

end Run

theorem createWrites_inside (laidOut : LaidOut pairs size) :
    ∀ write ∈ createWrites pairs, ∃ pair ∈ pairs,
      pair.1.base ≤ write.1 ∧ write.1 + write.2.length ≤ pair.1.stop := by
  intro write member
  obtain ⟨pair, pairMember, inside⟩ := List.mem_flatMap.mp member
  exact ⟨pair, pairMember,
    Arena.formatWrites_inside (laidOut.described pair pairMember) write inside⟩

/-- After the first `count` writes the span of an arena is as if the arena had been laid out
alone, with those of the writes that are its own. -/
theorem storeAll_span (laidOut : LaidOut pairs size) (found : pairs[index]? = some (span, info)) :
    (contents.storeAll ((createWrites pairs).take count)).AgreeOn
      (contents.storeAll ((Arena.formatWrites span info).take
        (count - writesBefore pairs index))) span.base span.stop := by
  induction pairs generalizing index count contents with
  | nil => simp at found
  | cons pair rest induction =>
      obtain ⟨behind, apartRest⟩ := List.pairwise_cons.mp laidOut.apart
      have laidOutRest : LaidOut rest size :=
        ⟨fun later member => laidOut.described later (List.mem_cons_of_mem pair member), apartRest,
          fun later member => laidOut.room later (List.mem_cons_of_mem pair member)⟩
      rw [createWrites_cons, List.take_append, Contents.storeAll_append]
      cases index with
      | zero =>
          cases found
          have none : writesBefore ((span, info) :: rest) 0 = 0 := rfl
          rw [none, Nat.sub_zero]
          intro position _ upper
          refine Contents.storeAll_apart fun write member => .inl ?_
          obtain ⟨later, laterMember, lower, -⟩ :=
            createWrites_inside laidOutRest write (List.mem_of_mem_take member)
          have below := behind later laterMember
          dsimp only at below
          omega
      | succ index =>
          have inRest : rest[index]? = some (span, info) := by simpa using found
          have before_eq : writesBefore (pair :: rest) (index + 1) =
              (Arena.formatWrites pair.1 pair.2).length + writesBefore rest index := by
            rw [writesBefore, List.take_succ_cons, createWrites_cons, List.length_append,
              writesBefore]
          rw [before_eq, Nat.sub_add_eq]
          refine (induction laidOutRest inRest).trans (Contents.AgreeOn.storeAll ?_ _)
          intro position lower _
          refine Contents.storeAll_apart fun write member => .inr ?_
          have inside := Arena.formatWrites_inside
            (laidOut.described pair List.mem_cons_self) write (List.mem_of_mem_take member)
          have below := behind (span, info) (List.mem_of_getElem? inRest)
          dsimp only at below
          omega

variable {μ ν : Type} [Media μ] [Atomic μ] [Media ν] [Atomic ν] {media created : μ}
  {device : Device}

/-- A device that was laid out is the one that was planned, and all its writes were made. -/
theorem create_contents (laid : (create layout entropy).on media = (.ok device, created)) :
    ∃ pairs, plan layout entropy (Media.size media) = .ok pairs ∧
      device = ⟨layout.parent, layout.blockSize, internalBlockSize layout.blockSize,
        freshArenas pairs⟩ ∧
      Media.size created = Media.size media ∧
      Atomic.contents created = (Atomic.contents media).storeAll (createWrites pairs) := by
  cases planned : plan layout entropy (Media.size media) with
  | error cause =>
      rw [create_refused planned] at laid
      cases laid
  | ok pairs =>
      have laidOut := plan_laidOut planned
      have issue : (Step.issue (createActs pairs) : Step μ _).Meets (Media.size media) False
          (Atomic.contents media) _ _ := Step.meets_issue fun write member => by
        rw [writes_createActs] at member
        obtain ⟨pair, pairMember, -, upper⟩ := createWrites_inside laidOut write member
        exact Nat.le_trans upper (laidOut.room pair pairMember)
      rw [create_planned planned, Step.on_bind] at laid
      rcases ran : (Step.issue (createActs pairs)).on media with ⟨outcome, after⟩
      rw [ran] at laid
      cases outcome with
      | error cause => cases laid
      | ok value =>
          cases laid
          obtain ⟨contents, shown, same⟩ := issue.of_ok ⟨rfl, rfl, False.elim⟩ ran
          refine ⟨pairs, rfl, rfl, shown.size_eq, ?_⟩
          rw [shown.contents_eq, same, writes_createActs]

theorem create_blockSize (laid : (create layout entropy).on media = (.ok device, created)) :
    device.externalSize = layout.blockSize := by
  obtain ⟨pairs, -, rfl, -, -⟩ := create_contents laid
  rfl

structure FirstBlock (device : Device) (size : Nat) (arena : Arena) (slot : FlogSlot)
    (others : List FlogSlot) : Prop where
  placed : place? device.arenas 0 = some (0, 0)
  found : device.arenas[0]? = some arena
  writable : arena.readOnly = false
  flog_eq : arena.flog = slot :: others
  free : slot.freeBlock < arena.info.internal
  inside : 0 < arena.info.external
  divided : arena.info.Divides arena.span
  room : arena.span.stop ≤ size
  width : arena.info.externalSize = device.externalSize

theorem create_first (laid : (create layout entropy).on media = (.ok device, created)) :
    ∃ arena slot others, device.FirstBlock (Media.size media) arena slot others := by
  obtain ⟨pairs, planned, rfl, -, -⟩ := create_contents laid
  have founded := plan_founded planned
  have laidOut := plan_laidOut planned
  cases pairs with
  | nil =>
      obtain ⟨_, spans, infos, -, -, cut, computed, none⟩ := plan_parts planned
      have lengths := length_infoBlocks computed
      rcases List.zip_eq_nil_iff.mp none.symm with rfl | rfl
      · exact absurd rfl (Span.plan_ne_nil cut)
      · exact absurd (List.length_eq_zero_iff.mp lengths.symm) (Span.plan_ne_nil cut)
  | cons pair rest =>
      obtain ⟨span, info⟩ := pair
      have described : info.Describes span := laidOut.described _ List.mem_cons_self
      have positive := described.nfree_pos
      have enough := described.nfree_le
      obtain ⟨head, others, flog_eq⟩ : ∃ head others, Arena.initialFlog info = head :: others :=
        List.exists_cons_of_length_pos (Arena.length_initialFlog info ▸ positive)
      have nonempty : 0 < info.external.toNat := by omega
      refine ⟨Arena.fresh span info, head, others, ?_⟩
      constructor
      case placed => exact if_pos nonempty
      case found => rfl
      case writable => rfl
      case flog_eq => exact flog_eq
      case free =>
        apply (Arena.initial_owned described).free_lt
        rw [flog_eq]
        exact List.mem_cons_self
      case inside => exact UInt32.lt_iff_toNat_lt.mpr nonempty
      case divided => exact described.divides
      case room => exact laidOut.room _ List.mem_cons_self
      case width => exact founded.sizes _ List.mem_cons_self

end Device

theorem Arena.Cleared.stands {contents : Contents} {span : Span} {info : InfoBlock}
    {expected : Expectation} (cleared : Arena.Cleared span info contents)
    (described : info.Describes span) (accepted : info.mismatch? expected = none)
    (info_eq : contents.load span.base infoBlockBytes = info.toBytes) :
    Stands contents (span, expected) (Arena.fresh span info) := by
  refine ⟨info, ?_, (cleared.mounted_eq described).symm, ?_⟩
  · have found : Arena.infoAt contents span.base expected = .ok info :=
      Arena.infoAt_toBytes info_eq ⟨described.major_eq, described.minor_eq, described.infoSize_eq⟩
        accepted
    rw [Arena.inForce, found]
  · exact Arena.recovered_of_idle (Arena.fresh_unsettled span info)

namespace Device

variable {layout : Layout} {entropy : Entropy} {size : Nat} {pairs : List (Span × InfoBlock)}
  {surveyed : List (Span × Expectation)} {contents : Contents}

theorem storeAll_span_whole (laidOut : LaidOut pairs size) {index : Nat} {span : Span}
    {info : InfoBlock} (found : pairs[index]? = some (span, info)) :
    (contents.storeAll (createWrites pairs)).AgreeOn
      (contents.storeAll (Arena.formatWrites span info)) span.base span.stop := by
  have agree : (contents.storeAll ((createWrites pairs).take ((createWrites pairs).length +
      (writesBefore pairs index + (Arena.formatWrites span info).length)))).AgreeOn _ _ _ :=
    storeAll_span laidOut found
  rw [List.take_of_length_le (by omega), List.take_of_length_le (by omega)] at agree
  exact agree

theorem created_stands (laidOut : LaidOut pairs size)
    (suits : List.Forall₂ (Suits layout.blockSize) surveyed (freshArenas pairs)) :
    List.Forall₂ (Stands (contents.storeAll (createWrites pairs))) surveyed
      (freshArenas pairs) := by
  rw [freshArenas, List.forall₂_map_right_iff] at suits ⊢
  obtain ⟨lengths, suits⟩ := List.forall₂_iff_get.mp suits
  refine List.forall₂_iff_get.mpr ⟨lengths, fun index inside member => ?_⟩
  have suited := suits index inside member
  have found : pairs[index]? = some (pairs.get ⟨index, member⟩) :=
    List.getElem?_eq_getElem member
  generalize surveyed.get ⟨index, inside⟩ = pair at suited ⊢
  generalize pairs.get ⟨index, member⟩ = planned at suited found ⊢
  obtain ⟨place, expected⟩ := pair
  obtain ⟨span, info⟩ := planned
  obtain rfl : span = place := suited.span_eq
  have described : info.Describes span := suited.described
  have order := Arena.format_regions described
  have agree : (contents.storeAll (createWrites pairs)).AgreeOn _ _ _ :=
    storeAll_span_whole laidOut found
  refine Arena.Cleared.stands ?_ described suited.accepted ?_
  · exact (Arena.formatted_cleared described contents).congr described
      (agree.symm.mono (by omega) (by omega))
  · rw [Contents.load_congr agree (Nat.le_refl _) (by omega)]
    exact Arena.formatted_info described contents

variable {μ ν : Type} [Media μ] [Atomic μ] [Media ν] [Atomic ν]

theorem load_created {layout : Layout} {entropy : Entropy} {media created : μ} {healed : ν}
    {device : Device} (laid : (create layout entropy).on media = (.ok device, created))
    (faultless : Atomic.Faultless healed) (size_eq : Media.size healed = Media.size created)
    (contents_eq : Atomic.contents healed = Atomic.contents created) :
    ∃ last, (load layout.parent layout.totalSize layout.blockSize).on healed =
        (.ok device, last) ∧
      Atomic.contents last = Atomic.contents healed := by
  obtain ⟨pairs, planned, rfl, created_size, written⟩ := create_contents laid
  obtain ⟨surveyed, found, suits⟩ := (plan_founded planned).surveyed
  apply load_stands faultless
  · rw [size_eq, created_size]
    exact found
  · rw [contents_eq, written]
    exact created_stands (plan_laidOut planned) suits

/-- **What is laid out is mounted.** The device that was laid out is mounted again, from the same
contents without faults and with the same parameters, as it was returned: all arenas with their
places, info blocks and flogs, each of them taking writes. No byte of the media changes. -/
theorem created_mounts {layout : Layout} {entropy : Entropy} {media created : μ} {healed : ν}
    {device : Device} (laid : (create layout entropy).on media = (.ok device, created))
    (faultless : Atomic.Faultless healed) (size_eq : Media.size healed = Media.size created)
    (contents_eq : Atomic.contents healed = Atomic.contents created) :
    (∀ arena ∈ device.arenas, arena.readOnly = false) ∧
      ∃ last, (load layout.parent layout.totalSize layout.blockSize).on healed =
          (.ok device, last) ∧
        Atomic.contents last = Atomic.contents healed := by
  refine ⟨?_, load_created laid faultless size_eq contents_eq⟩
  obtain ⟨pairs, -, rfl, -, -⟩ := create_contents laid
  exact fresh_writable pairs

theorem created_mounts_small :
    ∃ (device : Device) (created : Simulated),
      (create smallLayout zeroEntropy).on (Simulated.blank minArena) = (.ok device, created) ∧
      Atomic.Faultless created ∧ (∀ arena ∈ device.arenas, arena.readOnly = false) ∧
      ∃ last, (load smallLayout.parent smallLayout.totalSize smallLayout.blockSize).on created =
          (.ok device, last) ∧
        Atomic.contents last = Atomic.contents created := by
  obtain ⟨device, created, laid, faultless, -⟩ := small_created
  exact ⟨device, created, laid, faultless, created_mounts laid faultless rfl rfl⟩

end Device

end Remap.Block
