import Remap.Proofs.Block.Device.Outcome
import Remap.Proofs.Block.Device.Ownership

/-!
# Laying out cut short

When the power fails while a device is laid out, each arena is whole or it is refused, as long
as its map and its flog are not read through an info block that was on the media before. The
old info blocks stay in place until the new ones replace them, so where they are still accepted
this has to be asked for: that the arena was not reached, or that the map and the flog of an
arena with the same layout were already complete.
-/

namespace Remap.Block

open Remap.Media

namespace Arena

variable {span : Span} {info : InfoBlock} {home arena : Arena} {contents other : Contents}

theorem owned_congr (divided : arena.info.Divides arena.span)
    (agree : contents.AgreeOn other arena.mapStart arena.dataStart) :
    arena.owned contents = arena.owned other := by
  rw [owned, owned]
  congr 1
  apply List.map_congr_left
  intro lba member
  rw [entryAt_congr divided agree (ofNat_lt_of_lt (List.mem_range.mp member))]

def FreshOn (contents : Contents) (span : Span) (arena : Arena) : Prop :=
  ∃ info : InfoBlock, info.Describes span ∧ arena = fresh span info ∧ Cleared span info contents

theorem FreshOn.writable (isFresh : FreshOn contents span arena) : arena.readOnly = false := by
  obtain ⟨info, -, rfl, -⟩ := isFresh
  rfl

theorem FreshOn.owned_perm (isFresh : FreshOn contents span arena) :
    (arena.owned contents).Perm (List.range arena.info.internal.toNat) := by
  obtain ⟨info, described, rfl, cleared⟩ := isFresh
  exact Arena.owned_perm described (cleared.settled described) (initial_owned described)

theorem infoAt_eq {offset : Nat} {expected : Expectation} {used : InfoBlock}
    (stored : contents.load offset infoBlockBytes = info.toBytes) (described : info.Describes span)
    (found : infoAt contents offset expected = .ok used) : used = info := by
  obtain ⟨decoded, -⟩ := infoAt_ok_iff.mp found
  rw [stored, info.ofBytes_toBytes described.major_eq described.minor_eq
    described.infoSize_eq] at decoded
  cases decoded
  rfl

theorem Durable.accepted_of_inForce {value : UInt32 → List UInt8} {target : UInt32 → UInt32}
    {head : FlogSlot} {others : List FlogSlot} {expected : Expectation} {used : InfoBlock}
    {held : Contents} (durable : home.Durable value target head others contents)
    (chosen : inForce home.span expected contents = .ok (used, held)) :
    home.info.mismatch? expected = none := by
  have same : used = home.info := by
    rcases inForce_ok chosen with ⟨found, -⟩ | ⟨-, found, -⟩
    · exact infoAt_eq durable.info_eq durable.described found
    · exact infoAt_eq durable.copy_eq durable.described found
  rw [← same]
  exact (inForce_accepted chosen).2

/-- If an info block from before is in use after `count` writes of a new layout, it says what the
new one does but for its identity, and the map and the flog are complete. -/
def Harmless (before : Contents) (span : Span) (expected : Expectation) (info : InfoBlock)
    (count : Nat) : Prop :=
  ∀ old, infoAt before span.base expected = .ok old ∨
      infoAt before (span.stop - infoBlockBytes) expected = .ok old →
    count ≤ (clearWrites span info).length + 1 →
    old = { info with uuid := old.uuid } ∧ (clearWrites span info).length ≤ count

theorem harmless_of_refused {expected : Expectation} {count : Nat}
    (unusable : ¬ Usable contents span expected) : Harmless contents span expected info count :=
  fun old usable => absurd (usable.imp (⟨old, ·⟩) (⟨old, ·⟩)) unusable

theorem harmless_of_complete {expected : Expectation} {count : Nat}
    (enough : (formatWrites span info).length ≤ count) :
    Harmless contents span expected info count := by
  intro old _ few
  rw [length_formatWrites] at enough
  omega

theorem harmless_of_kept {value : UInt32 → List UInt8} {expected : Expectation} {count : Nat}
    (kept : home.Kept value contents)
    (info_eq : home.info = { info with uuid := home.info.uuid })
    (enough : (clearWrites home.span info).length ≤ count) :
    Harmless contents home.span expected info count := by
  obtain ⟨target, head, others, durable⟩ := kept
  intro old usable _
  have old_eq : old = home.info := by
    rcases usable with primary | copy
    · exact infoAt_eq durable.info_eq durable.described primary
    · exact infoAt_eq durable.copy_eq durable.described copy
  rw [old_eq]
  exact ⟨info_eq, enough⟩

theorem Harmless.cleared {expected : Expectation} {used : InfoBlock} {held : Contents} {count : Nat}
    (harmless : Harmless contents span expected info count) (described : info.Describes span)
    (accepted : info.mismatch? expected = none)
    (chosen : inForce span expected (contents.storeAll ((formatWrites span info).take count)) =
      .ok (used, held)) :
    used.Describes span ∧
      Cleared span used (contents.storeAll ((formatWrites span info).take count)) := by
  rcases inForce_cut contents described accepted chosen with ⟨rfl, more⟩ | ⟨few, old⟩
  · exact ⟨described, cut_cleared contents described (Nat.le_of_lt more)⟩
  · obtain ⟨same, enough⟩ := harmless used old few
    have cleared := cut_cleared contents described enough
    rw [same]
    exact ⟨{ described with }, { cleared with }⟩

end Arena

namespace MountedFrom

variable {before after : Contents} {pair : Span × Expectation} {arena home : Arena} {size : Nat}

theorem fresh_of_cleared (mounted : MountedFrom before after pair arena)
    (cleared : ∀ used held, Arena.inForce pair.1 pair.2 before = .ok (used, held) →
      used.Describes pair.1 ∧ Arena.Cleared pair.1 used before) :
    Arena.FreshOn after pair.1 arena := by
  obtain ⟨used, held, chosen, rfl, last⟩ := mounted
  obtain ⟨described, cleared⟩ := cleared used held chosen
  have order := Arena.format_regions described
  have outside := Arena.inForce_outside chosen
  have clearedHeld : Arena.Cleared pair.1 used held :=
    cleared.congr described (outside.agreeOn (.inr (Nat.le_refl _))).symm
  rw [clearedHeld.mounted_eq described] at last ⊢
  rw [Arena.recovered_of_idle (Arena.fresh_unsettled _ _)] at last
  exact ⟨used, described, rfl, clearedHeld.congr described (last.mono (by omega) (by omega))⟩

theorem owned_of_kept {μ : Type} [Media μ] [Atomic μ] {media : μ}
    {value : UInt32 → List UInt8} (mounted : MountedFrom before after (home.span, pair.2) arena)
    (framed : pair.2.Frames home.span size) (kept : home.Kept value before)
    (writable : arena.readOnly = false) (shown : Shows media size True before) :
    (arena.owned after).Perm (List.range arena.info.internal.toNat) := by
  obtain ⟨target, head, others, durable⟩ := kept
  obtain ⟨used, held, chosen, rfl, last⟩ := mounted
  have load : (Arena.load home.span pair.2 : Step μ _).Meets size True before _ _ :=
    Arena.load_holds durable (durable.accepted_of_inForce chosen) framed.room
  have mount : (Arena.load home.span pair.2 : Step μ _).Meets size True before _ _ :=
    Arena.meets_mounted framed
  have loaded := load media shown
  have made := mount media shown
  rcases ran : (Arena.load home.span pair.2).on media with ⟨outcome, final⟩
  rw [ran] at loaded made
  cases outcome with
  | error cause =>
      obtain ⟨_, _, unsound, -⟩ := loaded
      exact absurd trivial unsound
  | ok arena =>
      obtain ⟨contents, shownFinal, -, holds, -⟩ := loaded
      obtain ⟨same, shownSame, _, _, again, rfl, rfl⟩ := made
      rw [chosen] at again
      cases again
      have contents_eq := shownFinal.contents_eq.symm.trans shownSame.contents_eq
      rw [contents_eq] at holds
      have divided := Arena.mounted_divides held
        (framed.divides used (Arena.inForce_accepted chosen).2)
      have order := Arena.region_order divided
      rw [Arena.mounted_span] at order
      dsimp only at last
      rw [← Arena.owned_congr divided (last.mono (by omega) (by omega))]
      exact holds.owned_perm writable

end MountedFrom

/-- What was on a media before: nothing, or a device with the arenas `homes` that was laid out and
then used, whatever accesses failed. -/
inductive Former (size : Nat) : List Arena → Contents → Prop
  | blank : Former size [] fun _ => 0
  | used {ν : Type} [Media ν] [Atomic ν] {layout : Layout} {entropy : Entropy} {media created : ν}
      {device : Device} (size_eq : Media.size media = size)
      (laid : (Device.create layout entropy).on media = (.ok device, created))
      (calls : List Call) :
      Former size device.arenas
        (Atomic.contents (Session.run layout ⟨created, some device⟩ calls).2.media)

theorem AllKept.kept_of_mem {homes : List Arena} {value : Nat → List UInt8} {contents : Contents}
    (kept : AllKept homes value contents) :
    ∀ home ∈ homes, ∃ value : UInt32 → List UInt8, home.Kept value contents := by
  induction homes generalizing value with
  | nil => simp
  | cons first rest induction =>
      intro home member
      rcases List.mem_cons.mp member with rfl | later
      · exact ⟨_, kept.1⟩
      · exact induction kept.2 home later

theorem Former.kept {size : Nat} {homes : List Arena} {contents : Contents}
    (former : Former size homes contents) :
    ∀ home ∈ homes, ∃ value : UInt32 → List UInt8, home.Kept value contents := by
  cases former with
  | blank => simp
  | used size_eq laid calls =>
      obtain ⟨founded, holds⟩ := Session.holds_created laid
      exact (Session.run_holds founded holds calls).allKept.2.kept_of_mem

/-- The map and the flog of the arena at `index`, if it is mounted after `count` writes of a new
layout, are those that the info block in use was laid out with. -/
inductive Undisputed (layout : Layout) (entropy : Entropy) (size : Nat) (homes : List Arena)
    (before : Contents) (count index : Nat) (pair : Span × Expectation) : Prop
  | refused (unusable : ¬ Arena.Usable before pair.1 pair.2)
  | unreached {home : Arena} (member : home ∈ homes) (span_eq : home.span = pair.1)
      (few : ∀ pairs, Device.plan layout entropy size = .ok pairs →
        count ≤ Device.writesBefore pairs index)
  | relaid {pairs : List (Span × InfoBlock)} {info : InfoBlock} {home : Arena}
      (planned : Device.plan layout entropy size = .ok pairs)
      (found : pairs[index]? = some (pair.1, info)) (member : home ∈ homes)
      (span_eq : home.span = pair.1) (info_eq : home.info = { info with uuid := home.info.uuid })
      (enough : Device.writesBefore pairs index + (Arena.clearWrites pair.1 info).length ≤ count)
  | complete {pairs : List (Span × InfoBlock)}
      (planned : Device.plan layout entropy size = .ok pairs)
      (enough : Device.writesBefore pairs (index + 1) ≤ count)

theorem not_usable_zeros (span : Span) (expected : Expectation) :
    ¬ Arena.Usable (fun _ => 0) span expected := by
  have zeros (offset : Nat) : Contents.load (fun _ => 0) offset infoBlockBytes =
      List.replicate infoBlockBytes 0 := by
    rw [Contents.load, List.map_const', List.length_range']
  rintro (⟨info, found⟩ | ⟨info, found⟩)
  all_goals
    obtain ⟨decoded, -⟩ := Arena.infoAt_ok_iff.mp found
    rw [zeros, InfoBlock.ofBytes_zeros] at decoded
    cases decoded

namespace Device

variable {layout : Layout} {entropy : Entropy} {pairs : List (Span × InfoBlock)} {index count : Nat}
  {span : Span} {info : InfoBlock}

theorem writesBefore_succ (found : pairs[index]? = some (span, info)) :
    writesBefore pairs (index + 1) =
      writesBefore pairs index + (Arena.formatWrites span info).length := by
  rw [writesBefore, writesBefore, List.take_add_one, found, createWrites, createWrites,
    List.flatMap_append, List.length_append]
  simp

theorem writesBefore_le (pairs : List (Span × InfoBlock)) (index : Nat) :
    writesBefore pairs index ≤ (createWrites pairs).length := by
  have whole : createWrites (pairs.take index) ++ createWrites (pairs.drop index) =
      createWrites pairs := by
    rw [createWrites, createWrites, ← List.flatMap_append, List.take_append_drop]
    rfl
  rw [writesBefore, ← whole, List.length_append]
  exact Nat.le_add_right _ _

section Planned

variable {size : Nat} {surveyed : List (Span × Expectation)} {pair : Span × Expectation}
  {before after : Contents} {arena : Arena} (planned : plan layout entropy size = .ok pairs)
  (found : survey layout.parent layout.totalSize layout.blockSize size = .ok surveyed)
  (expects : surveyed[index]? = some pair)

include planned found expects

/-- An arena as a survey of the device sees it was planned, and in its span the first writes of the
layout are the first ones of its own. -/
theorem plan_at (before : Contents) (count : Nat) :
    ∃ info, pairs[index]? = some (pair.1, info) ∧ info.Describes pair.1 ∧
      info.mismatch? pair.2 = none ∧
      (before.storeAll ((createWrites pairs).take count)).AgreeOn
        (before.storeAll ((Arena.formatWrites pair.1 info).take
          (count - writesBefore pairs index))) pair.1.base pair.1.stop := by
  obtain ⟨others, again, suits⟩ := (plan_founded planned).surveyed
  rw [found] at again
  cases again
  have related := List.forall₂_map_right_iff.mp suits
  obtain ⟨inside, -⟩ := List.getElem?_eq_some_iff.mp expects
  obtain ⟨⟨span, info⟩, inPlan⟩ : ∃ planned, pairs[index]? = some planned :=
    ⟨_, List.getElem?_eq_getElem (related.length_eq ▸ inside)⟩
  have suited := forall₂_at related expects inPlan
  obtain rfl : span = pair.1 := suited.span_eq
  exact ⟨info, inPlan, suited.described, suited.accepted,
    storeAll_span (plan_laidOut planned) inPlan⟩

/-- After the first writes of a new layout a fresh arena is mounted, if the info blocks from before
do no harm. -/
theorem fresh_of_cut
    (harmless : ∀ info, pairs[index]? = some (pair.1, info) →
      Arena.Harmless before pair.1 pair.2 info (count - writesBefore pairs index))
    (mounted : MountedFrom (before.storeAll ((createWrites pairs).take count)) after pair arena) :
    Arena.FreshOn after pair.1 arena := by
  obtain ⟨framed, -⟩ := survey_framed found
  obtain ⟨info, inPlan, described, accepted, agree⟩ := plan_at planned found expects before count
  have alone := mounted.of_before (framed pair (List.mem_of_getElem? expects)) agree.symm
  exact alone.fresh_of_cleared fun used held =>
    (harmless info inPlan).cleared described accepted

theorem usable_of_cut (inPlan : pairs[index]? = some (pair.1, info))
    (enough : writesBefore pairs index + (Arena.clearWrites pair.1 info).length < count) :
    Arena.Usable (before.storeAll ((createWrites pairs).take count)) pair.1 pair.2 := by
  obtain ⟨framed, -⟩ := survey_framed found
  obtain ⟨other, again, described, accepted, agree⟩ := plan_at planned found expects before count
  rw [inPlan] at again
  cases again
  obtain ⟨-, same⟩ :=
    Arena.infoAt_agree (framed pair (List.mem_of_getElem? expects)).large agree pair.2
  have copied := @Arena.cut_copy before _ _ (count - writesBefore pairs index) described
  rw [if_pos (by omega)] at copied
  refine .inr ⟨info, ?_⟩
  rw [same]
  exact Arena.infoAt_toBytes copied
    ⟨described.major_eq, described.minor_eq, described.infoSize_eq⟩ accepted

end Planned

section Cut

variable {media cut : Simulated} {outcome : Except Error Device} (powered : Step.Powered media count)
  (created : (create layout entropy).on media = (outcome, cut))

include powered created

/-- When the power fails after some writes of a new layout, these are the ones that were made. -/
theorem create_cut (planned : plan layout entropy (Media.size media) = .ok pairs) :
    Media.size cut = Media.size media ∧
      Atomic.contents cut = (Atomic.contents media).storeAll ((createWrites pairs).take count) := by
  have laidOut := plan_laidOut planned
  have inside : ∀ write ∈ Act.writes (createActs pairs),
      write.1 + write.2.length ≤ Media.size media := by
    intro write member
    rw [writes_createActs] at member
    obtain ⟨pair, pairMember, -, upper⟩ := createWrites_inside laidOut write member
    exact Nat.le_trans upper (laidOut.room pair pairMember)
  have made := Step.issue_cut powered inside
  rw [writes_createActs] at made
  rw [create_planned planned, Step.on_bind] at created
  rcases ran : (Step.issue (createActs pairs)).on media with ⟨issued, after⟩
  rw [ran] at created made
  cases issued with
  | error cause =>
      cases created
      exact made
  | ok value =>
      cases created
      exact made

theorem create_unreached {surveyed : List (Span × Expectation)}
    {pair : Span × Expectation}
    (found : survey layout.parent layout.totalSize layout.blockSize (Media.size media) =
      .ok surveyed)
    (expects : surveyed[index]? = some pair)
    (few : ∀ pairs, plan layout entropy (Media.size media) = .ok pairs →
      count ≤ writesBefore pairs index) :
    (Atomic.contents media).AgreeOn (Atomic.contents cut) pair.1.base pair.1.stop := by
  cases planned : plan layout entropy (Media.size media) with
  | error cause =>
      rw [create_refused planned] at created
      cases created
      exact fun _ _ _ => rfl
  | ok pairs =>
      obtain ⟨info, -, -, -, agree⟩ :=
        plan_at planned found expects (Atomic.contents media) count
      rw [Nat.sub_eq_zero_of_le (few pairs planned), List.take_zero] at agree
      rw [(create_cut powered created planned).2]
      exact agree.symm

theorem create_size : Media.size cut = Media.size media := by
  cases planned : plan layout entropy (Media.size media) with
  | error cause =>
      rw [create_refused planned] at created
      cases created
      rfl
  | ok pairs => exact (create_cut powered created planned).1

end Cut

/-- **Laying out cut short.** After any number of writes of a new layout, on a blank media or on one
that holds another device, the arenas that are mounted and take writes own every data block once,
if an info block from before is not in use for an arena that was only begun. -/
theorem interrupted_owned {layout : Layout} {entropy : Entropy} {count index : Nat}
    {media cut after : Simulated} {outcome : Except Error Device} {homes : List Arena}
    {device : Device} {surveyed : List (Span × Expectation)} {pair : Span × Expectation}
    {arena : Arena} (former : Former (Media.size media) homes (Atomic.contents media))
    (powered : Step.Powered media count)
    (created : (create layout entropy).on media = (outcome, cut))
    (ran : (load layout.parent layout.totalSize layout.blockSize).on cut.reboot =
      (.ok device, after))
    (mounted : device.arenas[index]? = some arena) (writable : arena.readOnly = false)
    (found : survey layout.parent layout.totalSize layout.blockSize (Media.size media) =
      .ok surveyed)
    (expects : surveyed[index]? = some pair)
    (undisputed : Atomic.contents media = (fun _ => 0) ∨
      Undisputed layout entropy (Media.size media) homes (Atomic.contents media) count index
        pair) :
    (arena.owned (Atomic.contents after)).Perm (List.range arena.info.internal.toNat) := by
  have sound : Undisputed layout entropy (Media.size media) homes (Atomic.contents media) count
      index pair := by
    rcases undisputed with zero | sound
    · refine .refused ?_
      rw [zero]
      exact not_usable_zeros pair.1 pair.2
    · exact sound
  have healed := Simulated.reboot_shows cut
  obtain ⟨others, again, -, -, -, all, -⟩ := load_mounted (healed.faultless trivial) ran
  have size_eq : Media.size cut = Media.size media := create_size powered created
  rw [healed.size_eq, size_eq, found] at again
  cases again
  have here := forall₂_at all expects mounted
  rw [healed.contents_eq] at here
  have framed := (survey_framed found).1 pair (List.mem_of_getElem? expects)
  rw [← size_eq] at framed
  cases sound with
  | refused unusable =>
      cases planned : plan layout entropy (Media.size media) with
      | error cause =>
          rw [create_refused planned] at created
          cases created
          obtain ⟨info, held, chosen, -⟩ := here
          exact absurd (Arena.usable_of_inForce chosen) unusable
      | ok pairs =>
          rw [(create_cut powered created planned).2] at here
          exact (fresh_of_cut planned found expects
            (fun info _ => Arena.harmless_of_refused unusable) here).owned_perm
  | @unreached home member span_eq few =>
      -- no write has come to the span, so the former arena is mounted, with its own map
      obtain ⟨value, kept⟩ := former.kept home member
      have unchanged := create_unreached powered created found expects few
      rw [← span_eq] at unchanged
      have pair_eq : pair = (home.span, pair.2) := by rw [span_eq]
      rw [pair_eq] at here framed
      exact here.owned_of_kept framed (kept.congr unchanged) writable healed
  | @relaid pairs info home planned inPlan member span_eq info_eq enough =>
      obtain ⟨value, kept⟩ := former.kept home member
      rw [(create_cut powered created planned).2] at here
      refine (fresh_of_cut planned found expects (fun other again => ?_) here).owned_perm
      rw [inPlan] at again
      cases again
      rw [← span_eq] at enough ⊢
      exact Arena.harmless_of_kept kept info_eq (by omega)
  | complete planned enough =>
      rw [(create_cut powered created planned).2] at here
      refine (fresh_of_cut planned found expects (fun info inPlan => ?_) here).owned_perm
      rw [writesBefore_succ inPlan] at enough
      exact Arena.harmless_of_complete (by omega)

/-- If only the last write is lost, and no info block was there before, all arenas are mounted as
fresh ones. -/
theorem cut_mounts {media cut : Simulated} {outcome : Except Error Device}
    {surveyed : List (Span × Expectation)} (powered : Step.Powered media count)
    (created : (create layout entropy).on media = (outcome, cut))
    (planned : plan layout entropy (Media.size media) = .ok pairs)
    (found : survey layout.parent layout.totalSize layout.blockSize (Media.size media) =
      .ok surveyed)
    (unusable : ∀ pair ∈ surveyed, ¬ Arena.Usable (Atomic.contents media) pair.1 pair.2)
    (enough : (createWrites pairs).length ≤ count + 1) :
    ∃ device after,
      (load layout.parent layout.totalSize layout.blockSize).on cut.reboot = (.ok device, after) ∧
      List.Forall₂ (fun pair arena => Arena.FreshOn (Atomic.contents after) pair.1 arena) surveyed
        device.arenas := by
  have healed := Simulated.reboot_shows cut
  obtain ⟨size_eq, contents_eq⟩ := create_cut powered created planned
  have foundCut := found
  rw [← size_eq, ← healed.size_eq] at foundCut
  have usable : ∀ pair ∈ surveyed, Arena.Usable (Atomic.contents cut) pair.1 pair.2 := by
    intro pair member
    obtain ⟨index, expects⟩ := List.getElem?_of_mem member
    obtain ⟨info, inPlan, -⟩ := plan_at planned found expects (Atomic.contents media) count
    have next := writesBefore_succ inPlan
    have bound := writesBefore_le pairs (index + 1)
    rw [Arena.length_formatWrites] at next
    rw [contents_eq]
    exact usable_of_cut planned found expects inPlan (by omega)
  rw [← healed.contents_eq] at usable
  obtain ⟨device, after, ran⟩ := (load_ok_iff (healed.faultless trivial) foundCut).mpr usable
  refine ⟨device, after, ran, ?_⟩
  obtain ⟨others, again, -, -, -, mounted, -⟩ := load_mounted (healed.faultless trivial) ran
  rw [foundCut] at again
  cases again
  rw [healed.contents_eq, contents_eq] at mounted
  obtain ⟨lengths, each⟩ := List.forall₂_iff_get.mp mounted
  refine List.forall₂_iff_get.mpr ⟨lengths, fun index inside member => ?_⟩
  exact fresh_of_cut planned found (List.getElem?_eq_getElem inside)
    (fun _ _ => Arena.harmless_of_refused (unusable _ (List.get_mem _ _)))
    (each index inside member)

/-- The power fails between the copy of the info block and the info block itself. -/
theorem interrupted_owned_small :
    ∃ (info : InfoBlock) (start cut after : Simulated) (outcome : Except Error Device)
      (device : Device) (surveyed : List (Span × Expectation)) (pair : Span × Expectation)
      (arena : Arena),
      plan smallLayout zeroEntropy minArena = .ok [(⟨0, minArena⟩, info)] ∧
      start = (Simulated.blank minArena).setPlan
        { writeBudget := some ((Arena.clearWrites ⟨0, minArena⟩ info).length + 1) } ∧
      (create smallLayout zeroEntropy).on start = (outcome, cut) ∧
      (load .nil minArena 512).on cut.reboot = (.ok device, after) ∧
      device.arenas[0]? = some arena ∧ arena.readOnly = false ∧
      survey .nil minArena 512 minArena = .ok surveyed ∧ surveyed[0]? = some pair ∧
      Atomic.contents start = (fun _ => 0) ∧
      (arena.owned (Atomic.contents after)).Perm (List.range arena.info.internal.toNat) := by
  obtain ⟨info, planned⟩ := small_planned
  obtain ⟨start, start_eq⟩ : ∃ start, start = (Simulated.blank minArena).setPlan
    { writeBudget := some ((Arena.clearWrites ⟨0, minArena⟩ info).length + 1) } := ⟨_, rfl⟩
  have size_eq : Media.size start = minArena := by
    rw [start_eq]
    rfl
  have blank : Atomic.contents start = fun _ => 0 := by
    rw [start_eq]
    exact funext fun position => Image.byteAt_blank minArena position
  have powered : Step.Powered start ((Arena.clearWrites ⟨0, minArena⟩ info).length + 1) :=
    start_eq ▸ .setPlan _ _
  rcases created : (create smallLayout zeroEntropy).on start with ⟨outcome, cut⟩
  have planStart : plan smallLayout zeroEntropy (Media.size start) =
      .ok [(⟨0, minArena⟩, info)] := by
    rw [size_eq]
    exact planned
  -- the survey has the one arena that was planned
  obtain ⟨surveyed, found, suits⟩ := (plan_founded planStart).surveyed
  obtain ⟨pair, rest, suited, none, rfl⟩ := List.forall₂_cons_right_iff.mp suits
  obtain rfl := List.forall₂_nil_right_iff.mp none
  obtain ⟨device, after, ran, isFresh⟩ := cut_mounts powered created planStart found
    (fun pair _ => blank ▸ not_usable_zeros pair.1 pair.2) (by
      rw [createWrites_cons, List.length_append, Arena.length_formatWrites]
      exact Nat.le_refl _)
  obtain ⟨arena, others, here, none, arenas_eq⟩ := List.forall₂_cons_left_iff.mp isFresh
  have mounted : device.arenas[0]? = some arena := by rw [arenas_eq]; rfl
  have writable := here.writable
  have expects : [pair][0]? = some pair := rfl
  have former : Former (Media.size start) [] (Atomic.contents start) := by
    rw [blank]
    exact .blank
  refine ⟨info, start, cut, after, outcome, device, [pair], pair, arena, planned, start_eq,
    created, ran, mounted, writable, ?_, expects, blank, ?_⟩
  · rw [size_eq] at found
    exact found
  · exact interrupted_owned former powered created ran mounted writable found expects (.inl blank)

end Device

end Remap.Block
