import Remap.Proofs.Block.Arena.Load

/-!
# What mounting an arena does

On a media without faults mounting is a function of the contents, whatever these are. The
info block in use is chosen and, if it is the copy, stored at the start of the arena; the
flog that it leads to is decoded, or the arena takes no writes; and each slot that describes
a change of the map is replayed. Nothing but the info blocks can make it fail.
-/

namespace Remap.Block

open Remap.Media

structure Expectation.Frames (expected : Expectation) (span : Span) (size : Nat) : Prop where
  large : infoBlockBytes ≤ span.size
  room : span.stop ≤ size
  divides : ∀ info : InfoBlock, info.mismatch? expected = none → info.Divides span

namespace Arena

variable {contents left right before : Contents} {offset size start stop : Nat} {span : Span}
  {expected : Expectation} {info : InfoBlock} {held : Contents}

def infoAt (contents : Contents) (offset : Nat) (expected : Expectation) :
    Except InfoBlockError InfoBlock := do
  let info ← InfoBlock.ofBytes (contents.load offset infoBlockBytes)
  info.validate expected
  return info

theorem infoAt_ok_iff : infoAt contents offset expected = .ok info ↔
    InfoBlock.ofBytes (contents.load offset infoBlockBytes) = .ok info ∧
      info.mismatch? expected = none := by
  rw [infoAt]
  cases decoded : InfoBlock.ofBytes (contents.load offset infoBlockBytes) with
  | error cause =>
      constructor
      · rintro ⟨⟩
      · rintro ⟨⟨⟩, -⟩
  | ok found =>
      change (found.validate expected >>= fun _ => .ok found) = .ok info ↔ _
      rw [InfoBlock.validate]
      cases compared : found.mismatch? expected with
      | some cause =>
          constructor
          · rintro ⟨⟩
          · rintro ⟨⟨⟩, accepted⟩
            rw [compared] at accepted
            cases accepted
      | none =>
          constructor
          · rintro ⟨⟩
            exact ⟨rfl, compared⟩
          · rintro ⟨⟨⟩, -⟩
            rfl

theorem infoAt_congr
    (same : left.load offset infoBlockBytes = right.load offset infoBlockBytes) :
    infoAt left offset expected = infoAt right offset expected := by
  rw [infoAt, infoAt, same]

theorem infoAt_toBytes (stored : contents.load offset infoBlockBytes = info.toBytes)
    (current : info.major = InfoBlock.majorVersion ∧ info.minor = InfoBlock.minorVersion ∧
      info.infoSize.toNat = infoBlockBytes)
    (accepted : info.mismatch? expected = none) : infoAt contents offset expected = .ok info := by
  rw [infoAt_ok_iff, stored]
  exact ⟨info.ofBytes_toBytes current.1 current.2.1 current.2.2, accepted⟩

def inForce (span : Span) (expected : Expectation) (contents : Contents) :
    Except Error (InfoBlock × Contents) :=
  match infoAt contents span.base expected with
  | .ok info => .ok (info, contents)
  | .error primary =>
      match infoAt contents (span.stop - infoBlockBytes) expected with
      | .ok info => .ok (info, contents.store span.base info.toBytes)
      | .error backup => .error (.infoBlocks span.base primary backup)

theorem inForce_ok (chosen : inForce span expected contents = .ok (info, held)) :
    (infoAt contents span.base expected = .ok info ∧ held = contents) ∨
      (∃ cause, infoAt contents span.base expected = .error cause) ∧
        infoAt contents (span.stop - infoBlockBytes) expected = .ok info ∧
        held = contents.store span.base info.toBytes := by
  unfold inForce at chosen
  split at chosen
  next found =>
    cases chosen
    exact .inl ⟨found, rfl⟩
  next cause refused =>
    split at chosen
    next found =>
      cases chosen
      exact .inr ⟨⟨cause, refused⟩, found, rfl⟩
    next => cases chosen

theorem inForce_error {cause : Error} (refused : inForce span expected contents = .error cause) :
    ∃ primary backup, infoAt contents span.base expected = .error primary ∧
      infoAt contents (span.stop - infoBlockBytes) expected = .error backup ∧
      cause = .infoBlocks span.base primary backup := by
  unfold inForce at refused
  split at refused
  next => cases refused
  next primary first =>
    split at refused
    next => cases refused
    next backup second =>
      cases refused
      exact ⟨primary, backup, first, second, rfl⟩

theorem inForce_accepted (chosen : inForce span expected contents = .ok (info, held)) :
    (info.major = InfoBlock.majorVersion ∧ info.minor = InfoBlock.minorVersion ∧
      info.infoSize.toNat = infoBlockBytes) ∧ info.mismatch? expected = none := by
  rcases inForce_ok chosen with ⟨found, -⟩ | ⟨-, found, -⟩
  all_goals
    obtain ⟨decoded, accepted⟩ := infoAt_ok_iff.mp found
    exact ⟨(InfoBlock.ofBytes_ok decoded).2.2.2, accepted⟩

def Usable (contents : Contents) (span : Span) (expected : Expectation) : Prop :=
  (∃ info, infoAt contents span.base expected = .ok info) ∨
    ∃ info, infoAt contents (span.stop - infoBlockBytes) expected = .ok info

theorem usable_of_inForce (chosen : inForce span expected contents = .ok (info, held)) :
    Usable contents span expected := by
  rcases inForce_ok chosen with ⟨found, -⟩ | ⟨-, found, -⟩
  · exact .inl ⟨info, found⟩
  · exact .inr ⟨info, found⟩

theorem not_usable_of_inForce {cause : Error}
    (refused : inForce span expected contents = .error cause) :
    ¬ Usable contents span expected := by
  obtain ⟨primary, backup, first, second, -⟩ := inForce_error refused
  rintro (⟨info, found⟩ | ⟨info, found⟩)
  · rw [first] at found
    cases found
  · rw [second] at found
    cases found

theorem usable_congr {left right : Contents}
    (same : ∀ offset ∈ [span.base, span.stop - infoBlockBytes],
      left.load offset infoBlockBytes = right.load offset infoBlockBytes) :
    Usable left span expected ↔ Usable right span expected := by
  rw [Usable, infoAt_congr (same _ (by simp)), infoAt_congr (same _ (by simp)), Usable]

theorem inForce_outside (chosen : inForce span expected contents = .ok (info, held)) :
    held.AgreeOutside contents span.base (span.base + infoBlockBytes) := by
  rcases inForce_ok chosen with ⟨-, rfl⟩ | ⟨-, -, rfl⟩
  · exact fun _ _ => rfl
  · exact Contents.store_agreeOutside (Nat.le_refl _) (Nat.le_of_eq (by rw [info.length_toBytes]))

theorem inForce_again (chosen : inForce span expected contents = .ok (info, held))
    (same : right.load span.base infoBlockBytes = held.load span.base infoBlockBytes) :
    inForce span expected right = .ok (info, right) := by
  have found : infoAt right span.base expected = .ok info := by
    obtain ⟨current, accepted⟩ := inForce_accepted chosen
    rw [infoAt_congr same]
    rcases inForce_ok chosen with ⟨found, rfl⟩ | ⟨-, -, rfl⟩
    · exact found
    · refine infoAt_toBytes ?_ current accepted
      rw [← info.length_toBytes]
      exact Contents.load_store_same
  rw [inForce, found]

section Congr

variable (large : infoBlockBytes ≤ span.size) (agree : left.AgreeOn right span.base span.stop)

include large agree

theorem infoAt_agree (expected : Expectation) :
    infoAt left span.base expected = infoAt right span.base expected ∧
      infoAt left (span.stop - infoBlockBytes) expected =
        infoAt right (span.stop - infoBlockBytes) expected := by
  have stop_eq : span.stop = span.base + span.size := rfl
  constructor
  · exact infoAt_congr (Contents.load_congr agree (Nat.le_refl _) (by omega))
  · exact infoAt_congr (Contents.load_congr agree (by omega) (by omega))

theorem inForce_congr (chosen : inForce span expected left = .ok (info, held)) :
    ∃ other, inForce span expected right = .ok (info, other) ∧
      held.AgreeOn other span.base span.stop := by
  obtain ⟨primary, backup⟩ := infoAt_agree large agree expected
  rcases inForce_ok chosen with ⟨found, rfl⟩ | ⟨⟨cause, refused⟩, found, rfl⟩
  · refine ⟨right, ?_, agree⟩
    rw [inForce, ← primary, found]
  · refine ⟨right.store span.base info.toBytes, ?_, agree.store _ _⟩
    rw [inForce, ← primary, refused]
    dsimp only
    rw [← backup, found]

theorem inForce_error_congr {cause : Error} (refused : inForce span expected left = .error cause) :
    inForce span expected right = .error cause := by
  obtain ⟨primary, backup⟩ := infoAt_agree large agree expected
  obtain ⟨first, second, refusedFirst, refusedSecond, rfl⟩ := inForce_error refused
  rw [inForce, ← primary, refusedFirst]
  dsimp only
  rw [← backup, refusedSecond]

end Congr

section Flog

variable {ε α β : Type} {decode : α → Except ε β} {inputs : List α} {outputs : List β}
  {bytes : List UInt8} {slots : List FlogSlot}

theorem mapM_ok (decoded : inputs.mapM decode = .ok outputs) :
    List.Forall₂ (fun input output => decode input = .ok output) inputs outputs := by
  induction inputs generalizing outputs with
  | nil =>
      cases decoded
      exact .nil
  | cons input rest induction =>
      rw [List.mapM_cons] at decoded
      obtain ⟨output, first, decoded⟩ := bind_ok decoded
      obtain ⟨more, others, decoded⟩ := bind_ok decoded
      cases decoded
      exact .cons first (induction others)

theorem mapM_error_iff : (∃ cause, inputs.mapM decode = .error cause) ↔
    ∃ input ∈ inputs, ∀ output, decode input ≠ .ok output := by
  induction inputs with
  | nil =>
      constructor
      · rintro ⟨_, ⟨⟩⟩
      · rintro ⟨_, ⟨⟩, -⟩
  | cons input rest induction =>
      simp only [List.mem_cons, exists_eq_or_imp]
      rw [List.mapM_cons, ← induction]
      cases decode input with
      | error cause =>
          refine ⟨fun _ => .inl ?_, fun _ => ⟨cause, rfl⟩⟩
          rintro _ ⟨⟩
      | ok output =>
          cases rest.mapM decode with
          | error cause => exact ⟨fun _ => .inr ⟨cause, rfl⟩, fun _ => ⟨cause, rfl⟩⟩
          | ok more =>
              constructor
              · rintro ⟨_, ⟨⟩⟩
              · rintro (refused | ⟨_, ⟨⟩⟩)
                exact absurd rfl (refused output)

theorem decodeFlog_sound (decoded : decodeFlog info bytes = .ok slots) :
    ∀ slot ∈ slots, slot.Sound info.external info.internal := by
  rw [decodeFlog] at decoded
  replace decoded := mapM_ok decoded
  generalize Bytes.chunks flogSlotBytes info.nfree.toNat bytes = chunks at decoded
  induction decoded with
  | nil => simp
  | cons parsed _ induction =>
      intro other member
      rcases List.mem_cons.mp member with rfl | later
      · exact FlogSlot.ofRecords_sound parsed
      · exact induction other later

theorem decodeFlog_error_iff :
    (∃ cause, decodeFlog info (contents.load offset (info.nfree.toNat * flogSlotBytes)) =
        .error cause) ↔
      ∃ index, index < info.nfree.toNat ∧ ∀ slot, FlogSlot.ofBytes
        (contents.load (offset + index * flogSlotBytes) flogSlotBytes) info.external
          info.internal ≠ .ok slot := by
  rw [decodeFlog, mapM_error_iff, Contents.chunks_load]
  constructor
  · rintro ⟨_, member, refused⟩
    obtain ⟨index, inside, rfl⟩ := List.mem_map.mp member
    exact ⟨index, List.mem_range.mp inside, refused⟩
  · rintro ⟨index, inside, refused⟩
    exact ⟨_, List.mem_map_of_mem (List.mem_range.mpr inside), refused⟩

end Flog

def mounted (span : Span) (info : InfoBlock) (contents : Contents) : Arena :=
  if info.hasErrorFlag then { span, info, flog := [], readOnly := true }
  else
    match decodeFlog info (contents.load (span.base + info.flogOffset.toNat)
        (info.nfree.toNat * flogSlotBytes)) with
    | .error _ => { span, info := info.withErrorFlag, flog := [], readOnly := true }
    | .ok flog => { span, info, flog, readOnly := false }

theorem mounted_cases (span : Span) (info : InfoBlock) (contents : Contents) :
    (∃ flog, mounted span info contents = ⟨span, info, flog, false⟩ ∧
      info.hasErrorFlag = false ∧ decodeFlog info
        (contents.load (span.base + info.flogOffset.toNat) (info.nfree.toNat * flogSlotBytes)) =
          .ok flog) ∨
    (mounted span info contents = ⟨span, info, [], true⟩ ∧ info.hasErrorFlag = true) ∨
    (mounted span info contents = ⟨span, info.withErrorFlag, [], true⟩ ∧
      info.hasErrorFlag = false ∧ ∃ cause, decodeFlog info
        (contents.load (span.base + info.flogOffset.toNat) (info.nfree.toNat * flogSlotBytes)) =
          .error cause) := by
  rw [mounted]
  cases info.hasErrorFlag with
  | true => exact .inr (.inl ⟨rfl, rfl⟩)
  | false =>
      cases decodeFlog info (contents.load (span.base + info.flogOffset.toNat)
          (info.nfree.toNat * flogSlotBytes)) with
      | error cause => exact .inr (.inr ⟨rfl, rfl, cause, rfl⟩)
      | ok flog => exact .inl ⟨flog, rfl, rfl, rfl⟩

@[simp] theorem mounted_span (span : Span) (info : InfoBlock) (contents : Contents) :
    (mounted span info contents).span = span := by
  rcases mounted_cases span info contents with ⟨flog, mount, -⟩ | ⟨mount, -⟩ | ⟨mount, -⟩
  all_goals rw [mount]

theorem mounted_congr (agree : left.AgreeOn right (span.base + info.flogOffset.toNat)
    (span.base + info.flogOffset.toNat + info.nfree.toNat * flogSlotBytes)) :
    mounted span info left = mounted span info right := by
  rw [mounted, Contents.load_congr agree (Nat.le_refl _) (Nat.le_refl _), mounted]

def replayed (arena : Arena) (contents : Contents) (slot : FlogSlot) : Contents :=
  if (arena.entryAt contents slot.active.lba).explicit slot.active.lba = slot.active.oldMap then
    contents.storeWord (arena.entryOffset slot.active.lba) slot.active.newMap.raw
  else
    contents

def unsettled (arena : Arena) : List FlogSlot := arena.flog.filter (·.needsRecovery)

def recovered (arena : Arena) (contents : Contents) : Contents :=
  arena.unsettled.foldl arena.replayed contents

theorem recovered_of_idle {arena : Arena} (idle : arena.unsettled = []) :
    arena.recovered contents = contents := by
  rw [recovered, idle, List.foldl_nil]

theorem recovered_of_readOnly (readOnly : (mounted span info held).readOnly = true) :
    (mounted span info held).recovered contents = contents := by
  apply recovered_of_idle
  rcases mounted_cases span info held with ⟨flog, mount, -⟩ | ⟨mount, -⟩ | ⟨mount, -⟩
  · rw [mount] at readOnly
    cases readOnly
  all_goals
    rw [mount]
    rfl

theorem mounted_lba {slot : FlogSlot} (member : slot ∈ (mounted span info contents).flog) :
    slot.active.lba < (mounted span info contents).info.external := by
  rcases mounted_cases span info contents with ⟨flog, mount, -, decoded⟩ | ⟨mount, -⟩ | ⟨mount, -⟩
  · rw [mount] at member ⊢
    exact (decodeFlog_sound decoded slot member).active_lba
  all_goals
    rw [mount] at member
    cases member

theorem mounted_divides (contents : Contents) (divided : info.Divides span) :
    (mounted span info contents).info.Divides (mounted span info contents).span := by
  rcases mounted_cases span info contents with ⟨flog, mount, -⟩ | ⟨mount, -⟩ | ⟨mount, -⟩
  · rw [mount]
    exact divided
  · rw [mount]
    exact divided
  · rw [mount]
    exact { divided with }

section Replay

variable {arena : Arena} {slot : FlogSlot} {slots : List FlogSlot}
  (divided : arena.info.Divides arena.span)

include divided

theorem replayed_outside (inside : slot.active.lba < arena.info.external) :
    (arena.replayed contents slot).AgreeOutside contents arena.mapStart arena.dataStart := by
  obtain ⟨lower, upper⟩ := entry_range divided inside
  unfold replayed
  split
  next => exact Contents.store_agreeOutside lower (by simpa [mapEntryBytes] using upper)
  next => exact fun _ _ => rfl

theorem replayAll_outside (inside : ∀ slot ∈ slots, slot.active.lba < arena.info.external) :
    (slots.foldl arena.replayed contents).AgreeOutside contents arena.mapStart
      arena.dataStart := by
  induction slots generalizing contents with
  | nil => exact fun _ _ => rfl
  | cons slot rest induction =>
      exact (induction fun later member => inside later (List.mem_cons_of_mem slot member)).trans
        (replayed_outside divided (inside slot List.mem_cons_self))

section Congr

variable {start stop : Nat} (lower : start ≤ arena.mapStart) (upper : arena.dataStart ≤ stop)

include lower upper

theorem replayed_congr (inside : slot.active.lba < arena.info.external)
    (agree : left.AgreeOn right start stop) :
    (arena.replayed left slot).AgreeOn (arena.replayed right slot) start stop := by
  unfold replayed
  rw [entryAt_congr divided (agree.mono lower upper) inside]
  split
  next => exact agree.store _ _
  next => exact agree

theorem replayAll_congr (inside : ∀ slot ∈ slots, slot.active.lba < arena.info.external)
    (agree : left.AgreeOn right start stop) :
    (slots.foldl arena.replayed left).AgreeOn (slots.foldl arena.replayed right) start stop := by
  induction slots generalizing left right with
  | nil => exact agree
  | cons slot rest induction =>
      exact induction (fun later member => inside later (List.mem_cons_of_mem slot member))
        (replayed_congr divided lower upper (inside slot List.mem_cons_self) agree)

end Congr

end Replay

theorem unsettled_lba {slot : FlogSlot}
    (member : slot ∈ (mounted span info contents).unsettled) :
    slot.active.lba < (mounted span info contents).info.external :=
  mounted_lba (List.mem_of_mem_filter member)

section Recovered

variable (framed : expected.Frames span size)
  (chosen : inForce span expected before = .ok (info, held))

include framed chosen

/-- Recovery changes the map alone. -/
theorem recovered_map :
    ((mounted span info held).recovered held).AgreeOutside held
      (span.base + info.mapOffset.toNat) (span.base + info.dataOffset.toNat) := by
  have divided := mounted_divides held (framed.divides info (inForce_accepted chosen).2)
  have outside : ((mounted span info held).recovered held).AgreeOutside held _ _ :=
    replayAll_outside divided fun _ => unsettled_lba
  rcases mounted_cases span info held with ⟨flog, mount, -⟩ | ⟨mount, -⟩ | ⟨mount, -⟩
  all_goals
    rw [mount] at outside ⊢
    exact outside

theorem recovered_outside :
    ((mounted span info held).recovered held).AgreeOutside before span.base span.stop := by
  have divided := framed.divides info (inForce_accepted chosen).2
  have order := @region_order ⟨span, info, [], false⟩ divided
  simp only [mapStart, dataStart] at order
  have map := recovered_map framed chosen
  have outside := inForce_outside chosen
  exact (map.mono (by omega) (by omega)).trans (outside.mono (Nat.le_refl _) (by omega))

/-- The info block and the flog stay as they were when the arena was mounted. -/
theorem recovered_front :
    ((mounted span info held).recovered held).AgreeOn held span.base
      (span.base + info.mapOffset.toNat) :=
  (recovered_map framed chosen).agreeOn (.inl (Nat.le_refl _))

end Recovered

theorem mount_congr (framed : expected.Frames span size)
    (agree : left.AgreeOn right span.base span.stop)
    (chosen : inForce span expected left = .ok (info, held)) :
    ∃ other, inForce span expected right = .ok (info, other) ∧
      mounted span info held = mounted span info other ∧
      ((mounted span info held).recovered held).AgreeOn
        ((mounted span info held).recovered other) span.base span.stop := by
  obtain ⟨other, again, same⟩ := inForce_congr framed.large agree chosen
  have divided := framed.divides info (inForce_accepted chosen).2
  have order := @region_order ⟨span, info, [], false⟩ divided
  simp only [flogStart, flogLength, mapStart, dataStart] at order
  refine ⟨other, again, mounted_congr (same.mono (by omega) (by omega)), ?_⟩
  have mountedDivided := mounted_divides held divided
  have regions := region_order mountedDivided
  rw [mounted_span] at regions
  exact replayAll_congr mountedDivided (by omega) (by omega) (fun _ => unsettled_lba) same

section Meets

variable {μ : Type} [Media μ] [Atomic μ]

theorem meets_infoAt (room : offset + infoBlockBytes ≤ size) :
    (readInfo offset expected : Step μ _).Meets size True before
      (fun outcome after => outcome = infoAt before offset expected ∧ after = before)
      (fun _ _ => False) := by
  rw [readInfo]
  apply Step.meets_bind
  apply Step.meets_readAt room
  · exact Step.meets_pure ⟨rfl, rfl⟩
  · exact fun _ faulty => faulty trivial

theorem meets_inForce (framed : expected.Frames span size) :
    (loadInfo span expected : Step μ _).Meets size True before
      (fun info after => inForce span expected before = .ok (info, after))
      (fun cause after => inForce span expected before = .error cause ∧ after = before) := by
  have large := framed.large
  have room := framed.room
  have stop_eq : span.stop = span.base + span.size := rfl
  rw [loadInfo]
  apply Step.meets_bind
  apply (meets_infoAt (by omega)).mono _ fun _ _ => False.elim
  rintro primary _ ⟨first, rfl⟩
  rw [inForce, ← first]
  cases primary with
  | ok info => exact Step.meets_pure rfl
  | error cause =>
      apply Step.meets_bind
      apply (meets_infoAt (by omega)).mono _ fun _ _ => False.elim
      rintro backup _ ⟨second, rfl⟩
      dsimp only
      rw [← second]
      cases backup with
      | error other => exact Step.meets_throw ⟨rfl, rfl⟩
      | ok info =>
          apply Step.meets_bind
          rw [restoreInfo]
          apply Step.meets_bind
          apply Step.meets_outcome
          apply Step.meets_bind
          apply Step.meets_writeAt (by rw [info.length_toBytes]; omega)
          · apply Step.meets_flush
            · exact Step.meets_pure (Step.meets_pure rfl)
            · exact fun _ faulty => absurd trivial faulty
          · exact fun _ faulty => absurd trivial faulty

theorem meets_decodeFlog (divided : info.Divides span) (room : span.stop ≤ size) :
    (readFlog span info : Step μ _).Meets size True before
      (fun flog after => flog = (decodeFlog info (before.load
        (span.base + info.flogOffset.toNat) (info.nfree.toNat * flogSlotBytes))).toOption ∧
          after = before)
      (fun _ _ => False) := by
  have order := @region_order ⟨span, info, [], false⟩ divided
  simp only [flogStart, flogLength] at order
  rw [readFlog]
  apply Step.meets_bind
  apply Step.meets_outcome
  apply Step.meets_readAt (by omega)
  · exact Step.meets_pure ⟨rfl, rfl⟩
  · exact fun _ faulty => absurd trivial faulty

theorem meets_replayAll {arena : Arena} {slots : List FlogSlot}
    (divided : arena.info.Divides arena.span) (room : arena.span.stop ≤ size)
    (inside : ∀ slot ∈ slots, slot.active.lba < arena.info.external) :
    (slots.forM arena.replay : Step μ PUnit).Meets size True before
      (fun _ after => after = slots.foldl arena.replayed before) (fun _ _ => False) := by
  induction slots generalizing before with
  | nil => exact Step.meets_pure rfl
  | cons slot rest induction =>
      have here := inside slot List.mem_cons_self
      have later := fun {before} => @induction before fun other member =>
        inside other (List.mem_cons_of_mem slot member)
      apply Step.meets_bind
      rw [replay]
      apply Step.meets_bind
      apply meets_readMapEntry divided room here
      · rw [List.foldl_cons, replayed]
        split
        next =>
          apply Step.meets_bind
          apply meets_writeMapEntry divided room here
          · exact Step.meets_flush later fun _ faulty => faulty trivial
          · exact fun _ faulty => faulty trivial
        next => exact Step.meets_pure later
      · exact fun _ faulty => faulty trivial

/-- Without faults an arena is mounted whenever one of its info blocks can be used. -/
theorem meets_mounted (framed : expected.Frames span size) :
    (load span expected : Step μ _).Meets size True before
      (fun arena after => ∃ info held, inForce span expected before = .ok (info, held) ∧
        arena = mounted span info held ∧ after = arena.recovered held)
      (fun cause after => inForce span expected before = .error cause ∧ after = before) := by
  rw [load]
  apply Step.meets_bind
  apply (meets_inForce framed).mono _ fun _ _ => id
  intro info held chosen
  have divided := framed.divides info (inForce_accepted chosen).2
  split
  next failed =>
    refine Step.meets_pure ⟨info, held, chosen, ?_, rfl⟩
    rw [mounted, if_pos failed]
  next working =>
    apply Step.meets_bind
    apply (meets_decodeFlog divided framed.room).mono _ fun _ _ => False.elim
    rintro flog after ⟨decoded, same⟩
    obtain rfl : held = after := same.symm
    cases outcome : decodeFlog info (held.load (span.base + info.flogOffset.toNat)
        (info.nfree.toNat * flogSlotBytes)) with
    | error cause =>
        rw [outcome] at decoded
        cases decoded
        refine Step.meets_pure ⟨info, held, chosen, ?_, rfl⟩
        rw [mounted, if_neg working, outcome]
    | ok slots =>
        rw [outcome] at decoded
        cases decoded
        apply Step.meets_bind
        have inside : ∀ slot ∈ (Arena.mk span info slots false).unsettled,
            slot.active.lba < info.external := fun slot member =>
          (decodeFlog_sound outcome slot (List.mem_of_mem_filter member)).active_lba
        rw [recover]
        apply (@meets_replayAll _ _ _ _ _ ⟨span, info, slots, false⟩ _ divided framed.room
          inside).mono _ fun _ _ => False.elim
        rintro _ _ rfl
        refine Step.meets_pure ⟨info, held, chosen, ?_, rfl⟩
        rw [mounted, if_neg working, outcome]

end Meets

end Arena

end Remap.Block
