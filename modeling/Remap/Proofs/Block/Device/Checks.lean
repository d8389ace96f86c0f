import Remap.Proofs.Block.Device.Created
import Remap.Proofs.Media.Journal

/-!
# All checks come before the first access

Laying out a device computes the info blocks of all arenas before it touches the media. Whatever
is refused is refused there, so a device that was on the media is still there: the accesses that
follow can fail for the media alone.
-/

namespace Remap.Block

open Remap.Media

namespace Step

variable {μ : Type} {media after : μ} {cause : Error}

theorem access_error {α : Type} {access : Media.Access μ α}
    (failed : (Step.access access).on media = (.error cause, after)) : cause.kind = .media := by
  rcases ran : access.run media with ⟨outcome, last⟩
  rw [on_access ran] at failed
  cases outcome with
  | error reason =>
      cases failed
      rfl
  | ok value => cases failed

theorem issue_error [Media μ] {acts : List Act} (failed : (issue acts).on media = (.error cause, after)) :
    cause.kind = .media := by
  induction acts generalizing media with
  | nil => cases failed
  | cons act rest induction =>
      rw [issue_cons, on_bind] at failed
      rcases ran : act.perform.on media with ⟨outcome, middle⟩
      rw [ran] at failed
      cases outcome with
      | ok value => exact induction failed
      | error reason =>
          cases failed
          cases act with
          | write offset bytes => exact access_error ran
          | flush => exact access_error ran

end Step

namespace Device

variable {layout : Layout} {entropy : Entropy} {internalSize : UInt32} {draw index size : Nat}
  {span : Span} {spans : List Span} {infos : List InfoBlock} {cause : Error}

theorem infoBlocks_error
    (refused : infoBlocks layout internalSize entropy draw spans = .error cause) :
    cause.kind = .invalidParameter ∨ cause = .noEntropy := by
  induction spans generalizing draw with
  | nil => cases refused
  | cons span rest induction =>
      rw [infoBlocks] at refused
      obtain unlaid | ⟨geometry, refused⟩ := bind_error refused
      · obtain ⟨reason, rfl⟩ := mapError_error unlaid
        exact .inl rfl
      · split at refused
        next uuid drawn =>
          obtain later | ⟨more, refused⟩ := bind_error refused
          · exact induction later
          · cases refused
        next =>
          cases refused
          exact .inr rfl

theorem plan_error (refused : plan layout entropy size = .error cause) :
    cause.kind = .invalidParameter ∨ cause = .noEntropy := by
  rw [plan] at refused
  obtain unsized | ⟨internalSize, refused⟩ := bind_error refused
  · exact .inl (dataBlockSize_error unsized)
  obtain unroomy | ⟨_, refused⟩ := bind_error refused
  · exact .inl (checkRoom_error unroomy)
  split at refused
  next =>
    cases refused
    exact .inl rfl
  next =>
    obtain uncut | ⟨spans, refused⟩ := bind_error refused
    · obtain ⟨reason, rfl⟩ := mapError_error uncut
      exact .inl rfl
    obtain unplanned | ⟨infos, refused⟩ := bind_error refused
    · exact infoBlocks_error unplanned
    · cases refused

theorem plan_error_kind (refused : plan layout entropy size = .error cause) :
    cause.kind ≠ .media := by
  obtain invalid | rfl := plan_error refused
  · rw [invalid]
    decide
  · decide

theorem infoBlocks_each
    (computed : infoBlocks layout internalSize entropy draw spans = .ok infos)
    (found : spans[index]? = some span) :
    (∃ geometry, Geometry.compute span.size layout.nfree.toNat internalSize.toNat = .ok geometry) ∧
      ∃ bytes, entropy (draw + index) = some bytes := by
  induction spans generalizing draw index infos with
  | nil => cases found
  | cons first rest induction =>
      obtain ⟨geometry, uuid, more, laid, drawn, recursive, -⟩ := infoBlocks_cons_ok computed
      cases index with
      | zero =>
          cases found
          obtain ⟨bytes, yields, -⟩ := Option.map_eq_some_iff.mp drawn
          exact ⟨⟨geometry, laid⟩, bytes, yields⟩
      | succ index =>
          have later := induction recursive found
          rw [Nat.add_assoc, Nat.add_comm 1] at later
          exact later

/-- An arena that has no geometry or no identity leaves the device without a plan. -/
theorem plan_refused (size : Nat) (cut : Span.plan layout.totalSize maxArena = .ok spans)
    (found : spans[index]? = some span)
    (impossible : entropy index = none ∨ ∃ reason, Geometry.compute span.size layout.nfree.toNat
      (internalBlockSize layout.blockSize).toNat = .error reason) :
    ∃ cause, plan layout entropy size = .error cause := by
  cases planned : plan layout entropy size with
  | error cause => exact ⟨cause, rfl⟩
  | ok pairs =>
      obtain ⟨internalSize, others, infos, sized, -, again, computed, -⟩ := plan_parts planned
      obtain ⟨rfl, -, -⟩ := dataBlockSize_ok sized
      cases cut.symm.trans again
      obtain ⟨⟨geometry, laid⟩, bytes, yields⟩ := infoBlocks_each computed found
      rw [Nat.zero_add] at yields
      obtain none | ⟨reason, unlaid⟩ := impossible
      · cases yields.symm.trans none
      · cases laid.symm.trans unlaid

section Run

variable {μ : Type} [Media μ]

/-- A device that was planned can fail for the media alone. -/
theorem create_error {media after : μ} {pairs : List (Span × InfoBlock)}
    (planned : plan layout entropy (Media.size media) = .ok pairs)
    (failed : (create layout entropy).on media = (.error cause, after)) : cause.kind = .media := by
  rw [create_planned planned, Step.on_bind] at failed
  rcases ran : (Step.issue (createActs pairs) : Step μ _).on media with ⟨outcome, last⟩
  rw [ran] at failed
  cases outcome with
  | ok value => cases failed
  | error reason =>
      cases failed
      exact Step.issue_error ran

/-- **Everything is checked before anything is written.** A device that is refused for another
reason than a failed access has made no access at all, and that happens just when it has no plan.
An arena without a geometry and a draw that fails leave it without one, wherever in the sequence
of arenas they are. -/
theorem create_checks_first (layout : Layout) (entropy : Entropy) (journal : Journal μ) :
    (∀ cause after, (create layout entropy).on journal = (.error cause, after) →
      cause.kind ≠ .media → after = journal) ∧
    (∀ cause after, (create layout entropy).on journal = (.error cause, after) →
      (cause.kind ≠ .media ↔ plan layout entropy (Media.size journal) = .error cause)) ∧
    ∀ spans index span, Span.plan layout.totalSize maxArena = .ok spans →
      spans[index]? = some span →
      (entropy index = none ∨ ∃ reason, Geometry.compute span.size layout.nfree.toNat
        (internalBlockSize layout.blockSize).toNat = .error reason) →
      ∃ cause, cause.kind ≠ .media ∧
        (create layout entropy).on journal = (.error cause, journal) := by
  refine ⟨?_, ?_, ?_⟩
  · intro cause after failed kind
    cases planned : plan layout entropy (Media.size journal) with
    | ok pairs => exact absurd (create_error planned failed) kind
    | error reason =>
        cases (create_refused planned).symm.trans failed
        rfl
  · intro cause after failed
    cases planned : plan layout entropy (Media.size journal) with
    | ok pairs =>
        refine ⟨fun kind => absurd (create_error planned failed) kind, ?_⟩
        rintro ⟨⟩
    | error reason =>
        cases (create_refused planned).symm.trans failed
        exact ⟨fun _ => rfl, fun _ => plan_error_kind planned⟩
  · intro spans index span cut found impossible
    obtain ⟨cause, refused⟩ := plan_refused (Media.size journal) cut found impossible
    exact ⟨cause, plan_error_kind refused, create_refused refused⟩

end Run

def unevenLayout (nfree : UInt32) : Layout := ⟨.nil, nfree, 512, maxArena + minArena⟩

theorem uneven_cut : Span.plan (maxArena + minArena) maxArena =
    .ok [⟨0, maxArena⟩, ⟨maxArena, minArena⟩] := by
  decide +kernel

theorem uneven_crowded :
    Geometry.compute minArena 0x100000 512 = .error (.noRoomForFlog minArena 0x100000) := by
  decide +kernel

def unevenJournal : Journal Simulated := ⟨Simulated.blank (maxArena + minArena), []⟩

/-- The second draw fails, or the flog slots are too many for the second arena alone. -/
theorem create_checks_first_uneven :
    (∃ cause, cause.kind ≠ .media ∧
      (create (unevenLayout 1) fun draw =>
        if draw = 0 then some (Vector.replicate 16 0) else none).on unevenJournal =
          (.error cause, unevenJournal)) ∧
    ∃ cause, cause.kind ≠ .media ∧
      (create (unevenLayout 0x100000) zeroEntropy).on unevenJournal =
        (.error cause, unevenJournal) := by
  constructor
  · exact (create_checks_first _ _ unevenJournal).2.2 _ 1 _ uneven_cut rfl (.inl rfl)
  · exact (create_checks_first _ _ unevenJournal).2.2 _ 1 _ uneven_cut rfl
      (.inr ⟨_, uneven_crowded⟩)

end Device

end Remap.Block
