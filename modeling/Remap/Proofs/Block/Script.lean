import Remap.Proofs.Block.Meets
import Remap.Proofs.Media.Writes

/-!
# Scripts of accesses

Some steps write and flush without looking at what they read. Such a step is a list of
accesses, made in order up to the first that fails: the contents it leaves are those after
the first of its writes, and a power loss decides after how many.
-/

namespace Remap.Block

open Remap.Media

inductive Act
  | write (offset : Nat) (bytes : List UInt8)
  | flush
deriving DecidableEq, Repr

namespace Act

def perform {μ : Type} [Media μ] : Act → Step μ PUnit
  | write offset bytes => Step.writeAt offset bytes
  | flush => Step.flush

def writes : List Act → List (Nat × List UInt8)
  | [] => []
  | write offset bytes :: rest => (offset, bytes) :: writes rest
  | flush :: rest => writes rest

theorem writes_append (first second : List Act) :
    writes (first ++ second) = writes first ++ writes second := by
  induction first with
  | nil => rfl
  | cons act rest induction => cases act <;> simp [writes, induction]

end Act

namespace Step

variable {μ : Type} [Media μ] {size : Nat} {sound : Prop} {before : Contents} {acts : List Act}

def issue (acts : List Act) : Step μ PUnit := acts.forM Act.perform

theorem issue_nil : (issue [] : Step μ PUnit) = pure ⟨⟩ :=
  rfl

theorem issue_cons (act : Act) (rest : List Act) :
    (issue (act :: rest) : Step μ PUnit) = act.perform >>= fun _ => issue rest :=
  rfl

theorem issue_append (first second : List Act) :
    (issue (first ++ second) : Step μ PUnit) = issue first >>= fun _ => issue second := by
  rw [issue, List.forM_eq_forM, List.forM_append]
  rfl

theorem meets_issue [Atomic μ]
    (inside : ∀ write ∈ Act.writes acts, write.1 + write.2.length ≤ size) :
    (issue acts : Step μ PUnit).Meets size sound before
      (fun _ after => after = before.storeAll (Act.writes acts)) (fun _ _ => ¬ sound) := by
  induction acts generalizing before with
  | nil => exact meets_pure rfl
  | cons act rest induction =>
      cases act with
      | write offset bytes =>
          apply meets_bind
          apply meets_writeAt (inside (offset, bytes) List.mem_cons_self) _ fun _ => id
          exact induction fun later member => inside later (List.mem_cons_of_mem _ member)
      | flush =>
          apply meets_bind
          apply meets_flush _ fun _ => id
          exact induction inside

section PowerLoss

variable {media : Simulated} {left offset length : Nat} {bytes : List UInt8}

structure Powered (media : Simulated) (left : Nat) : Prop where
  power : media.poweredOff = false
  plan : media.plan = { writeBudget := some (media.statistics.writes + left) }

theorem Powered.setPlan (media : Simulated) (left : Nat) :
    Powered (media.setPlan { writeBudget := some left }) left := by
  refine ⟨rfl, ?_⟩
  rw [Simulated.setPlan, Nat.zero_add]

theorem Powered.write_lost (powered : Powered media 0) (offset : Nat) (bytes : List UInt8) :
    ∃ cause after, (writeAt offset bytes).on media = (.error cause, after) ∧
      Media.size after = Media.size media ∧ Atomic.contents after = Atomic.contents media := by
  obtain ⟨power, plan⟩ := powered
  have fault : media.writeFault = some .powerLoss := by
    simp [Simulated.writeFault, Simulated.outOfPower, power, plan]
  have made : (writeAt offset bytes).on media = _ := on_access rfl
  rw [made]
  change ∃ cause after, ((media.write offset bytes).1.mapError Error.media,
    (media.write offset bytes).2) = (.error cause, after) ∧ _
  rw [Simulated.write, fault]
  split
  all_goals exact ⟨_, _, rfl, rfl, rfl⟩

theorem Powered.write_lands (powered : Powered media (left + 1))
    (inside : offset + bytes.length ≤ Media.size media) :
    ∃ after, (writeAt offset bytes).on media = (.ok (), after) ∧ Powered after left ∧
      Media.size after = Media.size media ∧
      Atomic.contents after = (Atomic.contents media).store offset bytes := by
  obtain ⟨power, plan⟩ := powered
  have fault : media.writeFault = none := by
    simp [Simulated.writeFault, Simulated.outOfPower, power, plan]
  have holds : media.image.holds offset bytes.length = true := by
    simpa [Image.holds, Media.size] using inside
  have made : (writeAt offset bytes).on media = _ := on_access rfl
  rw [made]
  change ∃ after, ((media.write offset bytes).1.mapError Error.media,
    (media.write offset bytes).2) = (.ok (), after) ∧ _
  rw [Simulated.write, fault, holds]
  refine ⟨_, rfl, ⟨power, ?_⟩, Image.size_store _ _ _, Image.byteAt_store_eq _ _ _⟩
  change media.plan = { writeBudget := some (media.statistics.writes + 1 + left) }
  rw [plan, Nat.add_assoc, Nat.add_comm 1 left]

theorem Powered.read_served (powered : Powered media left)
    (inside : offset + length ≤ Media.size media) :
    ∃ found after, (readAt offset length).on media = (.ok found, after) ∧ Powered after left ∧
      Media.size after = Media.size media := by
  obtain ⟨power, plan⟩ := powered
  have holds : media.image.holds offset length = true := by
    simpa [Image.holds, Media.size] using inside
  have served : media.plan.failReads = false := by rw [plan]
  have made : (readAt offset length).on media = _ := on_access rfl
  rw [made]
  change ∃ found after, ((media.read offset length).1.mapError Error.media,
    (media.read offset length).2) = (.ok found, after) ∧ _
  rw [Simulated.read, holds, served]
  exact ⟨_, _, rfl, ⟨power, plan⟩, rfl⟩

/-- When the power fails after some writes, these are the ones that were made. -/
theorem issue_cut (powered : Powered media left)
    (inside : ∀ write ∈ Act.writes acts, write.1 + write.2.length ≤ Media.size media) :
    Media.size ((issue acts).on media).2 = Media.size media ∧
      Atomic.contents ((issue acts).on media).2 =
        (Atomic.contents media).storeAll ((Act.writes acts).take left) := by
  induction acts generalizing media left with
  | nil =>
      rw [Act.writes, List.take_nil]
      exact ⟨rfl, rfl⟩
  | cons act rest induction =>
      rw [issue_cons, on_bind]
      cases act with
      | flush =>
          exact @induction { media with
            statistics := { media.statistics with flushes := media.statistics.flushes + 1 } }
            left ⟨powered.power, powered.plan⟩ inside
      | write offset bytes =>
          rw [Act.writes]
          cases left with
          | zero =>
              obtain ⟨cause, after, lost, size_eq, same⟩ := powered.write_lost offset bytes
              rw [Act.perform, lost]
              exact ⟨size_eq, same⟩
          | succ left =>
              obtain ⟨after, made, poweredAfter, size_eq, stored⟩ :=
                powered.write_lands (inside (offset, bytes) List.mem_cons_self)
              rw [Act.perform, made]
              obtain ⟨sizeLast, last⟩ := induction poweredAfter fun write member => by
                rw [size_eq]
                exact inside write (List.mem_cons_of_mem _ member)
              refine ⟨sizeLast.trans size_eq, ?_⟩
              rw [last, stored]
              rfl

end PowerLoss

end Step

end Remap.Block
