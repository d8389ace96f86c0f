import Remap.Proofs.Block.Script
import Remap.Proofs.Media.Journal

/-!
# Which accesses a step attempts

A journal keeps every access that a step makes on a media, whichever of them fail and whatever
they return. `Step.Takes` is about a step that makes the accesses of a plan in order and stops
at the first that fails. `Step.Fences` is about a step that keeps accesses of a kind apart by
flushes, and ends with one after them unless it fails. There is one rule for each access and
each way to put steps together.
-/

namespace Remap.Block

open Remap.Media

def Act.request : Act → Request
  | write offset _ => .write offset
  | flush => .flush

namespace Step

variable {μ α β : Type}

def Makes (step : Step (Journal μ) α) (holds : List Attempt → Except Error α → Prop) : Prop :=
  ∀ journal : Journal μ, ∃ made,
    (step.on journal).2.attempts = journal.attempts ++ made ∧ holds made (step.on journal).1

def Takes (step : Step (Journal μ) α) (plan : List Request) (done : α → Prop) : Prop :=
  step.Makes fun made outcome => Attempt.Course plan outcome.isOk made ∧
    ∀ value, outcome = .ok value → done value

/-- Attempts that count are apart, and a flush succeeded after the last of them if the step
returns a value, which `done` accepts. -/
def Fences (step : Step (Journal μ) α) (counts : Request → Bool) (done : α → Prop) : Prop :=
  step.Makes fun made outcome => Attempt.Fenced counts made ∧
    ∀ value, outcome = .ok value → Attempt.Flushed counts made ∧ done value

variable {step : Step (Journal μ) α} {next : α → Step (Journal μ) β}
  {holds : List Attempt → Except Error α → Prop} {plan rest : List Request}
  {counts : Request → Bool} {done : α → Prop} {final : β → Prop}

theorem Makes.ran {journal after : Journal μ} {outcome : Except Error α}
    (makes : step.Makes holds) (ran : step.on journal = (outcome, after)) :
    ∃ made, after.attempts = journal.attempts ++ made ∧ holds made outcome := by
  have result := makes journal
  rwa [ran] at result

theorem Makes.mono {other : List Attempt → Except Error α → Prop} (makes : step.Makes holds)
    (weaken : ∀ made outcome, holds made outcome → other made outcome) : step.Makes other := by
  intro journal
  obtain ⟨made, entered, accepted⟩ := makes journal
  exact ⟨made, entered, weaken made _ accepted⟩

theorem makes_access {request : Request} {access : Media.Access (Journal μ) α}
    (enters : ∀ journal, (access.run journal).2.attempts =
      journal.attempts ++ [⟨request, (access.run journal).1.isOk⟩]) :
    (Step.access access).Makes fun made outcome => made = [⟨request, outcome.isOk⟩] := by
  intro journal
  have entered := enters journal
  rcases ran : access.run journal with ⟨outcome, after⟩
  rw [ran] at entered
  rw [on_access ran]
  refine ⟨_, entered, ?_⟩
  cases outcome <;> rfl

section Plans

theorem takes_pure {value : α} (accepted : done value) :
    (pure value : Step (Journal μ) α).Takes [] done := by
  intro journal
  refine ⟨[], (List.append_nil _).symm, .whole, ?_⟩
  rintro _ ⟨⟩
  exact accepted

theorem takes_bind (takes : step.Takes plan done)
    (later : ∀ value, done value → (next value).Takes rest final) :
    (step >>= next : Step (Journal μ) β).Takes (plan ++ rest) final := by
  intro journal
  obtain ⟨early, entered, course, returned⟩ := takes journal
  rw [on_bind]
  rcases ran : step.on journal with ⟨outcome, middle⟩
  rw [ran] at entered course returned
  cases outcome with
  | error cause =>
      exact ⟨early, entered, course.cut_short rest, fun _ impossible => nomatch impossible⟩
  | ok value =>
      obtain ⟨late, enteredLate, courseLate, returnedLate⟩ :=
        later value (returned value rfl) middle
      refine ⟨early ++ late, ?_, course.append courseLate, returnedLate⟩
      rw [enteredLate, entered, List.append_assoc]

theorem takes_access {request : Request} {access : Media.Access (Journal μ) α}
    (enters : ∀ journal, (access.run journal).2.attempts =
      journal.attempts ++ [⟨request, (access.run journal).1.isOk⟩]) :
    (Step.access access).Takes [request] fun _ => True := by
  refine (makes_access enters).mono ?_
  rintro _ outcome rfl
  exact ⟨.single request _, fun _ _ => trivial⟩

section Accesses

variable [Media μ]

theorem takes_readAt (offset length : Nat) :
    (readAt offset length : Step (Journal μ) _).Takes [.read offset] fun _ => True :=
  takes_access fun _ => rfl

theorem takes_writeAt (offset : Nat) (bytes : List UInt8) :
    (writeAt offset bytes : Step (Journal μ) _).Takes [.write offset] fun _ => True :=
  takes_access fun _ => rfl

theorem takes_flush : (flush : Step (Journal μ) _).Takes [.flush] fun _ => True :=
  takes_access fun _ => rfl

theorem takes_issue (acts : List Act) :
    (issue acts : Step (Journal μ) _).Takes (acts.map Act.request) fun _ => True := by
  induction acts with
  | nil => exact takes_pure trivial
  | cons act rest induction =>
      have first : (act.perform : Step (Journal μ) _).Takes [act.request] fun _ => True := by
        cases act with
        | write offset bytes => exact takes_writeAt offset bytes
        | flush => exact takes_flush
      exact takes_bind first fun _ _ => induction

end Accesses

end Plans

section Fences

/-- A step whose plan has no access that counts. -/
theorem Takes.fences (takes : step.Takes plan done)
    (quiet : ∀ request ∈ plan, counts request = false) : step.Fences counts done := by
  refine Makes.mono takes ?_
  rintro made outcome ⟨course, returned⟩
  have spared := course.follows.spared quiet
  exact ⟨spared.fenced, fun value ok => ⟨spared.flushed, returned value ok⟩⟩

theorem fences_pure {value : α} (accepted : done value) :
    (pure value : Step (Journal μ) α).Fences counts done :=
  (takes_pure accepted).fences fun _ member => absurd member List.not_mem_nil

theorem fences_throw {cause : Error} : (throw cause : Step (Journal μ) α).Fences counts done := by
  intro journal
  refine ⟨[], (List.append_nil _).symm, ?_, fun _ impossible => nomatch impossible⟩
  exact Attempt.Spared.fenced fun _ member => absurd member List.not_mem_nil

theorem fences_bind (fences : step.Fences counts done)
    (later : ∀ value, done value → (next value).Fences counts final) :
    (step >>= next : Step (Journal μ) β).Fences counts final := by
  intro journal
  obtain ⟨early, entered, fenced, returned⟩ := fences journal
  rw [on_bind]
  rcases ran : step.on journal with ⟨outcome, middle⟩
  rw [ran] at entered returned
  cases outcome with
  | error cause => exact ⟨early, entered, fenced, fun _ impossible => nomatch impossible⟩
  | ok value =>
      obtain ⟨flushed, accepted⟩ := returned value rfl
      obtain ⟨late, enteredLate, fencedLate, returnedLate⟩ := later value accepted middle
      refine ⟨early ++ late, ?_, fenced.append flushed fencedLate, ?_⟩
      · rw [enteredLate, entered, List.append_assoc]
      · intro result ok
        obtain ⟨flushedLate, acceptedLate⟩ := returnedLate result ok
        exact ⟨flushed.append flushedLate, acceptedLate⟩

theorem fences_outcome (takes : step.Takes plan done)
    (quiet : ∀ request ∈ plan, counts request = false) :
    (outcome step).Fences counts fun _ => True := by
  intro journal
  obtain ⟨made, entered, course, -⟩ := takes journal
  have spared := course.follows.spared quiet
  exact ⟨made, entered, spared.fenced, fun _ _ => ⟨spared.flushed, trivial⟩⟩

theorem fences_forM {ι : Type} {items : List ι} {body : ι → Step (Journal μ) Unit}
    (each : ∀ item ∈ items, (body item).Fences counts fun _ => True) :
    (items.forM body).Fences counts fun _ => True := by
  induction items with
  | nil => exact fences_pure trivial
  | cons item rest induction =>
      refine fences_bind (each item List.mem_cons_self) fun _ _ => ?_
      exact induction fun later member => each later (List.mem_cons_of_mem item member)

theorem fences_write_flush [Media μ] (offset : Nat) (bytes : List UInt8)
    (quiet : counts .flush = false) :
    (writeAt offset bytes >>= fun _ => flush : Step (Journal μ) _).Fences counts
      fun _ => True := by
  have takes : (writeAt offset bytes >>= fun _ => flush : Step (Journal μ) _).Takes
      ([.write offset] ++ [.flush]) fun _ => True :=
    takes_bind (takes_writeAt offset bytes) fun _ _ => takes_flush
  refine Makes.mono takes ?_
  rintro made outcome ⟨course, -⟩
  refine ⟨course.fenced fun request member => ?_, ?_⟩
  · rw [List.mem_singleton.mp member]
    exact quiet
  · rintro value rfl
    rw [course.whole_eq]
    exact ⟨Attempt.Flushed.of_flush [.success (.write offset)] quiet, trivial⟩

end Fences

end Step

end Remap.Block
