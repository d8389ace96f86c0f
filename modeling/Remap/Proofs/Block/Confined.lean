import Remap.Proofs.Block.Meets

/-!
# Which accesses a step makes

A recording probe keeps an event of every access, also of those that fail. `Step.Confined`
bounds the events of a step: from the contents before, whichever accesses fail, each event is
one that `allowed` accepts, and a run that returns a value leaves contents that `done` accepts.
Nothing is said about the contents after a failure. There is one rule for each access and each
way to put steps together.
-/

namespace Remap

namespace Media

def Event.Inside (event : Event) (start stop : Nat) : Prop :=
  match event with
  | .read offset length | .write offset length => start ≤ offset ∧ offset + length ≤ stop
  | .flush => True

theorem Event.Inside.mono {event : Event} {start stop lower upper : Nat}
    (inside : event.Inside start stop) (lower_le : lower ≤ start) (le_upper : stop ≤ upper) :
    event.Inside lower upper := by
  cases event with
  | read offset length => exact ⟨Nat.le_trans lower_le inside.1, Nat.le_trans inside.2 le_upper⟩
  | write offset length => exact ⟨Nat.le_trans lower_le inside.1, Nat.le_trans inside.2 le_upper⟩
  | flush => trivial

namespace Probe

variable {μ : Type} {allowed : Event → Prop}

structure Continues (before : Probe μ) (allowed : Event → Prop) (after : Probe μ) : Prop where
  recording : after.recording = true
  trace : ∃ events, after.trace = events ++ before.trace ∧ ∀ event ∈ events, allowed event

variable {before middle after : Probe μ}

theorem Continues.refl (recording : before.recording = true) : before.Continues allowed before :=
  ⟨recording, [], rfl, fun _ member => absurd member List.not_mem_nil⟩

theorem Continues.trans (first : before.Continues allowed middle)
    (second : middle.Continues allowed after) : before.Continues allowed after := by
  obtain ⟨early, early_eq, early_allowed⟩ := first.trace
  obtain ⟨late, late_eq, late_allowed⟩ := second.trace
  refine ⟨second.recording, late ++ early, ?_, ?_⟩
  · rw [late_eq, early_eq, List.append_assoc]
  · intro event member
    rcases List.mem_append.mp member with isLate | isEarly
    · exact late_allowed event isLate
    · exact early_allowed event isEarly

theorem Continues.mono {other : Event → Prop} (continues : before.Continues allowed after)
    (weaken : ∀ event, allowed event → other event) : before.Continues other after := by
  obtain ⟨events, trace_eq, holds⟩ := continues.trace
  exact ⟨continues.recording, events, trace_eq, fun event member =>
    weaken event (holds event member)⟩

/-- What was noted is all that a scripted fault or the media behind adds to the trace. -/
theorem Continues.of_note {event : Event} (recording : before.recording = true)
    (accepted : allowed event) (recording_eq : after.recording = (before.note event).recording)
    (trace_eq : after.trace = (before.note event).trace) : before.Continues allowed after := by
  have noted : before.note event = { before with trace := event :: before.trace } := by
    rw [note, if_pos recording]
  rw [noted] at recording_eq trace_eq
  refine ⟨recording_eq.trans recording, [event], trace_eq, ?_⟩
  rintro _ (_ | ⟨_, ⟨⟩⟩)
  exact accepted

variable [Media μ] {offset length : Nat} {bytes : List UInt8}

theorem read_continues (recording : before.recording = true)
    (accepted : allowed (.read offset length)) :
    before.Continues allowed (before.read offset length).2 := by
  refine .of_note recording accepted ?_ ?_ <;>
  · simp only [read]
    split <;> rfl

theorem write_continues (recording : before.recording = true)
    (accepted : allowed (.write offset bytes.length)) :
    before.Continues allowed (before.write offset bytes).2 := by
  refine .of_note recording accepted ?_ ?_ <;>
  · simp only [write]
    split <;> rfl

theorem flush_continues (recording : before.recording = true) (accepted : allowed .flush) :
    before.Continues allowed before.flush.2 := by
  refine .of_note recording accepted ?_ ?_ <;>
  · simp only [flush]
    split <;> rfl

end Probe

end Media

namespace Block

open Remap.Media

namespace Step

variable {μ α β : Type} [Media μ] [Atomic μ]

/-- From contents `before` the step makes only accesses that `allowed` accepts, and returns a
value only with contents that `done` accepts. -/
def Confined (step : Step (Probe μ) α) (before : Contents) (allowed : Event → Prop)
    (done : α → Contents → Prop) : Prop :=
  ∀ probe : Probe μ, probe.recording = true → Atomic.contents probe = before →
    probe.Continues allowed (step.on probe).2 ∧
      ∀ value, (step.on probe).1 = .ok value → done value (Atomic.contents (step.on probe).2)

variable {before : Contents} {allowed : Event → Prop} {step : Step (Probe μ) α}
  {done : α → Contents → Prop}

theorem Confined.continues {probe after : Probe μ} {outcome : Except Error α}
    (confined : step.Confined (Atomic.contents probe) allowed done)
    (recording : probe.recording = true) (ran : step.on probe = (outcome, after)) :
    probe.Continues allowed after := by
  have made := (confined probe recording rfl).1
  rwa [ran] at made

theorem Confined.of_ok {probe after : Probe μ} {value : α}
    (confined : step.Confined (Atomic.contents probe) allowed done)
    (recording : probe.recording = true) (ran : step.on probe = (.ok value, after)) :
    done value (Atomic.contents after) := by
  have returned := (confined probe recording rfl).2 value
  rw [ran] at returned
  exact returned rfl

theorem Confined.mono {other : Event → Prop} {done' : α → Contents → Prop}
    (confined : step.Confined before allowed done)
    (weaken : ∀ event, allowed event → other event)
    (weakenDone : ∀ value contents, done value contents → done' value contents) :
    step.Confined before other done' := by
  intro probe recording shown
  obtain ⟨made, returned⟩ := confined probe recording shown
  exact ⟨made.mono weaken, fun value ok => weakenDone value _ (returned value ok)⟩

theorem confined_pure {value : α} (holds : done value before) :
    (pure value : Step (Probe μ) α).Confined before allowed done := by
  rintro probe recording rfl
  refine ⟨.refl recording, ?_⟩
  rintro _ ⟨⟩
  exact holds

theorem confined_throw {cause : Error} :
    (throw cause : Step (Probe μ) α).Confined before allowed done := by
  rintro probe recording -
  refine ⟨.refl recording, ?_⟩
  rintro _ ⟨⟩

theorem confined_bind {next : α → Step (Probe μ) β} {done : β → Contents → Prop}
    (confined : step.Confined before allowed
      (fun value contents => (next value).Confined contents allowed done)) :
    (step >>= next : Step (Probe μ) β).Confined before allowed done := by
  intro probe recording shown
  obtain ⟨made, returned⟩ := confined probe recording shown
  rw [on_bind]
  rcases ran : step.on probe with ⟨outcome, middle⟩
  rw [ran] at made returned
  cases outcome with
  | ok value =>
      obtain ⟨later, result⟩ := returned value rfl middle made.recording rfl
      exact ⟨made.trans later, result⟩
  | error cause => exact ⟨made, fun _ impossible => nomatch impossible⟩

theorem confined_outcome {done : Except Error α → Contents → Prop}
    (confined : step.Confined before allowed (fun value => done (.ok value)))
    (failed : ∀ cause contents, done (.error cause) contents) :
    (outcome step).Confined before allowed done := by
  intro probe recording shown
  obtain ⟨made, returned⟩ := confined probe recording shown
  refine ⟨made, ?_⟩
  rintro _ ⟨⟩
  change done (step.on probe).1 (Atomic.contents (step.on probe).2)
  cases result : (step.on probe).1 with
  | ok value => exact returned value result
  | error cause => exact failed cause _

theorem confined_forM {ι : Type} {items : List ι} {body : ι → Step (Probe μ) Unit}
    (each : ∀ item ∈ items, ∀ contents, (body item).Confined contents allowed fun _ _ => True) :
    (items.forM body).Confined before allowed fun _ _ => True := by
  induction items generalizing before with
  | nil => exact confined_pure trivial
  | cons item rest induction =>
      apply confined_bind
      apply (each item List.mem_cons_self before).mono (fun _ => id)
      exact fun _ _ _ => induction fun later member => each later (List.mem_cons_of_mem item member)

theorem confined_access {access : Media.Access (Probe μ) α}
    (serves : ∀ {probe after : Probe μ} {outcome : Except Media.Error α},
      probe.recording = true → Atomic.contents probe = before →
      access.run probe = (outcome, after) →
        probe.Continues allowed after ∧
          ∀ value, outcome = .ok value → done value (Atomic.contents after)) :
    (Step.access access).Confined before allowed done := by
  intro probe recording shown
  rcases ran : access.run probe with ⟨outcome, after⟩
  obtain ⟨made, returned⟩ := serves recording shown ran
  rw [on_access ran]
  refine ⟨made, fun value result => ?_⟩
  cases outcome with
  | ok _ =>
      cases result
      exact returned value rfl
  | error cause => cases result

variable {offset length : Nat} {bytes : List UInt8}

theorem confined_readAt {done : List UInt8 → Contents → Prop}
    (accepted : allowed (.read offset length)) (ok : done (before.load offset length) before) :
    (readAt offset length : Step (Probe μ) _).Confined before allowed done := by
  apply confined_access
  rintro probe after outcome recording rfl ran
  have made : probe.Continues allowed ((Media.read offset length : Media.Access _ _).run probe).2 :=
    Probe.read_continues recording accepted
  rw [ran] at made
  obtain ⟨-, same, -, meaning⟩ := Atomic.read_whole ran
  refine ⟨made, ?_⟩
  rintro _ rfl
  rw [same, meaning.2]
  exact ok

theorem confined_writeAt {done : Unit → Contents → Prop}
    (accepted : allowed (.write offset bytes.length)) (ok : done () (before.store offset bytes)) :
    (writeAt offset bytes : Step (Probe μ) _).Confined before allowed done := by
  apply confined_access
  rintro probe after outcome recording rfl ran
  have made : probe.Continues allowed ((Media.write offset bytes : Media.Access _ _).run probe).2 :=
    Probe.write_continues recording accepted
  rw [ran] at made
  obtain ⟨-, -, meaning⟩ := Atomic.write_whole ran
  refine ⟨made, ?_⟩
  rintro _ rfl
  rw [meaning.2]
  exact ok

theorem confined_flush {done : Unit → Contents → Prop} (accepted : allowed .flush)
    (ok : done () before) : (flush : Step (Probe μ) _).Confined before allowed done := by
  apply confined_access
  rintro probe after outcome recording rfl ran
  have made : probe.Continues allowed ((Media.flush : Media.Access _ _).run probe).2 :=
    Probe.flush_continues recording accepted
  rw [ran] at made
  obtain ⟨-, same, -⟩ := Atomic.flush_whole ran
  refine ⟨made, ?_⟩
  rintro _ rfl
  rw [same]
  exact ok

end Step

end Block

end Remap
