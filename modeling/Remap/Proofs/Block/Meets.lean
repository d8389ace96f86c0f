import Remap.Block.Step
import Remap.Proofs.Media.Atomic

/-!
# What a step does to the contents

`Step.Meets` speaks about a step in terms of the contents of the media alone: from the
contents before, every run that returns a value leaves contents that `done` accepts, and
every run that fails leaves contents that `failed` accepts. One rule for each access and
each way to put steps together carries proofs through the block device. In the rules for
accesses a failure may be taken to be a fault of the media.
-/

namespace Remap.Block

open Remap.Media

theorem bind_ok {ε α β : Type} {outcome : Except ε α} {next : α → Except ε β} {result : β}
    (ran : (outcome >>= next) = .ok result) :
    ∃ value, outcome = .ok value ∧ next value = .ok result := by
  cases outcome with
  | error cause => cases ran
  | ok value => exact ⟨value, rfl, ran⟩

theorem bind_error {ε α β : Type} {outcome : Except ε α} {next : α → Except ε β} {cause : ε}
    (failed : (outcome >>= next) = .error cause) :
    outcome = .error cause ∨ ∃ value, next value = .error cause := by
  cases outcome with
  | error other =>
      cases failed
      exact .inl rfl
  | ok value => exact .inr ⟨value, failed⟩

namespace Step

variable {μ α β : Type}

def on (step : Step μ α) (media : μ) : Except Error α × μ := step.run media

theorem on_bind (step : Step μ α) (next : α → Step μ β) (media : μ) :
    (step >>= next : Step μ β).on media =
      match step.on media with
      | (.ok value, after) => (next value).on after
      | (.error cause, after) => (.error cause, after) := by
  have split : (step >>= next : Step μ β).on media =
      (ExceptT.bindCont next (step.on media).1 : StateM μ _) (step.on media).2 := rfl
  rw [split]
  rcases step.on media with ⟨outcome, after⟩
  cases outcome <;> rfl

theorem on_access {access : Media.Access μ α} {media after : μ} {outcome : Except Media.Error α}
    (ran : access.run media = (outcome, after)) :
    (Step.access access).on media = (outcome.mapError Error.media, after) := by
  change (fun result : Except Media.Error α × μ =>
    (Except.mapError Error.media result.1, result.2)) (access.run media) = _
  rw [ran]

/-- What follows a step is run with its outcome, also when the step failed. -/
theorem run_bind (step : Step μ α) (next : Except Error α → StateM μ β) (media : μ) :
    (step.run >>= next : StateM μ β) media = next (step.on media).1 (step.on media).2 :=
  rfl

variable [Media μ] [Atomic μ]

/-- From contents `before` the step ends in contents that `done` or `failed` accepts. -/
def Meets (step : Step μ α) (size : Nat) (sound : Prop) (before : Contents)
    (done : α → Contents → Prop) (failed : Error → Contents → Prop) : Prop :=
  ∀ media : μ, Shows media size sound before →
    match step.on media with
    | (.ok value, after) => ∃ contents, Shows after size sound contents ∧ done value contents
    | (.error cause, after) => ∃ contents, Shows after size sound contents ∧ failed cause contents

variable {size : Nat} {sound : Prop} {before : Contents} {step : Step μ α}
  {done : α → Contents → Prop} {failed : Error → Contents → Prop}

theorem Meets.mono {done' : α → Contents → Prop} {failed' : Error → Contents → Prop}
    (meets : step.Meets size sound before done failed)
    (weakenDone : ∀ value contents, done value contents → done' value contents)
    (weakenFailed : ∀ cause contents, failed cause contents → failed' cause contents) :
    step.Meets size sound before done' failed' := by
  intro media shows_
  have result := meets media shows_
  rcases ran : step.on media with ⟨outcome, after⟩
  rw [ran] at result
  cases outcome with
  | ok value =>
      obtain ⟨contents, at_, holds⟩ := result
      exact ⟨contents, at_, weakenDone value contents holds⟩
  | error cause =>
      obtain ⟨contents, at_, holds⟩ := result
      exact ⟨contents, at_, weakenFailed cause contents holds⟩

theorem Meets.of_ok {media after : μ} {value : α}
    (meets : step.Meets size sound before done failed) (shown : Shows media size sound before)
    (ran : step.on media = (.ok value, after)) :
    ∃ contents, Shows after size sound contents ∧ done value contents := by
  have result := meets media shown
  rwa [ran] at result

theorem Meets.of_error {media after : μ} {cause : Error}
    (meets : step.Meets size sound before done failed) (shown : Shows media size sound before)
    (ran : step.on media = (.error cause, after)) :
    ∃ contents, Shows after size sound contents ∧ failed cause contents := by
  have result := meets media shown
  rwa [ran] at result

/-- Run on this media the step fails only for a fault or for want of room, and then changes
nothing. -/
def Delivers (step : Step μ α) (media : μ) (room : Prop) (done : α → Contents → Prop) : Prop :=
  step.Meets (Media.size media) (Atomic.Faultless media ∧ room) (Atomic.contents media) done
    fun _ contents => ¬(Atomic.Faultless media ∧ room) ∧ contents = Atomic.contents media

theorem Delivers.ran {media after : μ} {outcome : Except Error α} {room : Prop}
    (delivers : step.Delivers media room done) (ran : step.on media = (outcome, after)) :
    Media.size after = Media.size media ∧
      (∀ value, outcome = .ok value → done value (Atomic.contents after)) ∧
      (∀ cause, outcome = .error cause → Atomic.contents after = Atomic.contents media) ∧
      (Atomic.Faultless media → room → Atomic.Faultless after ∧ ∃ value, outcome = .ok value) := by
  have shown : Shows media (Media.size media) (Atomic.Faultless media ∧ room)
      (Atomic.contents media) := ⟨rfl, rfl, And.left⟩
  cases outcome with
  | ok value =>
      obtain ⟨contents, shows_, holds⟩ := Meets.of_ok delivers shown ran
      rw [← shows_.contents_eq] at holds
      refine ⟨shows_.size_eq, ?_, ?_, ?_⟩
      · rintro _ ⟨⟩
        exact holds
      · rintro _ ⟨⟩
      · exact fun faultless enough => ⟨shows_.faultless ⟨faultless, enough⟩, value, rfl⟩
  | error cause =>
      obtain ⟨contents, shows_, unsound, same⟩ := Meets.of_error delivers shown ran
      refine ⟨shows_.size_eq, ?_, ?_, ?_⟩
      · rintro _ ⟨⟩
      · exact fun _ _ => shows_.contents_eq.trans same
      · exact fun faultless enough => absurd ⟨faultless, enough⟩ unsound

theorem meets_pure {value : α} (holds : done value before) :
    (pure value : Step μ α).Meets size sound before done failed :=
  fun _ shows_ => ⟨before, shows_, holds⟩

theorem meets_throw {cause : Error} (holds : failed cause before) :
    (throw cause : Step μ α).Meets size sound before done failed :=
  fun _ shows_ => ⟨before, shows_, holds⟩

theorem meets_ofExcept {outcome : Except Error α}
    (ok : ∀ value, outcome = .ok value → done value before)
    (error : ∀ cause, outcome = .error cause → failed cause before) :
    (ofExcept outcome : Step μ α).Meets size sound before done failed := by
  intro media shows_
  cases outcome with
  | ok value => exact ⟨before, shows_, ok value rfl⟩
  | error cause => exact ⟨before, shows_, error cause rfl⟩

theorem meets_bind {next : α → Step μ β} {done : β → Contents → Prop}
    (meets : step.Meets size sound before
      (fun value contents => (next value).Meets size sound contents done failed) failed) :
    (step >>= next : Step μ β).Meets size sound before done failed := by
  intro media shows_
  have first := meets media shows_
  rw [on_bind]
  rcases ran : step.on media with ⟨outcome, after⟩
  rw [ran] at first
  cases outcome with
  | ok value =>
      obtain ⟨contents, at_, second⟩ := first
      exact second after at_
  | error cause => exact first

theorem meets_outcome {done : Except Error α → Contents → Prop}
    (meets : step.Meets size sound before (fun value => done (.ok value))
      (fun cause => done (.error cause))) :
    (outcome step).Meets size sound before done failed := by
  intro media shows_
  have result := meets media shows_
  change match (Except.ok (step.on media).1, (step.on media).2) with
    | (.ok value, after) => ∃ contents, Shows after size sound contents ∧ done value contents
    | (.error cause, after) => ∃ contents, Shows after size sound contents ∧ failed cause contents
  rcases ran : step.on media with ⟨outcome, after⟩
  rw [ran] at result
  cases outcome <;> exact result

theorem meets_readAt_sound {offset length : Nat} {done : List UInt8 → Contents → Prop}
    (inside : sound → offset + length ≤ size)
    (ok : done (before.load offset length) before)
    (error : ∀ cause, ¬ sound → failed cause before) :
    (readAt offset length : Step μ _).Meets size sound before done failed := by
  intro media shows_
  rcases ran : (Media.read offset length : Media.Access μ _).run media with ⟨outcome, after⟩
  obtain ⟨size_eq, same, faultless, meaning⟩ := Atomic.read_whole ran
  have shown := shows_.unchanged size_eq same faultless
  rw [readAt, on_access ran]
  cases outcome with
  | ok bytes =>
      refine ⟨before, shown, ?_⟩
      rw [meaning.2, shows_.contents_eq]
      exact ok
  | error cause =>
      refine ⟨before, shown, error _ fun holds => meaning ⟨shows_.faultless holds, ?_⟩⟩
      rw [shows_.size_eq]
      exact inside holds

theorem meets_readAt {offset length : Nat} {done : List UInt8 → Contents → Prop}
    (inside : offset + length ≤ size)
    (ok : done (before.load offset length) before)
    (error : ∀ cause, ¬ sound → failed cause before) :
    (readAt offset length : Step μ _).Meets size sound before done failed :=
  meets_readAt_sound (fun _ => inside) ok error

theorem meets_readAt_kept {offset length : Nat} {done : List UInt8 → Contents → Prop}
    (ok : ∀ bytes, done bytes before) (error : ∀ cause, failed cause before) :
    (readAt offset length : Step μ _).Meets size sound before done failed := by
  intro media shows_
  rcases ran : (Media.read offset length : Media.Access μ _).run media with ⟨outcome, after⟩
  obtain ⟨size_eq, same, faultless, _⟩ := Atomic.read_whole ran
  have shown := shows_.unchanged size_eq same faultless
  rw [readAt, on_access ran]
  cases outcome with
  | ok bytes => exact ⟨before, shown, ok bytes⟩
  | error cause => exact ⟨before, shown, error _⟩

theorem meets_writeAt_sound {offset : Nat} {bytes : List UInt8} {done : Unit → Contents → Prop}
    (inside : sound → offset + bytes.length ≤ size)
    (ok : done () (before.store offset bytes))
    (error : ∀ cause, ¬ sound → failed cause before) :
    (writeAt offset bytes : Step μ _).Meets size sound before done failed := by
  intro media shows_
  rcases ran : (Media.write offset bytes : Media.Access μ _).run media with ⟨outcome, after⟩
  obtain ⟨size_eq, faultless, meaning⟩ := Atomic.write_whole ran
  rw [writeAt, on_access ran]
  cases outcome with
  | ok value =>
      refine ⟨before.store offset bytes, ⟨size_eq.trans shows_.size_eq, ?_, ?_⟩, ok⟩
      · rw [meaning.2, shows_.contents_eq]
      · exact fun holds => faultless (shows_.faultless holds)
  | error cause =>
      refine ⟨before, shows_.unchanged size_eq meaning.1 faultless,
        error _ fun holds => meaning.2 ⟨shows_.faultless holds, ?_⟩⟩
      rw [shows_.size_eq]
      exact inside holds

theorem meets_writeAt {offset : Nat} {bytes : List UInt8} {done : Unit → Contents → Prop}
    (inside : offset + bytes.length ≤ size)
    (ok : done () (before.store offset bytes))
    (error : ∀ cause, ¬ sound → failed cause before) :
    (writeAt offset bytes : Step μ _).Meets size sound before done failed :=
  meets_writeAt_sound (fun _ => inside) ok error

theorem meets_flush {done : Unit → Contents → Prop} (ok : done () before)
    (error : ∀ cause, ¬ sound → failed cause before) :
    (flush : Step μ _).Meets size sound before done failed := by
  intro media shows_
  rcases ran : (Media.flush : Media.Access μ _).run media with ⟨outcome, after⟩
  obtain ⟨size_eq, same, faultless, meaning⟩ := Atomic.flush_whole ran
  have shown := shows_.unchanged size_eq same faultless
  rw [flush, on_access ran]
  cases outcome with
  | ok value => exact ⟨before, shown, ok⟩
  | error cause =>
      exact ⟨before, shown, error _ fun holds => meaning (shows_.faultless holds)⟩

theorem meets_get {next : μ → Step μ α}
    (meets : ∀ media, Media.size media = size →
      (next media).Meets size sound before done failed) :
    (get >>= next : Step μ α).Meets size sound before done failed := by
  intro media shows_
  change match (next media).on media with
    | (.ok value, after) => ∃ contents, Shows after size sound contents ∧ done value contents
    | (.error cause, after) => ∃ contents, Shows after size sound contents ∧ failed cause contents
  exact meets media shows_.size_eq media shows_

end Step

end Remap.Block
