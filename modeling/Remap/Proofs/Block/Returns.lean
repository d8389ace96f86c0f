import Mathlib.Data.List.Forall2
import Remap.Proofs.Block.Meets

/-!
# What a step can return

`Step.Returns` bounds the values of a step by what it checks itself: it holds on every media,
whatever that returns and whichever accesses fail. There is one rule for each way to put steps
together, and a step of which nothing is known returns anything.
-/

namespace Remap.Block

namespace Step

variable {μ α β : Type} {step : Step μ α} {next : α → Step μ β} {accepted : α → Prop}
  {final : β → Prop}

def Returns (step : Step μ α) (accepted : α → Prop) : Prop :=
  ∀ media value after, step.on media = (.ok value, after) → accepted value

theorem returns_any (step : Step μ α) : step.Returns fun _ => True :=
  fun _ _ _ _ => trivial

theorem Returns.mono {other : α → Prop} (returns : step.Returns accepted)
    (weaken : ∀ value, accepted value → other value) : step.Returns other :=
  fun media value after ran => weaken value (returns media value after ran)

theorem returns_pure {value : α} (holds : accepted value) :
    (pure value : Step μ α).Returns accepted := by
  rintro media _ after ⟨⟩
  exact holds

theorem returns_throw {cause : Error} : (throw cause : Step μ α).Returns accepted := by
  rintro media _ after ⟨⟩

theorem returns_ofExcept {outcome : Except Error α}
    (ok : ∀ value, outcome = .ok value → accepted value) :
    (ofExcept outcome : Step μ α).Returns accepted := by
  rintro media value after ⟨⟩
  exact ok value rfl

theorem returns_bind (returns : step.Returns accepted)
    (later : ∀ value, accepted value → (next value).Returns final) :
    (step >>= next : Step μ β).Returns final := by
  intro media value after ran
  rw [on_bind] at ran
  rcases first : step.on media with ⟨outcome, middle⟩
  rw [first] at ran
  cases outcome with
  | error cause => cases ran
  | ok between => exact later between (returns media between middle first) middle value after ran

theorem returns_mapM {ι : Type} {items : List ι} {body : ι → Step μ α} {related : ι → α → Prop}
    (each : ∀ item ∈ items, (body item).Returns (related item)) :
    (items.mapM body).Returns fun values => List.Forall₂ related items values := by
  induction items with
  | nil => exact returns_pure .nil
  | cons item rest induction =>
      rw [List.mapM_cons]
      refine returns_bind (each item List.mem_cons_self) fun value here => ?_
      have others := induction fun later member => each later (List.mem_cons_of_mem item member)
      exact returns_bind others fun values there => returns_pure (.cons here there)

end Step

end Remap.Block
