import Remap.Proofs.Media.Atomic

/-!
# Journals

A journal stands before a media and enters every access made on it, in the order of issue, with
whether it succeeded. A plan is a list of accesses to make in order: attempts follow it if each
was made only after all that the plan has before it had succeeded. Attempts are fenced if a
flush succeeded between any two of a kind.
-/

namespace Remap.Media

inductive Request
  | read (offset : Nat)
  | write (offset : Nat)
  | flush
deriving DecidableEq, Repr

structure Attempt where
  request : Request
  succeeded : Bool
deriving DecidableEq, Repr

namespace Attempt

def success (request : Request) : Attempt := ⟨request, true⟩

def failure (request : Request) : Attempt := ⟨request, false⟩

/-- Each attempt is one of the plan, and what was made before it is what the plan has before
it, with success throughout. -/
def Follows (made : List Attempt) (plan : List Request) : Prop :=
  ∀ early attempt late, made = early ++ attempt :: late →
    ∃ done rest, plan = done ++ attempt.request :: rest ∧ early = done.map success

inductive Course (plan : List Request) : (completed : Bool) → List Attempt → Prop
  | whole : Course plan true (plan.map success)
  | cut {done : List Request} {request : Request} {rest : List Request}
      (split : plan = done ++ request :: rest) :
      Course plan false (done.map success ++ [failure request])

/-- Between any two attempts that count, a flush succeeded. -/
def Fenced (counts : Request → Bool) (made : List Attempt) : Prop :=
  ∀ early first middle second late, made = early ++ first :: (middle ++ second :: late) →
    counts first.request = true → counts second.request = true → success .flush ∈ middle

def Flushed (counts : Request → Bool) (made : List Attempt) : Prop :=
  ∀ early attempt late, made = early ++ attempt :: late →
    counts attempt.request = true → success .flush ∈ late

def Spared (counts : Request → Bool) (made : List Attempt) : Prop :=
  ∀ attempt ∈ made, counts attempt.request = false

theorem append_split {α : Type} {front back before after : List α} {element : α}
    (split : front ++ back = before ++ element :: after) :
    (∃ more, front = before ++ element :: more ∧ after = more ++ back) ∨
      ∃ more, before = front ++ more ∧ back = more ++ element :: after := by
  rcases List.append_eq_append_iff.mp split with ⟨more, before_eq, back_eq⟩ | ⟨more, front_eq, rest⟩
  · exact .inr ⟨more, before_eq, back_eq⟩
  · cases more with
    | nil => exact .inr ⟨[], by rw [front_eq, List.append_nil, List.append_nil], rest.symm⟩
    | cons first more =>
        obtain ⟨rfl, after_eq⟩ := List.cons.inj rest
        exact .inl ⟨more, front_eq, after_eq⟩

section Courses

variable {plan next : List Request} {completed : Bool} {made early late : List Attempt}

theorem follows_map_success (plan : List Request) : Follows (plan.map success) plan := by
  intro before attempt after made_eq
  obtain ⟨done, more, plan_eq, before_eq, behind⟩ := List.map_eq_append_iff.mp made_eq
  obtain ⟨request, rest, rfl, rfl, -⟩ := List.map_eq_cons_iff.mp behind
  exact ⟨done, rest, plan_eq, before_eq.symm⟩

theorem Follows.extend (follows : Follows made plan) (next : List Request) :
    Follows made (plan ++ next) := by
  intro before attempt after made_eq
  obtain ⟨done, rest, rfl, before_eq⟩ := follows before attempt after made_eq
  exact ⟨done, rest ++ next, by simp, before_eq⟩

theorem follows_nil (plan : List Request) : Follows [] plan :=
  (follows_map_success []).extend plan

theorem Course.follows (course : Course plan completed made) : Follows made plan := by
  cases course with
  | whole => exact follows_map_success plan
  | @cut done request rest split =>
      intro before attempt after made_eq
      rcases append_split made_eq with ⟨more, done_eq, -⟩ | ⟨more, before_eq, last_eq⟩
      · rw [split]
        exact (follows_map_success done).extend _ before attempt more done_eq
      · -- the attempt is the one that failed
        obtain ⟨rfl, rfl⟩ : more = [] ∧ failure request = attempt := by
          cases more with
          | nil => exact ⟨rfl, (List.cons.inj last_eq).1⟩
          | cons first others => cases others <;> cases last_eq
        rw [before_eq, List.append_nil]
        exact ⟨done, rest, split, rfl⟩

theorem Course.whole_eq (course : Course plan true made) : made = plan.map success := by
  cases course
  rfl

theorem Course.cut_short (course : Course plan false made) (next : List Request) :
    Course (plan ++ next) false made := by
  cases course with
  | @cut done request rest split =>
      rw [split, List.append_assoc]
      exact .cut rfl

theorem Course.append (first : Course plan true early) (second : Course next completed late) :
    Course (plan ++ next) completed (early ++ late) := by
  rw [first.whole_eq]
  cases second with
  | whole =>
      rw [← List.map_append]
      exact .whole
  | cut split =>
      rw [← List.append_assoc, ← List.map_append]
      exact .cut (by rw [split, List.append_assoc])

theorem Course.single (request : Request) (completed : Bool) :
    Course [request] completed [⟨request, completed⟩] := by
  cases completed with
  | true => exact .whole
  | false => exact @Course.cut [request] [] request [] rfl

theorem Course.cons {request : Request} (course : Course (request :: plan) completed made) :
    ∃ succeeded late, made = ⟨request, succeeded⟩ :: late ∧
      (late = [] ∨ Course plan completed late) := by
  cases course with
  | whole => exact ⟨true, plan.map success, rfl, .inr .whole⟩
  | @cut done failing rest split =>
      cases done with
      | nil =>
          obtain ⟨rfl, -⟩ := List.cons.inj split
          exact ⟨false, [], rfl, .inl rfl⟩
      | cons first others =>
          obtain ⟨rfl, plan_eq⟩ := List.cons.inj split
          exact ⟨true, others.map success ++ [failure failing], rfl, .inr (.cut plan_eq)⟩

end Courses

section Fences

variable {counts : Request → Bool} {made early late : List Attempt}

theorem Follows.spared {plan : List Request} (follows : Follows made plan)
    (quiet : ∀ request ∈ plan, counts request = false) : Spared counts made := by
  intro attempt member
  obtain ⟨before, after, made_eq⟩ := List.mem_iff_append.mp member
  obtain ⟨done, rest, rfl, -⟩ := follows before attempt after made_eq
  exact quiet _ (List.mem_append_right _ List.mem_cons_self)

theorem Spared.flushed (spared : Spared counts made) : Flushed counts made := by
  rintro before attempt after rfl counted
  rw [spared attempt (List.mem_append_right _ List.mem_cons_self)] at counted
  cases counted

theorem Spared.fenced_cons (first : Attempt) (spared : Spared counts made) :
    Fenced counts (first :: made) := by
  intro before one middle two after made_eq _ counted
  have member : two ∈ made := by
    rcases @append_split _ [first] made _ _ _ made_eq with ⟨more, single, rest⟩ | ⟨more, -, rest⟩
    · obtain ⟨-, rfl⟩ : before = [] ∧ more = [] := by
        cases before with
        | nil => exact ⟨rfl, (List.cons.inj single).2.symm⟩
        | cons head others => cases others <;> cases single
      have made_eq : made = middle ++ two :: after := rest.symm
      rw [made_eq]
      exact List.mem_append_right _ List.mem_cons_self
    · rw [rest]
      exact List.mem_append_right _ (.tail _ (List.mem_append_right _ List.mem_cons_self))
  rw [spared two member] at counted
  cases counted

theorem Spared.fenced (spared : Spared counts made) : Fenced counts made := by
  intro before one middle two after made_eq counted
  rw [spared one (made_eq ▸ List.mem_append_right _ List.mem_cons_self)] at counted
  cases counted

theorem Course.fenced {request : Request} {plan : List Request} {completed : Bool}
    (course : Course (request :: plan) completed made)
    (quiet : ∀ request ∈ plan, counts request = false) : Fenced counts made := by
  obtain ⟨succeeded, late, rfl, rfl | later⟩ := course.cons
  · exact Spared.fenced_cons _ fun _ member => absurd member List.not_mem_nil
  · exact (later.follows.spared quiet).fenced_cons _

/-- What is fenced on both sides is fenced across if the first side is flushed. -/
theorem Fenced.append (fenced : Fenced counts early) (flushed : Flushed counts early)
    (later : Fenced counts late) : Fenced counts (early ++ late) := by
  intro before one middle two after made_eq oneCounts twoCounts
  rcases append_split made_eq with ⟨more, early_eq, rest⟩ | ⟨more, -, late_eq⟩
  · rcases append_split rest.symm with ⟨inner, rfl, -⟩ | ⟨inner, rfl, -⟩
    · exact fenced _ _ _ _ _ early_eq oneCounts twoCounts
    · exact List.mem_append_left _ (flushed _ _ _ early_eq oneCounts)
  · exact later _ _ _ _ _ late_eq oneCounts twoCounts

theorem Flushed.append (flushed : Flushed counts early) (later : Flushed counts late) :
    Flushed counts (early ++ late) := by
  intro before attempt after made_eq counted
  rcases append_split made_eq with ⟨more, early_eq, rfl⟩ | ⟨more, -, late_eq⟩
  · exact List.mem_append_left _ (flushed _ _ _ early_eq counted)
  · exact later _ _ _ late_eq counted

theorem Flushed.of_flush (early : List Attempt) (quiet : counts .flush = false) :
    Flushed counts (early ++ [success .flush]) := by
  intro before attempt after made_eq counted
  rcases append_split made_eq with ⟨more, -, rfl⟩ | ⟨more, -, last_eq⟩
  · exact List.mem_append_right _ List.mem_cons_self
  · cases more with
    | nil =>
        obtain ⟨rfl, -⟩ := List.cons.inj last_eq
        rw [show (success .flush).request = .flush from rfl, quiet] at counted
        cases counted
    | cons head others => cases others <;> cases last_eq

end Fences

end Attempt

structure Journal (μ : Type) where
  media : μ
  attempts : List Attempt := []

namespace Journal

variable {μ : Type} [Media μ]

def enter {α : Type} (journal : Journal μ) (request : Request) (result : Except Error α × μ) :
    Except Error α × Journal μ :=
  (result.1, ⟨result.2, journal.attempts ++ [⟨request, result.1.isOk⟩]⟩)

instance : Media (Journal μ) where
  size journal := Media.size journal.media
  read offset length := fun journal =>
    journal.enter (.read offset) ((Media.read offset length : Access μ _).run journal.media)
  write offset bytes := fun journal =>
    journal.enter (.write offset) ((Media.write offset bytes : Access μ _).run journal.media)
  flush := fun journal => journal.enter .flush ((Media.flush : Access μ _).run journal.media)

instance [Atomic μ] : Atomic (Journal μ) where
  contents journal := Atomic.contents journal.media
  Faultless journal := Atomic.Faultless journal.media
  read_whole {journal after offset length outcome} result := by
    cases result
    exact @Atomic.read_whole μ _ _ journal.media _ offset length _ rfl
  write_whole {journal after offset bytes outcome} result := by
    cases result
    exact @Atomic.write_whole μ _ _ journal.media _ offset bytes _ rfl
  flush_whole {journal after outcome} result := by
    cases result
    exact @Atomic.flush_whole μ _ _ journal.media _ _ rfl

end Journal

end Remap.Media
