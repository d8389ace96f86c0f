import Remap.Proofs.Media.Flat

/-!
# Power cuts

A write budget stands for a loss of power between two writes. Whatever is read, written and
flushed after the fault plan was set, just as many of the writes inside the bounds land as the
budget allows, and none after them. Nothing else is affected: a write outside the bounds is
refused as ever and costs nothing. A reboot keeps the image, and from then on every write inside
the bounds lands.
-/

namespace Remap.Media

namespace Image

def storeAll (image : Image) (writes : List (Nat × List UInt8)) : Image :=
  writes.foldl (fun image write => image.store write.1 write.2) image

theorem storeAll_concat (image : Image) (writes : List (Nat × List UInt8)) (offset : Nat)
    (bytes : List UInt8) :
    image.storeAll (writes ++ [(offset, bytes)]) = (image.storeAll writes).store offset bytes := by
  rw [storeAll, List.foldl_append, storeAll]
  rfl

@[simp] theorem size_storeAll (image : Image) (writes : List (Nat × List UInt8)) :
    (image.storeAll writes).size = image.size := by
  induction writes generalizing image with
  | nil => rfl
  | cons write rest induction => exact (induction _).trans (size_store _ _ _)

end Image

/-- The byte at `position` after the writes: the one of the last write that covers it, or `byte` if
none does. -/
def byteAfter (writes : List (Nat × List UInt8)) (position : Nat) (byte : UInt8) : UInt8 :=
  (writes.reverse.findSome? fun write =>
    if write.1 ≤ position then write.2[position - write.1]? else none).getD byte

theorem byteAfter_cons (offset : Nat) (bytes : List UInt8) (rest : List (Nat × List UInt8))
    (position : Nat) (byte : UInt8) :
    byteAfter ((offset, bytes) :: rest) position byte =
      byteAfter rest position
        (if offset ≤ position then bytes[position - offset]?.getD byte else byte) := by
  rw [byteAfter, byteAfter, List.reverse_cons, List.findSome?_append, Option.getD_or,
    List.findSome?_singleton]
  split <;> rfl

theorem Image.byteAt_storeAll (image : Image) (writes : List (Nat × List UInt8)) (position : Nat) :
    (image.storeAll writes).byteAt position =
      byteAfter writes position (image.byteAt position) := by
  induction writes generalizing image with
  | nil => rfl
  | cons write rest induction =>
      refine (induction (image.store write.1 write.2)).trans ?_
      rw [Image.byteAt_store_eq, Contents.store, byteAfter_cons]

namespace PowerCut

inductive Call
  | read (offset length : Nat)
  | write (offset : Nat) (bytes : List UInt8)
  | flush
deriving DecidableEq, Repr

def Call.within (size : Nat) : Call → List (Nat × List UInt8)
  | .write offset bytes => if offset + bytes.length ≤ size then [(offset, bytes)] else []
  | .read _ _ | .flush => []

def within (size : Nat) (calls : List Call) : List (Nat × List UInt8) :=
  calls.flatMap (Call.within size)

def serve (media : Simulated) : Call → Flat.Answer × Simulated
  | .read offset length =>
      let (outcome, media) := media.read offset length
      (.bytes outcome, media)
  | .write offset bytes =>
      let (outcome, media) := media.write offset bytes
      (.done outcome, media)
  | .flush =>
      let (outcome, media) := media.flush
      (.done outcome, media)

def after (media : Simulated) (calls : List Call) : Simulated :=
  calls.foldl (fun media call => (serve media call).2) media

/-- The answer of a media with this image, whose power is on for one more write or is not. The
power makes a difference to the writes inside the bounds alone. -/
def answer (image : Image) (powered : Bool) : Call → Flat.Answer
  | .read offset length =>
      .bytes <|
        if offset + length ≤ image.size then .ok (image.load offset length)
        else .error (.outOfBounds offset length image.size)
  | .write offset bytes =>
      .done <|
        if offset + bytes.length ≤ image.size then
          if powered then .ok () else .error (.injected .powerLoss)
        else .error (.outOfBounds offset bytes.length image.size)
  | .flush => .done (.ok ())

def allows (budget : Option Nat) (count : Nat) : Bool :=
  match budget with
  | none => true
  | some limit => count < limit

def landing (budget : Option Nat) (writes : List (Nat × List UInt8)) : List (Nat × List UInt8) :=
  match budget with
  | none => writes
  | some limit => writes.take limit

structure Follows (image : Image) (budget : Option Nat) (wanted : List (Nat × List UInt8))
    (media : Simulated) : Prop where
  plan_eq : media.plan = { writeBudget := budget }
  image_eq : media.image = image.storeAll (landing budget wanted)
  counted : media.statistics.writes = (landing budget wanted).length
  power : media.poweredOff = true ↔ ∃ limit, budget = some limit ∧ limit < wanted.length

variable {image : Image} {budget : Option Nat} {wanted : List (Nat × List UInt8)}
  {media : Simulated}

theorem landing_nil (budget : Option Nat) : landing budget [] = [] := by
  cases budget with
  | none => rfl
  | some limit => exact List.take_nil

theorem landing_of_allows {write : Nat × List UInt8} (allowed : allows budget wanted.length = true) :
    landing budget (wanted ++ [write]) = landing budget wanted ++ [write] := by
  cases budget with
  | none => rfl
  | some limit =>
      have short : wanted.length < limit := of_decide_eq_true allowed
      rw [landing, landing, List.take_of_length_le (by simp; omega),
        List.take_of_length_le (Nat.le_of_lt short)]

theorem landing_of_not_allows {write : Nat × List UInt8}
    (refused : allows budget wanted.length = false) :
    landing budget (wanted ++ [write]) = landing budget wanted := by
  cases budget with
  | none => cases refused
  | some limit =>
      have spent : limit ≤ wanted.length := Nat.not_lt.mp (of_decide_eq_false refused)
      rw [landing, landing, List.take_append_of_le_length spent]

theorem follows_setPlan (media : Simulated) (budget : Option Nat) :
    Follows media.image budget [] (media.setPlan { writeBudget := budget }) where
  plan_eq := rfl
  image_eq := by rw [landing_nil]; rfl
  counted := by rw [landing_nil]; rfl
  power := by simp [Simulated.setPlan]

namespace Follows

variable (follows : Follows image budget wanted media)

include follows

/-- The count of the writes and the latch agree on whether the power is on. -/
theorem outOfPower_eq : media.outOfPower = !allows budget wanted.length := by
  have power := follows.power
  rw [Simulated.outOfPower, follows.plan_eq, follows.counted]
  cases budget with
  | none =>
      have on : media.poweredOff = false := by
        rw [← Bool.not_eq_true, power]
        rintro ⟨limit, ⟨⟩, -⟩
      rw [on]
      rfl
  | some limit =>
      have latch : media.poweredOff = true ↔ limit < wanted.length := by simpa using power
      rw [landing, allows, List.length_take, Bool.eq_iff_iff, Bool.or_eq_true, latch,
        decide_eq_true_eq, Bool.not_eq_true', decide_eq_false_iff_not]
      omega

theorem size_eq : media.image.size = image.size := by
  rw [follows.image_eq, Image.size_storeAll]

theorem uncounted {statistics : Statistics}
    (same : statistics.writes = media.statistics.writes) :
    Follows image budget wanted { media with statistics } :=
  ⟨follows.plan_eq, follows.image_eq, same.trans follows.counted, follows.power⟩

theorem write_outside {offset : Nat} {bytes : List UInt8}
    (outside : ¬offset + bytes.length ≤ image.size) :
    media.write offset bytes = (.error (.outOfBounds offset bytes.length image.size), media) := by
  rw [Simulated.write, Image.holds, follows.size_eq, decide_eq_false outside]
  rfl

theorem write_lands {offset : Nat} {bytes : List UInt8} (inside : offset + bytes.length ≤ image.size)
    (allowed : allows budget wanted.length = true) :
    (media.write offset bytes).1 = .ok () ∧
      Follows image budget (wanted ++ [(offset, bytes)]) (media.write offset bytes).2 := by
  have fault : media.writeFault = none := by
    rw [Simulated.writeFault, follows.outOfPower_eq, allowed, follows.plan_eq]
    rfl
  rw [Simulated.write, Image.holds, follows.size_eq, decide_eq_true inside, fault]
  refine ⟨rfl, follows.plan_eq, ?_, ?_, ?_⟩
  · rw [landing_of_allows allowed, Image.storeAll_concat, ← follows.image_eq]
    rfl
  · rw [landing_of_allows allowed, List.length_append, ← follows.counted]
    rfl
  · refine follows.power.trans (exists_congr fun limit => and_congr_right ?_)
    rintro rfl
    have short : wanted.length < limit := of_decide_eq_true allowed
    rw [List.length_append, List.length_singleton]
    omega

/-- A write that is not allowed is lost, and the power is off from then on. -/
theorem write_lost {offset : Nat} {bytes : List UInt8} (inside : offset + bytes.length ≤ image.size)
    (refused : allows budget wanted.length = false) :
    (media.write offset bytes).1 = .error (.injected .powerLoss) ∧
      Follows image budget (wanted ++ [(offset, bytes)]) (media.write offset bytes).2 := by
  have off : media.outOfPower = true := by
    rw [follows.outOfPower_eq, refused]
    rfl
  have fault : media.writeFault = some .powerLoss := by rw [Simulated.writeFault, if_pos off]
  rw [Simulated.write, Image.holds, follows.size_eq, decide_eq_true inside, fault]
  refine ⟨rfl, follows.plan_eq, ?_, ?_, ?_⟩
  · rw [landing_of_not_allows refused]
    exact follows.image_eq
  · rw [landing_of_not_allows refused]
    exact follows.counted
  · change media.outOfPower = true ↔ _
    simp only [off, true_iff]
    cases budget with
    | none => cases refused
    | some limit =>
        have spent : limit ≤ wanted.length := Nat.not_lt.mp (of_decide_eq_false refused)
        exact ⟨limit, rfl, by rw [List.length_append, List.length_singleton]; omega⟩

theorem serve (call : Call) :
    (PowerCut.serve media call).1 = answer media.image (allows budget wanted.length) call ∧
      Follows image budget (wanted ++ call.within image.size) (PowerCut.serve media call).2 := by
  have size_eq := follows.size_eq
  cases call with
  | read offset length =>
      have reads : media.plan.failReads = false := by rw [follows.plan_eq]
      rw [PowerCut.serve, Simulated.read, Image.holds, reads, Call.within, List.append_nil, answer]
      by_cases inside : offset + length ≤ media.image.size
      · rw [if_pos inside, decide_eq_true inside]
        exact ⟨rfl, follows.uncounted rfl⟩
      · rw [if_neg inside, decide_eq_false inside]
        exact ⟨rfl, follows.uncounted rfl⟩
  | flush =>
      rw [Call.within, List.append_nil]
      exact ⟨rfl, follows.uncounted rfl⟩
  | write offset bytes =>
      rw [PowerCut.serve, Call.within, answer, size_eq]
      by_cases inside : offset + bytes.length ≤ image.size
      · rw [if_pos inside, if_pos inside]
        cases allowed : allows budget wanted.length with
        | true =>
            obtain ⟨landed, next⟩ := follows.write_lands inside allowed
            exact ⟨congrArg Flat.Answer.done landed, next⟩
        | false =>
            obtain ⟨lost, next⟩ := follows.write_lost inside allowed
            exact ⟨congrArg Flat.Answer.done lost, next⟩
      · rw [if_neg inside, if_neg inside, follows.write_outside inside, List.append_nil]
        exact ⟨rfl, follows⟩

theorem after (calls : List Call) :
    Follows image budget (wanted ++ within image.size calls) (PowerCut.after media calls) := by
  induction calls generalizing wanted media with
  | nil =>
      rw [within, List.flatMap_nil, List.append_nil]
      exact follows
  | cons call rest induction =>
      rw [within, List.flatMap_cons, ← List.append_assoc]
      exact induction (follows.serve call).2

end Follows

/-- **Power cut.** After any calls under a write budget the image is the one before with the
first of the writes inside the bounds, as many as the budget says: each byte is the one of the last
of them that covers it. The next call is answered as without a fault, but for a write inside the
bounds after at least so many others: that one meets the loss of power. After a reboot the image
is the same, and any calls are answered as without a fault and store all their writes inside the
bounds. -/
theorem budget_cuts (media : Simulated) (budget : Nat) (calls : List Call) :
    let size := media.image.size
    let wanted := within size calls
    let cut := after (media.setPlan { writeBudget := some budget }) calls
    cut.image = media.image.storeAll (wanted.take budget) ∧
      (∀ position, cut.image.byteAt position =
        byteAfter (wanted.take budget) position (media.image.byteAt position)) ∧
      (∀ call, (serve cut call).1 = answer cut.image (wanted.length < budget) call) ∧
      (cut.poweredOff = true ↔ budget < wanted.length) ∧
      cut.reboot.image = cut.image ∧
      ∀ more, (after cut.reboot more).image = cut.image.storeAll (within size more) ∧
        (∀ position, (after cut.reboot more).image.byteAt position =
          byteAfter (within size more) position (cut.image.byteAt position)) ∧
        ∀ call, (serve (after cut.reboot more) call).1 =
          answer (after cut.reboot more).image true call := by
  intro size wanted cut
  have follows : Follows media.image (some budget) wanted cut :=
    (follows_setPlan media (some budget)).after calls
  have landed : cut.image = media.image.storeAll (wanted.take budget) := follows.image_eq
  refine ⟨landed, fun position => ?_, fun call => (follows.serve call).1, ?_, rfl, fun more => ?_⟩
  · rw [landed, Image.byteAt_storeAll]
  · rw [follows.power]
    simp
  · have restarted : Follows cut.image none (within cut.image.size more) (after cut.reboot more) :=
      (follows_setPlan cut none).after more
    rw [follows.size_eq] at restarted
    have stored : (after cut.reboot more).image = cut.image.storeAll (within size more) :=
      restarted.image_eq
    refine ⟨stored, fun position => ?_, fun call => (restarted.serve call).1⟩
    rw [stored, Image.byteAt_storeAll]

end PowerCut

end Remap.Media
