import Remap.Proofs.PageTable.Bystanders
import Remap.Proofs.PageTable.WellBuilt

/-!
# Edits that leave the base address

A mask that selects some bits of the base address, but not all, does not select the base address.
An edit with such a mask moves a page nevertheless, within the bits that are selected: all others
of its physical address stay, whatever the size of the leaf that maps it.
-/

namespace Remap.PageTable

def AgreeOutside (mask left right : Nat) : Prop :=
  ∀ bit, mask.testBit bit = false → left.testBit bit = right.testBit bit

namespace AgreeOutside

variable {mask left right : Nat}

theorem refl (mask value : Nat) : AgreeOutside mask value value := fun _ _ => rfl

theorem eq (agree : AgreeOutside 0 left right) : left = right :=
  Nat.eq_of_testBit_eq fun bit => agree bit (Nat.zero_testBit bit)

theorem and {field wide : Nat} (agree : AgreeOutside mask left right)
    (inside : field &&& wide = field) :
    AgreeOutside (mask &&& wide) (left &&& field) (right &&& field) := by
  intro bit clear
  rw [Nat.testBit_and] at clear
  rw [Nat.testBit_and, Nat.testBit_and]
  cases member : field.testBit bit with
  | false => rw [Bool.and_false, Bool.and_false]
  | true =>
      have covered : wide.testBit bit = true := by
        rw [← inside, Nat.testBit_and, Bool.and_eq_true] at member
        exact member.2
      rw [covered, Bool.and_true] at clear
      rw [agree bit clear]

theorem add {power offset : Nat} (agree : AgreeOutside mask left right)
    (leftAligned : left % 1 <<< power = 0) (rightAligned : right % 1 <<< power = 0)
    (short : offset < 1 <<< power) : AgreeOutside mask (left + offset) (right + offset) := by
  rw [Nat.one_shiftLeft] at leftAligned rightAligned short
  obtain ⟨leftCount, rfl⟩ := Nat.dvd_of_mod_eq_zero leftAligned
  obtain ⟨rightCount, rfl⟩ := Nat.dvd_of_mod_eq_zero rightAligned
  intro bit clear
  have same := agree bit clear
  rw [Nat.testBit_two_pow_mul, Nat.testBit_two_pow_mul] at same
  rw [Nat.testBit_two_pow_mul_add _ short, Nat.testBit_two_pow_mul_add _ short]
  split
  next => rfl
  next low =>
    have high : bit ≥ power := Nat.le_of_not_lt low
    simpa [high] using same

theorem of_and_not {mask left right : UInt64} (same : left &&& ~~~mask = right &&& ~~~mask) :
    AgreeOutside mask.toNat left.toNat right.toNat := by
  intro bit clear
  have clear : mask.toBitVec.getLsbD bit = false := clear
  change left.toBitVec.getLsbD bit = right.toBitVec.getLsbD bit
  by_cases inside : bit < 64
  · have here := congrArg (fun word => word.toBitVec.getLsbD bit) same
    simp only [UInt64.toBitVec_and, UInt64.toBitVec_not, BitVec.getLsbD_and, BitVec.getLsbD_not,
      inside, clear, decide_true, Bool.not_false, Bool.and_true] at here
    exact here
  · have beyond := Nat.le_of_not_lt inside
    rw [BitVec.getLsbD_of_ge _ _ beyond, BitVec.getLsbD_of_ge _ _ beyond]

end AgreeOutside

namespace Edit

variable {edit : Edit} {level slot linear : Nat} {parent attr : Attribute}

theorem base_updated (leaves : edit.mask.includesBase = false) (fits : Entry.Fits level attr) :
    AgreeOutside edit.mask.base.toNat (Entry.stored level (edit.updated attr slot)).base.toNat
      attr.base.toNat := by
  have narrow : Entry.leafBaseMask level &&& Attribute.baseMask = Entry.leafBaseMask level :=
    Entry.leafBaseMask_and_inside UInt64.and_self
  have words : AgreeOutside edit.mask.bits.toNat (edit.updated attr slot).bits.toNat
      attr.bits.toNat := AgreeOutside.of_and_not (Attribute.update_and_not leaves)
  rw [Entry.base_stored fits.positive fits.low, ← fits.base_eq, UInt64.toNat_and,
    UInt64.toNat_and, Attribute.base, UInt64.toNat_and]
  apply AgreeOutside.and words
  rw [← UInt64.toNat_and, narrow]

theorem agree_advance {mask : Nat} {left right : Attribute} (first : Entry.Fits level left)
    (second : Entry.Fits level right) (aligned : linear % pageBytes = 0)
    (agree : AgreeOutside mask left.base.toNat right.base.toNat) :
    AgreeOutside mask ((left.inherit parent).advance (linear % levelSize level)).base.toNat
      ((right.inherit parent).advance (linear % levelSize level)).base.toNat := by
  rw [first.base_advance aligned, second.base_advance aligned]
  exact agree.add first.aligned second.aligned (Nat.mod_lt linear (levelSize_pos level))

/-- A page that is mapped before and after keeps the bits of its base address that the mask
leaves. -/
theorem Rewrites.base_page {before after : Node}
    (rewrites : edit.Rewrites level parent slot before after)
    (above : Above level slot linear parent) (formed : before.Formed level)
    (aligned : linear % pageBytes = 0) (leaves : edit.mask.includesBase = false)
    (old new : Attribute) (was : before.page level parent linear = some old)
    (became : after.page level parent linear = some new) :
    AgreeOutside edit.mask.base.toNat new.base.toNat old.base.toNat := by
  let related (before after : Option Attribute) : Prop := ∀ old new, before = some old →
    after = some new → AgreeOutside edit.mask.base.toNat new.base.toNat old.base.toNat
  have same (page : Option Attribute) : related page page := by
    intro old new was became
    cases was.symm.trans became
    exact .refl _ _
  have pages : related (before.page level parent linear) (after.page level parent linear) := by
    refine rewrites.page_related above formed aligned (fun _ => same) (fun _ _ _ => same _) ?_
    intro level slot parent node entry above formed acted old new was became
    obtain ⟨size, attr, leaf, rfl⟩ := store_over_leaf (.inl leaves) acted
    obtain ⟨word, rfl, found⟩ := formed.of_leaf leaf
    have fits := (Entry.decode_leaf found).2
    rw [Node.page_leaf found] at was
    rw [Node.page_leafAt fits.positive fits.low] at became
    split at became
    next present =>
      cases was
      cases became
      have kept := Entry.decode_encode_stored fits.positive fits.low present
      exact agree_advance (Entry.decode_leaf kept).2 fits aligned (base_updated leaves fits)
    next => cases became
  exact pages old new was became

end Edit

namespace Client

/-- A call whose mask does not select the base address keeps each bit of the physical address of
a page that the mask leaves. If it leaves them all, no page is moved. -/
theorem frames_of_unselected (levels : Nat) (client : Client) (calls : client.Calls levels)
    (index : Nat) (edit : Edit) (height : edit.mode.maxLevel = levels) (outcome : Outcome)
    (after : Workspace) (ran : edit.apply (client.space index) = (.ok outcome, after))
    (leaves : edit.mask.includesBase = false) (linear : Nat)
    (inside : linear < edit.mode.linearLimit) (old new : Translation)
    (was : client.memory.translate edit.mode client.root linear = some old)
    (became : after.memory.translate edit.mode after.root linear = some new) :
    (edit.mask.base = 0 → new.physical = old.physical) ∧
      ∀ bit, edit.mask.base.toNat.testBit bit = false →
        new.physical.testBit bit = old.physical.testBit bit := by
  obtain ⟨remakes, has⟩ := calls.remakes index height ran
  obtain ⟨slot, before, made, rewrites, above, formed, before_eq, made_eq⟩ :=
    remakes.translations has inside
  obtain ⟨first, firstPage, rfl⟩ := Option.map_eq_some_iff.mp (before_eq.symm.trans was)
  obtain ⟨second, secondPage, rfl⟩ := Option.map_eq_some_iff.mp (made_eq.symm.trans became)
  have agree : AgreeOutside edit.mask.base.toNat (second.translation (linear % pageBytes)).physical
      (first.translation (linear % pageBytes)).physical := by
    have pages := rewrites.base_page above formed (pageStart_aligned linear) leaves first second
      firstPage secondPage
    have short : linear % pageBytes < 1 <<< 12 := Nat.mod_lt _ (by decide)
    exact pages.add (Attribute.base_aligned second) (Attribute.base_aligned first) short
  refine ⟨fun none => ?_, agree⟩
  rw [none] at agree
  exact agree.eq

def nudgeEdit : Edit := ⟨.fourLevel .page1G, 0x1000, 0x1000, ⟨0x2000⟩, ⟨0x2000⟩⟩

/-- The page is moved within the bit that is selected. -/
theorem frames_of_unselected_nudge :
    nudgeEdit.mask.includesBase = false ∧
      ∃ after, nudgeEdit.apply (smallClient.space 0) = (.ok ⟨0, true⟩, after) ∧
        smallClient.memory.translate nudgeEdit.mode smallClient.root 0x1000 = some ⟨0x5000, 7⟩ ∧
        after.memory.translate nudgeEdit.mode after.root 0x1000 = some ⟨0x7000, 7⟩ ∧
        ∀ bit, nudgeEdit.mask.base.toNat.testBit bit = false →
          Nat.testBit 0x7000 bit = Nat.testBit 0x5000 bit := by
  have evaluated : smallClient.memory.translate nudgeEdit.mode smallClient.root 0x1000 =
        some ⟨0x5000, 7⟩ ∧ (nudgeEdit.apply (smallClient.space 0)).1.toOption = some ⟨0, true⟩ ∧
      (nudgeEdit.apply (smallClient.space 0)).2.memory.translate nudgeEdit.mode
        (nudgeEdit.apply (smallClient.space 0)).2.root 0x1000 = some ⟨0x7000, 7⟩ := by
    decide +kernel
  obtain ⟨mapped, succeeded, moved⟩ := evaluated
  have ran := ran_of_toOption succeeded
  have kept := frames_of_unselected 4 smallClient smallClient_calls 0 nudgeEdit rfl _ _ ran
    (by decide) 0x1000 (by decide) _ _ mapped moved
  exact ⟨by decide, _, ran, mapped, moved, kept.2⟩

end Client

end Remap.PageTable
