import Remap.Proofs.PageTable.Bystanders
import Remap.Proofs.PageTable.WellBuilt

/-!
# Edits that leave presence

An edit whose mask leaves the present flag maps no page. It unmaps none either, unless the mask
selects the base address: a leaf with a new base address is written from nothing, so its pages are
left without presence.
-/

namespace Remap.PageTable

namespace Edit

variable {edit : Edit} {level slot linear : Nat} {parent : Attribute}

theorem has_updated (unselected : edit.mask.has .present = false) (attr : Attribute) :
    (edit.updated attr linear).has .present = (attr.has .present && !edit.mask.includesBase) :=
  Attribute.has_update_of_unselected unselected

theorem Rewrites.isSome_page {before after : Node}
    (rewrites : edit.Rewrites level parent slot before after)
    (above : Above level slot linear parent) (formed : before.Formed level)
    (aligned : linear % pageBytes = 0) (inside : edit.start ≤ linear ∧ linear < edit.stop)
    (unselected : edit.mask.has .present = false) :
    (after.page level parent linear).isSome =
      ((before.page level parent linear).isSome && !edit.mask.includesBase) := by
  let related (old new : Option Attribute) : Prop :=
    new.isSome = (old.isSome && !edit.mask.includesBase)
  change related (before.page level parent linear) (after.page level parent linear)
  refine rewrites.page_related above formed aligned (fun outside => absurd inside outside) ?_ ?_
  · intro level slot parent node above formed acted
    rcases keep_cases acted with absent | ⟨size, attr, first, leaf, same⟩
    · rw [Node.page_absent absent]
      rfl
    · obtain ⟨word, rfl, found⟩ := formed.of_leaf leaf
      have present := (Entry.decode_leaf found).2.present
      have stays : (edit.updated (attr.advance (first - slot)) first).has .present = _ :=
        has_updated unselected (attr.advance (first - slot))
      rw [same, Attribute.has_advance, present, Bool.true_and] at stays
      rw [Node.page_leaf found]
      exact stays
  · intro level slot parent node entry above formed acted
    obtain ⟨size, attr, leaf, rfl⟩ := store_over_leaf (.inr unselected) acted
    obtain ⟨word, rfl, found⟩ := formed.of_leaf leaf
    have fits := (Entry.decode_leaf found).2
    rw [Node.page_leafAt fits.positive fits.low, Node.page_leaf found, has_updated unselected,
      fits.present, Bool.true_and]
    cases includes : edit.mask.includesBase <;> simp [related, includes]

end Edit

namespace Client

/-- A call whose mask leaves the present flag maps no page. Where the mask selects the base
address, just the pages of the range are unmapped, and else none is. -/
theorem presence_of_unselected (levels : Nat) (client : Client) (calls : client.Calls levels)
    (index : Nat) (edit : Edit) (height : edit.mode.maxLevel = levels) (outcome : Outcome)
    (after : Workspace) (ran : edit.apply (client.space index) = (.ok outcome, after))
    (unselected : edit.mask.has .present = false) (linear : Nat)
    (inside : linear < edit.mode.linearLimit) :
    (after.memory.translate edit.mode after.root linear).isSome =
      ((client.memory.translate edit.mode client.root linear).isSome &&
        !(edit.mask.includesBase && decide (edit.start ≤ linear ∧ linear < edit.stop))) := by
  obtain ⟨remakes, has⟩ := calls.remakes index height ran
  obtain ⟨slot, old, new, rewrites, above, formed, was, became⟩ :=
    remakes.translations has inside
  have was : client.memory.translate edit.mode client.root linear = _ := was
  have aligned := pageStart_aligned linear
  have range := Edit.inside_iff_of_ok ran linear
  rw [became, was, Option.isSome_map, Option.isSome_map]
  by_cases within : edit.start ≤ linear ∧ linear < edit.stop
  · rw [rewrites.isSome_page above formed aligned (range.mpr within) unselected,
      decide_eq_true within, Bool.and_true]
  · rw [rewrites.page_outside above formed aligned fun met => within (range.mp met),
      decide_eq_false within, Bool.and_false, Bool.not_false, Bool.and_true]

def protectEdit : Edit := ⟨.fourLevel .page1G, 0x1000, 0x2000, .empty, ⟨Flag.readWrite.mask⟩⟩

theorem presence_of_unselected_protect :
    protectEdit.mask.has .present = false ∧
      ∃ after, protectEdit.apply (smallClient.space 0) = (.ok ⟨0, true⟩, after) ∧
        (after.memory.translate protectEdit.mode after.root 0x1000).isSome = true := by
  have evaluated : (smallClient.memory.translate protectEdit.mode smallClient.root 0x1000).isSome =
        true ∧ (protectEdit.apply (smallClient.space 0)).1.toOption = some ⟨0, true⟩ := by
    decide +kernel
  have ran := ran_of_toOption evaluated.2
  have same := presence_of_unselected 4 smallClient smallClient_calls 0 protectEdit rfl _ _ ran
    (by decide) 0x1000 (by decide)
  rw [evaluated.1] at same
  exact ⟨by decide, _, ran, same⟩

def moveEdit : Edit := ⟨.fourLevel .page1G, 0x1000, 0x1000, ⟨0x6000⟩, ⟨Attribute.baseMask⟩⟩

/-- A call whose mask leaves the present flag can unmap a page. -/
theorem not_presence_kept :
    ¬∀ (levels : Nat) (client : Client), client.Calls levels →
      ∀ (index : Nat) (edit : Edit), edit.mode.maxLevel = levels →
      ∀ (outcome : Outcome) (after : Workspace),
        edit.apply (client.space index) = (.ok outcome, after) →
        edit.mask.has .present = false → ∀ linear, linear < edit.mode.linearLimit →
        (after.memory.translate edit.mode after.root linear).isSome =
          (client.memory.translate edit.mode client.root linear).isSome := by
  intro kept
  have evaluated : (smallClient.memory.translate moveEdit.mode smallClient.root 0x1000).isSome =
        true ∧ (moveEdit.apply (smallClient.space 0)).1.toOption = some ⟨0, true⟩ ∧
      ((moveEdit.apply (smallClient.space 0)).2.memory.translate moveEdit.mode
        (moveEdit.apply (smallClient.space 0)).2.root 0x1000).isSome = false := by
    decide +kernel
  obtain ⟨mapped, succeeded, unmapped⟩ := evaluated
  have same := kept 4 smallClient smallClient_calls 0 moveEdit rfl _ _ (ran_of_toOption succeeded)
    (by decide) 0x1000 (by decide)
  rw [unmapped, mapped] at same
  cases same

end Client

end Remap.PageTable
