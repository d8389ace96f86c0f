import Remap.Proofs.PageTable.WellBuilt

/-!
# Trees in one memory

Several trees can have their tables in one memory and take them from the same buffers. No table is
in two of them, so a call on one tree leaves what the others read back as.
-/

namespace Remap.PageTable

namespace Memory

variable {before after : Memory} {level address : Nat}

theorem leaves_congr (same : ∀ target, before.view.Spans level address target →
      before.Has target ∧ after.Has target ∧ after.view target = before.view target)
    (parent : Attribute) (origin : Nat) :
    after.leaves level address parent origin = before.leaves level address parent origin := by
  induction level generalizing address parent origin with
  | zero => rw [leaves, leaves]
  | succ level induction =>
      obtain ⟨has, later, view_eq⟩ := same address (.inl rfl)
      have read : after.table address = .ok (before.view address) := by
        rw [later.table_eq, view_eq]
      rw [leaves_eq has.table_eq, leaves_eq read]
      congr 1
      funext index
      have below (target : Nat) (used : before.view.Uses (level + 1)
          (before.view.entry (level + 1) address index) target) := same target (.inr ⟨index, used⟩)
      rw [Tables.entry] at below
      generalize Entry.decode ((before.view address).word index) (level + 1) = entry at below ⊢
      cases entry with
      | absent => rfl
      | leaf size attr => rfl
      | table child attr => exact induction below _ _

theorem report_congr {mode : Mode} {root : Nat} (same : root ≠ 0 →
      ∀ target, before.view.Spans mode.maxLevel root target →
        before.Has target ∧ after.Has target ∧ after.view target = before.view target)
    (output : List Extent) : after.report mode root output = before.report mode root output := by
  have scan_eq : after.scan mode root = before.scan mode root := by
    rw [scan, scan]
    by_cases rooted : root = 0
    · rw [if_pos rooted, if_pos rooted]
    · rw [if_neg rooted, if_neg rooted, leaves_congr (same rooted)]
  rw [report, report, scan_eq]

end Memory

/-! The callers share the memory and all buffers, and each keeps the address of its own root. A call
on one tree is that of a caller who has the memory to itself. -/

structure Shared where
  memory : Memory
  roots : Nat → Nat
  buffers : List Buffer

namespace Shared

def start : Shared := ⟨.empty, fun _ => 0, []⟩

def client (shared : Shared) (who : Nat) : Client :=
  ⟨shared.memory, shared.roots who, shared.buffers⟩

def keep (shared : Shared) (who index : Nat) (after : Workspace) : Shared :=
  ⟨after.memory, fun other => if other = who then after.root else shared.roots other,
    shared.buffers.set index after.buffer⟩

def call (shared : Shared) (who index : Nat) (edit : Edit) : Shared :=
  shared.keep who index (edit.apply ((shared.client who).space index)).2

/-- Reservations and calls on any of the trees lead from nothing to `shared`, whatever the calls
return. Tree number `who` has `levels who` levels. -/
inductive Runs (levels : Nat → Nat) : Shared → Prop
  | start : Runs levels .start
  | reserve {shared : Shared} {size : Nat} {buffer : Buffer} {memory : Memory}
      (runs : Runs levels shared) (reserved : shared.memory.reserve size = .ok (buffer, memory))
      (small : Memory.firstAddress + memory.reserved ≤ spaceSize) :
      Runs levels ⟨memory, shared.roots, shared.buffers ++ [buffer]⟩
  | call {shared : Shared} (who index : Nat) (edit : Edit) (runs : Runs levels shared)
      (height : edit.mode.maxLevel = levels who) : Runs levels (shared.call who index edit)

structure Orderly (shared : Shared) (levels : Nat → Nat) : Prop where
  clients : ∀ who, (shared.client who).Orderly (levels who)
  apart : ∀ first second, first ≠ second → ∀ target,
    ((shared.client first).space 0).Spans (levels first) target →
    ¬((shared.client second).space 0).Spans (levels second) target

variable {shared : Shared} {levels : Nat → Nat} {who other index target : Nat} {edit : Edit}
  {outcome : Outcome} {after : Workspace}

theorem orderly_start : start.Orderly levels where
  clients _ := Client.orderly_start
  apart _ _ _ _ spanned := absurd rfl spanned.1

theorem Orderly.has (orderly : shared.Orderly levels)
    (spanned : ((shared.client who).space 0).Spans (levels who) target) :
    shared.memory.Has target :=
  (((orderly.clients who).space 0).1.owns spanned.1).has target spanned.2

theorem Orderly.unspare (orderly : shared.Orderly levels)
    (spanned : ((shared.client who).space 0).Spans (levels who) target) (index : Nat) :
    ¬((shared.client who).space index).buffer.Spare target :=
  (((orderly.clients who).space index).1.owns spanned.1).apart target spanned.2

theorem Orderly.reserve {size : Nat} {buffer : Buffer} {memory : Memory}
    (orderly : shared.Orderly levels)
    (reserved : shared.memory.reserve size = .ok (buffer, memory))
    (small : Memory.firstAddress + memory.reserved ≤ spaceSize) :
    Orderly ⟨memory, shared.roots, shared.buffers ++ [buffer]⟩ levels where
  clients who := (orderly.clients who).reserve reserved small
  apart := by
    have old {who target : Nat} (spanned : Workspace.Spans
        ⟨memory, shared.roots who, (shared.buffers ++ [buffer]).getD 0 .empty⟩ (levels who)
        target) :
        ((shared.client who).space 0).Spans (levels who) target := by
      obtain ⟨rooted, spanned⟩ := spanned
      refine ⟨rooted, (Tables.spans_of_same fun target spanned => ?_).mp spanned⟩
      exact (Memory.extends_of_reserve reserved).view_eq (orderly.has ⟨rooted, spanned⟩)
    intro first second apart target spanned also
    exact orderly.apart first second apart target (old spanned) (old also)

theorem client_keep_self :
    (shared.keep who index after).client who = (shared.client who).keep index after := by
  have root_eq : (shared.keep who index after).roots who = after.root := if_pos rfl
  rw [client, root_eq]
  rfl

theorem client_keep_other (apart : other ≠ who) : (shared.keep who index after).client other =
    ⟨after.memory, shared.roots other, shared.buffers.set index after.buffer⟩ := by
  have root_eq : (shared.keep who index after).roots other = shared.roots other := if_neg apart
  rw [client, root_eq]
  rfl

theorem keep_space : shared.keep who index ((shared.client who).space index) = shared := by
  have roots_eq : (fun other => if other = who then shared.roots who else shared.roots other) =
      shared.roots := by
    funext other
    split
    next same => rw [same]
    next => rfl
  rw [keep, Client.space]
  dsimp only [client]
  rw [roots_eq, Client.set_getD]

section Call

variable (orderly : shared.Orderly levels)
  (remakes : edit.Remakes ((shared.client who).space index) outcome after)
  (height : edit.mode.maxLevel = levels who) (apart : other ≠ who)

include orderly remakes height apart

/-- A call leaves the tables of the other trees. -/
theorem frame (target : Nat)
    (spanned : ((shared.client other).space 0).Spans (levels other) target) :
    after.memory.view target = shared.memory.view target := by
  apply remakes.frame target (orderly.has spanned)
  · rw [height]
    exact orderly.apart other who apart target spanned
  · exact orderly.unspare spanned index

theorem spans_keep_other (spanned :
      (((shared.keep who index after).client other).space 0).Spans (levels other) target) :
    ((shared.client other).space 0).Spans (levels other) target := by
  rw [client_keep_other apart] at spanned
  obtain ⟨rooted, spanned⟩ := spanned
  refine ⟨rooted, (Tables.spans_of_same fun target spanned => ?_).mp spanned⟩
  exact frame orderly remakes height apart target ⟨rooted, spanned⟩

end Call

theorem orderly_other (orderly : shared.Orderly levels)
    (reshaped : Workspace.Reshaped (levels who) ((shared.client who).space index) after)
    (remaining_le : after.buffer.remaining ≤ after.buffer.size)
    (same : ∀ target, ((shared.client other).space 0).Spans (levels other) target →
      after.memory.view target = shared.memory.view target) :
    Client.Orderly ⟨after.memory, shared.roots other, shared.buffers.set index after.buffer⟩
      (levels other) := by
  have worked := (orderly.clients who).keep reshaped remaining_le
  obtain ⟨pages, sound⟩ := worked.sound
  refine ⟨Client.sound_of_spaces (fun place => ?_) sound.distinct, worked.remaining_le⟩
  obtain ⟨old, -⟩ := (orderly.clients other).space place
  have ready := (sound.spaces place).ready
  refine ⟨⟨ready.base_aligned, ready.remaining_aligned, ready.spare, ready.small⟩, old.number, ?_⟩
  intro rooted
  have holds := old.holds rooted
  have below : Tables.SameBelow shared.memory.view after.memory.view (levels other + 1)
      (.pointer (shared.roots other)) := by
    intro target used
    have spanned : shared.memory.view.Spans (levels other)
        (UInt64.ofNat (shared.roots other)).toNat target := used
    have number : (UInt64.ofNat (shared.roots other)).toNat = shared.roots other := old.number
    rw [number] at spanned
    exact same target ⟨rooted, spanned⟩
  refine ⟨below.tidy holds.tidy, ?_, ?_⟩
  · intro target used
    exact (holds.has target (below.uses_iff.mp used)).of_size_eq reshaped.follows.size_eq
  · intro target used spare
    exact holds.apart target (below.uses_iff.mp used) (Client.keep_spare reshaped spare).1

theorem Orderly.call (orderly : shared.Orderly levels) (who index : Nat)
    (height : edit.mode.maxLevel = levels who) : (shared.call who index edit).Orderly levels := by
  rcases (orderly.clients who).settles index height with
    ⟨cause, ran⟩ | ⟨outcome, after, ran, reshaped, lends⟩
  · rw [Shared.call, ran, keep_space]
    exact orderly
  · have remakes := (orderly.clients who).remakes index height ran
    rw [height] at reshaped
    rw [Shared.call, ran]
    have old {other target : Nat} (apart : other ≠ who) (spanned :
        (((shared.keep who index after).client other).space 0).Spans (levels other) target) :=
      spans_keep_other orderly remakes height apart spanned
    have met {other target : Nat} (apart : other ≠ who) (spanned :
        (((shared.keep who index after).client who).space 0).Spans (levels who) target)
        (also : ((shared.client other).space 0).Spans (levels other) target) : False := by
      rw [client_keep_self, ← height] at spanned
      rcases remakes.spans target spanned with first | gained
      · rw [height] at first
        exact orderly.apart who other apart.symm target first also
      · exact orderly.unspare also index gained.took.2.1
    constructor
    · intro other
      by_cases same : other = who
      · subst same
        rw [client_keep_self]
        exact (orderly.clients other).keep reshaped lends.remaining_le
      · rw [client_keep_other same]
        exact orderly_other orderly reshaped lends.remaining_le
          (frame orderly remakes height same)
    · intro first second apart target spanned also
      by_cases here : first = who
      · subst here
        exact met apart.symm spanned (old apart.symm also)
      · by_cases there : second = who
        · subst there
          exact met here also (old here spanned)
        · exact orderly.apart first second apart target (old here spanned) (old there also)

theorem Runs.orderly (runs : shared.Runs levels) : shared.Orderly levels := by
  induction runs with
  | start => exact orderly_start
  | reserve runs reserved small induction => exact induction.reserve reserved small
  | call who index edit runs height induction => exact induction.call who index height

/-- Whatever was called before on any of the trees, a call on one tree leaves what every other one
reads back as, into whatever output. -/
theorem call_keeps_reports (levels : Nat → Nat) (shared : Shared) (runs : shared.Runs levels)
    (who index : Nat) (edit : Edit) (height : edit.mode.maxLevel = levels who) (other : Nat)
    (apart : other ≠ who) (mode : Mode) (read : mode.maxLevel = levels other)
    (output : List Extent) :
    (shared.call who index edit).memory.report mode ((shared.call who index edit).roots other)
      output = shared.memory.report mode (shared.roots other) output := by
  have orderly := runs.orderly
  rcases (orderly.clients who).settles index height with
    ⟨cause, ran⟩ | ⟨outcome, after, ran, reshaped, -⟩
  · rw [call, ran, keep_space]
  · have remakes := (orderly.clients who).remakes index height ran
    have root_eq : (shared.keep who index after).roots other = shared.roots other := if_neg apart
    rw [call, ran, root_eq]
    apply Memory.report_congr
    intro rooted target spanned
    rw [read] at spanned
    have has := orderly.has ⟨rooted, spanned⟩
    exact ⟨has, has.of_size_eq reshaped.follows.size_eq,
      frame orderly remakes height apart target ⟨rooted, spanned⟩⟩

def reservedShared : Shared :=
  ⟨⟨#[] ++ Array.replicate 16 Table.blank⟩, fun _ => 0, [⟨0x100000, 0x10000, 0x10000⟩]⟩

def smallLevels : Nat → Nat
  | 0 => 4
  | _ + 1 => 5

def tallEdit : Edit := ⟨.fiveLevel .page1G, 0x1000, 0x1000, ⟨0x5007⟩, .all⟩

def smallShared : Shared := reservedShared.call 1 0 tallEdit

theorem call_keeps_reports_small :
    smallShared.Runs smallLevels ∧ smallShared.roots 1 ≠ 0 ∧
      (smallShared.call 0 0 Client.smallEdit).memory.report (.fiveLevel .page1G)
        ((smallShared.call 0 0 Client.smallEdit).roots 1) [.empty] =
          smallShared.memory.report (.fiveLevel .page1G) (smallShared.roots 1) [.empty] := by
  have taken : start.memory.reserve 0x10000 =
      .ok (⟨0x100000, 0x10000, 0x10000⟩, reservedShared.memory) := rfl
  have reserved : reservedShared.Runs smallLevels := .reserve .start taken (by decide)
  have runs : smallShared.Runs smallLevels := .call 1 0 tallEdit reserved rfl
  have height : Client.smallEdit.mode.maxLevel = smallLevels 0 := by decide
  have same := call_keeps_reports smallLevels smallShared runs 0 0 Client.smallEdit height 1
    (by decide) (.fiveLevel .page1G) rfl [.empty]
  exact ⟨runs, by decide +kernel, same⟩

end Shared

end Remap.PageTable
