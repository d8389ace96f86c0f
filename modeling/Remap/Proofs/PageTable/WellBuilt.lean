import Remap.Proofs.PageTable.Calls
import Remap.Proofs.PageTable.Regular
import Remap.Proofs.PageTable.Remake

/-!
# Trees that calls build

A tree that calls build from nothing is made of pages that were taken from the buffers, each with
one pointer to it. The pointers take nothing away, no leaf is larger than the largest that one of
the calls may write, and a large leaf lies where leaves of its size do.
-/

namespace Remap.PageTable

namespace Buffer

def Used (buffer : Buffer) (address : Nat) : Prop :=
  buffer.base + buffer.remaining ≤ address ∧ address < buffer.base + buffer.size

theorem not_used_empty {address : Nat} : ¬empty.Used address := by
  rintro ⟨-, high⟩
  exact Nat.not_lt_zero address high

end Buffer

theorem Workspace.Ready.addressable {space : Workspace} (ready : space.Ready) :
    space.Addressable :=
  fun _ has _ => Nat.lt_of_lt_of_le has.2.2 ready.small

namespace Edit

variable {edit : Edit} {space after : Workspace} {outcome : Outcome} {target : Nat}

theorem Remakes.used_before (remakes : edit.Remakes space outcome after)
    (used : space.buffer.Used target) : after.buffer.Used target := by
  obtain ⟨count, spends⟩ := remakes.spends
  have base : after.buffer.base = space.buffer.base := spends.base_eq
  have whole : after.buffer.size = space.buffer.size := spends.whole_eq
  have remaining : after.buffer.remaining + count * pageBytes = space.buffer.remaining :=
    spends.remaining_eq
  rw [Buffer.Used] at *
  omega

theorem Remakes.used_after (remakes : edit.Remakes space outcome after)
    (remaining_le : space.buffer.remaining ≤ space.buffer.size)
    (gained : Gained ⟨space, 0, false⟩ ⟨after, outcome.pages, outcome.modified⟩ target) :
    space.buffer.Spare target ∧ after.buffer.Used target := by
  obtain ⟨count, spends⟩ := remakes.spends
  have base : after.buffer.base = space.buffer.base := spends.base_eq
  have whole : after.buffer.size = space.buffer.size := spends.whole_eq
  have spare : space.buffer.Spare target := gained.took.2.1
  have taken : ¬after.buffer.Spare target := gained.took.2.2
  rw [Buffer.Spare] at taken spare
  refine ⟨spare, ?_⟩
  rw [Buffer.Used]
  omega

end Edit

namespace Client

/-! A run also keeps the edits that were called for, as their modes bound the leaves that there
are. -/

inductive Ran (levels : Nat) : Client → List Edit → Prop
  | start : Ran levels .start []
  | reserve {client : Client} {edits : List Edit} {size : Nat} {buffer : Buffer} {memory : Memory}
      (ran : Ran levels client edits) (reserved : client.memory.reserve size = .ok (buffer, memory))
      (small : Memory.firstAddress + memory.reserved ≤ spaceSize) :
      Ran levels ⟨memory, client.root, client.buffers ++ [buffer]⟩ edits
  | map {client : Client} {edits : List Edit} (index : Nat) (edit : Edit)
      (ran : Ran levels client edits) (height : edit.mode.maxLevel = levels) :
      Ran levels (client.keep index (edit.apply (client.space index)).2) (edit :: edits)

def highestLeaf (edits : List Edit) : Nat :=
  (edits.map fun edit => edit.mode.maxLeafLevel).foldr max 0

variable {client : Client} {levels limit : Nat} {edits : List Edit} {edit : Edit}

theorem Ran.calls (ran : client.Ran levels edits) : client.Calls levels := by
  induction ran with
  | start => exact .start
  | reserve ran reserved small induction => exact .reserve induction reserved small
  | map index edit ran height induction => exact .map index edit induction height

theorem Orderly.remakes {outcome : Outcome} {after : Workspace} (orderly : client.Orderly levels)
    (index : Nat) (height : edit.mode.maxLevel = levels)
    (ran : edit.apply (client.space index) = (.ok outcome, after)) :
    edit.Remakes (client.space index) outcome after := by
  subst height
  obtain ⟨sound, -⟩ := orderly.space index
  exact Edit.apply_remakes sound.ready.addressable sound.owns ran

theorem Calls.remakes {outcome : Outcome} {after : Workspace} (calls : client.Calls levels)
    (index : Nat) (height : edit.mode.maxLevel = levels)
    (ran : edit.apply (client.space index) = (.ok outcome, after)) :
    edit.Remakes (client.space index) outcome after ∧
      ∀ target, (client.space index).Spans edit.mode.maxLevel target →
        (client.space index).memory.Has target := by
  refine ⟨calls.orderly.remakes index height ran, ?_⟩
  subst height
  rintro target ⟨rooted, spanned⟩
  exact ((calls.orderly.space index).1.owns rooted).has target spanned

section Buffers

variable {place index target : Nat} {after : Workspace}

theorem listed_of_buffer (held : (client.space place).buffer ≠ .empty) :
    place < client.buffers.length := by
  apply Decidable.byContradiction
  intro unlisted
  apply held
  rw [space, List.getD_eq_getElem?_getD, List.getElem?_eq_none (Nat.le_of_not_lt unlisted)]
  rfl

theorem listed_of_used (used : (client.space place).buffer.Used target) :
    place < client.buffers.length := by
  apply listed_of_buffer
  intro blank
  rw [blank] at used
  exact Buffer.not_used_empty used

theorem listed_of_spare (spare : (client.space place).buffer.Spare target) :
    place < client.buffers.length := by
  apply listed_of_buffer
  intro blank
  rw [blank] at spare
  exact Buffer.not_spare_empty spare

theorem keep_buffer_of_listed (listed : place < client.buffers.length) :
    ((client.keep index after).space place).buffer =
      if place = index then after.buffer else (client.space place).buffer := by
  simp only [space, keep, List.getD_eq_getElem?_getD]
  split
  next here =>
    subst here
    rw [List.getElem?_set_self listed, Option.getD_some]
  next apart => rw [List.getElem?_set_ne (Ne.symm apart)]

theorem set_getD (buffers : List Buffer) (index : Nat) :
    buffers.set index (buffers.getD index .empty) = buffers := by
  by_cases listed : index < buffers.length
  · rw [List.getD_eq_getElem?_getD, List.getElem?_eq_getElem listed, Option.getD_some,
      List.set_getElem_self]
  · exact List.set_eq_of_length_le (Nat.le_of_not_lt listed)

theorem keep_space : client.keep index (client.space index) = client :=
  congrArg (Client.mk client.memory client.root) (set_getD client.buffers index)

end Buffers

structure Furnished (client : Client) (levels limit : Nat) : Prop where
  regular : ∀ index, ((client.space 0).nodes levels index).Regular limit levels
  used : ∀ target, (client.space 0).Spans levels target →
    ∃ place, (client.space place).buffer.Used target

theorem furnished_start : start.Furnished levels 0 where
  regular _ := Node.regular_zero
  used _ spanned := absurd rfl spanned.1

theorem Furnished.reserve {size : Nat} {buffer : Buffer} {memory : Memory}
    (furnished : client.Furnished levels limit) (calls : client.Calls levels)
    (reserved : client.memory.reserve size = .ok (buffer, memory)) :
    Furnished ⟨memory, client.root, client.buffers ++ [buffer]⟩ levels limit := by
  obtain ⟨sound, -⟩ := calls.orderly.space 0
  have same (rooted : client.root ≠ 0) (target : Nat)
      (spanned : client.memory.view.Spans levels client.root target) :
      memory.view target = client.memory.view target :=
    (Memory.extends_of_reserve reserved).view_eq ((sound.owns rooted).has target spanned)
  constructor
  · intro index
    have old := furnished.regular index
    by_cases rooted : client.root = 0
    · rw [Workspace.nodes_unrooted rooted]
      exact Node.regular_zero
    · rw [Workspace.nodes_rooted rooted] at old ⊢
      change (memory.view.nodes levels client.root index).Regular limit levels
      rw [Tables.nodes_of_same (same rooted)]
      exact old
  · rintro target ⟨rooted, spanned⟩
    obtain ⟨place, used⟩ := furnished.used target
      ⟨rooted, (Tables.spans_of_same (same rooted)).mp spanned⟩
    refine ⟨place, ?_⟩
    rw [reserve_buffer, if_neg (Nat.ne_of_lt (listed_of_used used))]
    exact used

theorem Furnished.map (furnished : client.Furnished levels limit) (calls : client.Calls levels)
    (index : Nat) (height : edit.mode.maxLevel = levels) :
    (client.keep index (edit.apply (client.space index)).2).Furnished levels
      (max edit.mode.maxLeafLevel limit) := by
  rcases calls.settles index height with ⟨cause, ran⟩ | ⟨outcome, after, ran, -, -⟩
  · rw [ran, keep_space]
    exact ⟨fun place => (furnished.regular place).mono (Nat.le_max_right _ _), furnished.used⟩
  · have remakes := calls.orderly.remakes index height ran
    subst height
    rw [ran]
    constructor
    · intro place
      exact (remakes.rewrites place).regular edit.mode.maxLevel_ne_zero (Nat.le_max_left _ _)
        ((furnished.regular place).mono (Nat.le_max_right _ _))
    · intro target spanned
      rcases remakes.spans target spanned with old | gained
      · obtain ⟨place, used⟩ := furnished.used target old
        refine ⟨place, ?_⟩
        rw [keep_buffer_of_listed (listed_of_used used)]
        split
        next here =>
          subst here
          exact remakes.used_before used
        next => exact used
      · obtain ⟨spare, used⟩ := remakes.used_after (calls.orderly.remaining_le index) gained
        refine ⟨index, ?_⟩
        rw [keep_buffer_of_listed (listed_of_spare spare), if_pos rfl]
        exact used

theorem Ran.furnished (ran : client.Ran levels edits) :
    client.Furnished levels (highestLeaf edits) := by
  induction ran with
  | start => exact furnished_start
  | reserve ran reserved small induction => exact induction.reserve ran.calls reserved
  | map index edit ran height induction => exact induction.map ran.calls index height

/-- What is said of a tree of `levels` levels without leaves above the level `limit`: its tables
were taken from buffers, and the root is referenced by none of its entries and each other table by
just one. Its pointers have the three access rights and no other mark, and a large leaf is the word
that stores it, with its base address in place. -/
structure WellBuilt (client : Client) (levels limit : Nat) : Prop where
  taken : ∀ level target, client.memory.Leads levels client.root level target →
    client.memory.Has target ∧ ∃ buffer ∈ client.buffers, buffer.Used target
  root : ∀ lower source index,
    ¬client.memory.Refers levels client.root lower source index client.root
  once : ∀ level target, client.memory.Leads levels client.root level target →
    target ≠ client.root → ∃ lower source index,
      client.memory.Refers levels client.root lower source index target ∧
        ∀ other from_ place, client.memory.Refers levels client.root other from_ place target →
          other = lower ∧ from_ = source ∧ place = index
  pointer : ∀ level address table index child attr,
    client.memory.Leads levels client.root (level + 1) address →
    client.memory.table address = .ok table →
    Entry.decode (table.word index) (level + 1) = .table child attr →
    table.word index &&& ~~~Attribute.baseMask = Attribute.grantMask
  leaf : ∀ level address table index size attr,
    client.memory.Leads levels client.root level address →
    client.memory.table address = .ok table →
    Entry.decode (table.word index) level = .leaf size attr →
    level ≤ limit ∧ attr.base.toNat % levelSize level = 0 ∧
      (level ≠ 1 → table.word index = (Entry.leafAt level attr).encode)

/-- Whatever was called, the tree that there is then is well built. -/
theorem ran_wellBuilt (levels : Nat) (client : Client) (edits : List Edit)
    (ran : client.Ran levels edits) (rooted : client.root ≠ 0) :
    client.WellBuilt levels (highestLeaf edits) := by
  have owns := (ran.calls.orderly.space 0).1.owns rooted
  have furnished := ran.furnished
  have regular (index : Fin tableEntries) :
      (client.memory.view.nodes levels client.root index).Regular (highestLeaf edits) levels := by
    have regular := furnished.regular index
    rw [Workspace.nodes_rooted rooted] at regular
    exact regular
  constructor
  · intro level target leads
    refine ⟨owns.has target leads.spans, ?_⟩
    obtain ⟨place, used⟩ := furnished.used target ⟨rooted, leads.spans⟩
    have listed := listed_of_used used
    rw [space, List.getD_eq_getElem?_getD, List.getElem?_eq_getElem listed] at used
    exact ⟨_, List.getElem_mem listed, used⟩
  · intro lower source index refers
    exact refers.ne_self owns.separate rfl
  · intro level target leads apart
    obtain ⟨through, used⟩ := leads.spans.resolve_left apart
    obtain ⟨lower, source, index, refers⟩ := Memory.refers_of_uses owns.has used
    exact ⟨lower, source, index, refers, fun _ _ _ => refers.unique owns.separate⟩
  · intro level address table index child attr leads found pointer
    obtain ⟨-, rfl⟩ := Memory.table_ok found
    exact Tables.marks_of_regular (leads.regular regular index) pointer
  · intro level address table index size attr leads found leaf
    obtain ⟨-, rfl⟩ := Memory.table_ok found
    obtain ⟨low, word_eq⟩ := Tables.leaf_of_regular (leads.regular regular index) leaf
    exact ⟨low, (Entry.decode_leaf leaf).2.aligned, word_eq⟩

/-- A leaf of 2 MiB is cut up for one of its pages, and then takes the place of the table. -/
theorem ran_wellBuilt_small :
    ∃ client : Client, client.Ran 4 [largeEdit, smallEdit, largeEdit] ∧
      (smallEdit.apply (largeClient.space 0)).1 = .ok ⟨1, true⟩ ∧
      (largeEdit.apply (splitClient.space 0)).1 = .ok ⟨0, true⟩ ∧
      splitClient.WellBuilt 4 3 ∧ client.WellBuilt 4 3 := by
  have taken : start.memory.reserve 0x4000 = .ok (smallBuffer, smallMemory) := rfl
  have reserved : reservedClient.Ran 4 [] := .reserve .start taken (by decide)
  have large : largeClient.Ran 4 [largeEdit] := .map 0 largeEdit reserved rfl
  have split : splitClient.Ran 4 [smallEdit, largeEdit] := .map 0 smallEdit large rfl
  have merged := Ran.map 0 largeEdit split rfl
  have rooted : splitClient.root ≠ 0 ∧
      (splitClient.keep 0 (largeEdit.apply (splitClient.space 0)).2).root ≠ 0 ∧
      (largeEdit.apply (splitClient.space 0)).1.toOption = some ⟨0, true⟩ := by
    decide +kernel
  exact ⟨_, merged, smallEdit_splits, ok_of_toOption rooted.2.2,
    ran_wellBuilt 4 splitClient _ split rooted.1, ran_wellBuilt 4 _ _ merged rooted.2.1⟩

end Client

end Remap.PageTable
