import Remap.Proofs.PageTable.Frugal
import Remap.Proofs.PageTable.Accounting
import Remap.Proofs.PageTable.Apply

/-!
# The walk with its checks

One walk counts and commits. It hands the part of the range that lies in a table down to that
table, and checks on the way that this part is inside the table, that it consists of whole
pages where a page is the smallest piece, and that a commit stores nothing in a table that was
only imagined. No check ever fails, whatever the tables hold, so counting and committing do
without them.
-/

namespace Remap.PageTable

/-! A walk is refused as an edit is, or it stops because one of its own checks failed. -/

inductive Stop
  | refused (cause : Error)
  | outsideTable
  | partialPage
  | imaginedTable
deriving DecidableEq, Repr

abbrev Walk := ExceptT Stop (StateM Progress)

def Source.address : Source → Nat
  | stored address => address
  | blank | parts _ => 0

namespace Walk

variable {α : Type}

def ofCommit (step : Commit α) : Walk α := fun progress =>
  match step progress with
  | (.ok value, after) => (.ok value, after)
  | (.error cause, after) => (.error (.refused cause), after)

def ofExcept (result : Except Error α) : Walk α := fun progress =>
  (result.mapError .refused, progress)

def entry (source : Source) (level : Nat) (index : Fin tableEntries) : Walk Entry := fun progress =>
  ((source.entry progress.space.memory level index).mapError .refused, progress)

def indexOf (offset size : Nat) : Walk (Fin tableEntries) :=
  if inside : offset / size < tableEntries then return ⟨offset / size, inside⟩
  else throw .outsideTable

/-- A new table: taken from the buffer in a commit, otherwise counted and imagined. -/
def allocate (committing : Bool) (imagined : Source) (table : Table) : Walk Source :=
  if committing then do
    let address ← ofCommit (Commit.allocate table)
    return .stored address
  else do
    modify fun progress => { progress with pages := progress.pages + 1 }
    return imagined

def setEntry (committing : Bool) (source : Source) (index : Fin tableEntries) (entry : Entry) :
    Walk Unit :=
  if committing then
    match source with
    | .stored address => ofCommit (Commit.setEntry address index entry)
    | .blank | .parts _ => throw .imaginedTable
  else return

def link (committing : Bool) (source : Source) (index : Fin tableEntries) (child : Source) :
    Walk Unit :=
  match child with
  | .stored address => setEntry committing source index (.pointer address)
  | .blank | .parts _ => return

end Walk

namespace Edit

def fills (edit : Edit) (level slot start stop : Nat) (current : Entry) : Bool :=
  let size := levelSize level
  let aligned := !edit.mask.includesBase || edit.removes || edit.physical start % size == 0
  let replaceable :=
    match current with
    | .table _ _ => edit.mask.isComplete
    | .absent | .leaf _ _ => true
  start == slot && stop == slot + size && level ≤ edit.mode.maxLeafLevel && aligned && replaceable

section Walk

variable (edit : Edit) (committing : Bool)
  (descend : Source → (parent : Attribute) → (origin start stop : Nat) → Walk Unit)
  (source : Source) (index : Fin tableEntries) (current : Entry)

def writeLeaf (level start : Nat) : Walk Unit :=
  let existing := current.leafAttribute?.getD .empty
  let write := Walk.setEntry committing source index
    (.leafAt level (edit.updated existing start))
  if current = .absent then
    if edit.creates then do
      Walk.ofExcept edit.checkMask
      write
    else return
  else write

def mapInLevel (parent : Attribute) (level slot start stop : Nat) : Walk Unit :=
  if level = 1 then throw .partialPage
  else
    let below := Attribute.permissive.inherit parent
    match current with
    | .absent =>
        if edit.creates then do
          Walk.ofExcept edit.checkMask
          let child ← Walk.allocate committing .blank Table.blank
          Walk.link committing source index child
          descend child below slot start stop
        else return
    | .table address attr => descend (.stored address.toNat) (attr.inherit parent) slot start stop
    | .leaf _ attr =>
        let there := attr.withBase (attr.base + .ofNat (start - slot))
        if edit.updated there start = there then return
        else do
          let leaf := attr.inherit parent
          let child ← Walk.allocate committing (.parts leaf) (Table.ofParts leaf (level - 1))
          Walk.link committing source index child
          descend child below slot start stop

def walkEntry (parent : Attribute) (level slot start stop : Nat) : Walk Unit := do
  let current ← Walk.entry source level index
  if edit.fills level slot start stop current then
    edit.writeLeaf committing source index current level start
  else
    edit.mapInLevel committing descend source index current parent level slot start stop

end Walk

def walkBelow (edit : Edit) (committing : Bool) :
    (level : Nat) → Source → (parent : Attribute) → (origin start stop : Nat) → Walk Unit
  | 0, _, _, _, _, _ => return
  | level + 1, source, parent, origin, start, stop => do
      let size := levelSize (level + 1)
      let first ← Walk.indexOf (start - origin) size
      let last ← Walk.indexOf (stop - 1 - origin) size
      ((List.finRange tableEntries).filter fun index => first ≤ index && index ≤ last).forM
        fun index =>
          let slot := origin + index.val * size
          edit.walkEntry committing (walkBelow edit committing level) source index parent
            (level + 1) slot (max start slot) (min stop (slot + size))

def walkFrom (edit : Edit) (committing : Bool) (root : Nat) : Walk Nat :=
  let level := edit.mode.maxLevel
  if root ≠ 0 then do
    edit.walkBelow committing level (.stored root) .permissive 0 edit.start edit.stop
    return root
  else if edit.creates then do
    Walk.ofExcept edit.checkMask
    let table ← Walk.allocate committing .blank Table.blank
    edit.walkBelow committing level table .permissive 0 edit.start edit.stop
    return table.address
  else return 0

def applyGuarded (edit : Edit) (space : Workspace) : Except Stop Outcome × Workspace :=
  if edit.mode.isSupported = false then
    (.error (.refused (.unsupported edit.mode)), space)
  else if edit.length = 0 then
    (.ok .none, space)
  else
    match edit.checkRange with
    | .error cause => (.error (.refused cause), space)
    | .ok () =>
        match edit.walkFrom false space.root ⟨space, 0, false⟩ with
        | (.error cause, _) => (.error cause, space)
        | (.ok _, counted) =>
            let required := counted.pages * pageBytes
            if space.buffer.remaining < required then
              (.error (.refused (.tooSmall required)), space)
            else
              match edit.walkFrom true space.root ⟨space, 0, false⟩ with
              | (.error cause, progress) => (.error cause, progress.space)
              | (.ok root, progress) =>
                  (.ok ⟨progress.pages, progress.modified || root != space.root⟩,
                    { progress.space with root })

end Edit

namespace Progress

def count (progress : Progress) (pages : Nat) : Progress :=
  { progress with pages := progress.pages + pages }

theorem count_count (progress : Progress) (pages more : Nat) :
    (progress.count pages).count more = progress.count (pages + more) := by
  rw [count, count, count, Nat.add_assoc]

end Progress

namespace Walk

variable {α β : Type} {progress : Progress}

theorem ofCommit_bind (step : Commit α) (next : α → Commit β) :
    ofCommit (step >>= next) = ofCommit step >>= fun value => ofCommit (next value) := by
  funext progress
  rw [ofCommit, Commit.bind_apply, Commit.bind_apply, ofCommit]
  rcases step progress with ⟨outcome, between⟩
  cases outcome <;> rfl

theorem ofCommit_forM (values : List α) (body : α → Commit Unit) :
    ofCommit (values.forM body) = values.forM fun value => ofCommit (body value) := by
  induction values with
  | nil => rfl
  | cons value rest induction =>
      change ofCommit (body value >>= fun _ => rest.forM body) = _
      rw [ofCommit_bind, induction]
      rfl

theorem forM_congr {values : List α} {body other : α → Walk Unit}
    (same : ∀ value ∈ values, body value = other value) : values.forM body = values.forM other := by
  induction values with
  | nil => rfl
  | cons value rest induction =>
      change (body value >>= fun _ => rest.forM body) = _
      rw [same value List.mem_cons_self,
        induction fun later member => same later (List.mem_cons_of_mem _ member)]
      rfl

theorem indexOf_eq {offset size : Nat} (inside : offset / size < tableEntries) :
    indexOf offset size = pure ⟨offset / size, inside⟩ :=
  dif_pos inside

theorem ofExcept_ok (value : α) : ofExcept (.ok value) = pure value := rfl

theorem allocate_committing (imagined : Source) (table : Table) :
    allocate true imagined table = (do
      let address ← ofCommit (Commit.allocate table)
      return .stored address) := rfl

theorem link_counting (source child : Source) (index : Fin tableEntries) :
    link false source index child = pure () := by
  cases child <;> rfl

def perform (committing : Bool) (descend : Source → (parent : Attribute) → Walk Unit)
    (level : Nat) (source : Source) (index : Fin tableEntries) : Action → Walk Unit
  | .keep => return
  | .store entry => setEntry committing source index entry
  | .enter address below => descend (.stored address) below
  | .grow below => do
      let child ← allocate committing .blank Table.blank
      link committing source index child
      descend child below
  | .split leaf below => do
      let child ← allocate committing (.parts leaf) (Table.ofParts leaf level)
      link committing source index child
      descend child below

end Walk

namespace Edit

variable {edit : Edit} {level slot origin start stop size : Nat} {parent : Attribute}
  {source : Source} {current : Entry} {index : Fin tableEntries} {memory : Memory}

structure Narrows (edit : Edit) (slot size start stop : Nat) : Prop where
  start_eq : start = max edit.start slot
  stop_eq : stop = min edit.stop (slot + size)
  nonempty : start < stop

theorem Narrows.meets (narrows : Narrows edit slot size start stop) :
    edit.meets slot size = true := by
  rw [meets_iff, ← narrows.start_eq, ← narrows.stop_eq]
  exact narrows.nonempty

theorem Narrows.fills_eq (narrows : Narrows edit slot (levelSize level) start stop) :
    edit.fills level slot start stop current = edit.writesLeaf level slot current := by
  have start_eq := narrows.start_eq
  have stop_eq := narrows.stop_eq
  by_cases covered : edit.start ≤ slot ∧ slot + levelSize level ≤ edit.stop
  · have first : start = slot := by omega
    have last : stop = slot + levelSize level := by omega
    cases current <;> simp [fills, writesLeaf, first, last, covers, covered]
  · have outside : edit.covers slot (levelSize level) = false := by
      rw [covers, ← Bool.decide_and]
      exact decide_eq_false covered
    have part : (start == slot && stop == slot + levelSize level) = false := by
      rw [Bool.and_eq_false_iff, beq_eq_false_iff_ne, beq_eq_false_iff_ne]
      omega
    unfold fills writesLeaf
    dsimp only
    rw [outside, part]
    rfl

theorem Narrows.below (narrows : Narrows edit origin (levelSize (level + 1)) start stop)
    (positive : level ≠ 0)
    (met : edit.meets (origin + index.val * levelSize level) (levelSize level) = true) :
    Narrows edit (origin + index.val * levelSize level) (levelSize level)
      (max start (origin + index.val * levelSize level))
      (min stop (origin + index.val * levelSize level + levelSize level)) := by
  have start_eq := narrows.start_eq
  have stop_eq := narrows.stop_eq
  have last := slot_stop_le positive origin index
  rw [meets_iff] at met
  constructor <;> omega

theorem Narrows.slots_eq (narrows : Narrows edit origin (levelSize (level + 1)) start stop)
    (positive : level ≠ 0) :
    ∃ first last, Walk.indexOf (start - origin) (levelSize level) = pure first ∧
      Walk.indexOf (stop - 1 - origin) (levelSize level) = pure last ∧
      ((List.finRange tableEntries).filter fun index => first ≤ index && index ≤ last) =
        edit.slots level origin := by
  have start_eq := narrows.start_eq
  have stop_eq := narrows.stop_eq
  have nonempty := narrows.nonempty
  have size := levelSize_pos level
  have whole : levelSize (level + 1) = tableEntries * levelSize level := by
    rw [levelSize_succ positive, Nat.mul_comm]
  have inside : (start - origin) / levelSize level < tableEntries := by
    rw [Nat.div_lt_iff_lt_mul size, ← whole]
    omega
  have inside' : (stop - 1 - origin) / levelSize level < tableEntries := by
    rw [Nat.div_lt_iff_lt_mul size, ← whole]
    omega
  refine ⟨_, _, Walk.indexOf_eq inside, Walk.indexOf_eq inside', ?_⟩
  rw [slots]
  apply List.filter_congr
  intro index _
  have last := slot_stop_le positive origin index
  have first_le : (start - origin) / levelSize level ≤ index.val ↔
      start - origin < index.val * levelSize level + levelSize level := by
    rw [← Nat.lt_succ_iff, Nat.div_lt_iff_lt_mul size, Nat.succ_mul]
  have le_last : index.val ≤ (stop - 1 - origin) / levelSize level ↔
      index.val * levelSize level ≤ stop - 1 - origin :=
    Nat.le_div_iff_mul_le size
  rw [Edit.meets, ← Bool.decide_and, decide_eq_decide, Fin.le_def, Fin.le_def, first_le, le_last]
  omega

theorem entry_low_ne_table (found : source.entry memory 1 index = .ok current) (pointed : UInt64)
    (attr : Attribute) : current ≠ .table pointed attr := by
  rintro rfl
  cases source with
  | blank => cases found
  | parts leaf => cases found
  | stored address =>
      rw [Source.entry] at found
      cases held : memory.table address with
      | error cause =>
          rw [held] at found
          cases found
      | ok table =>
          rw [held] at found
          exact Entry.decode_table (Except.ok.inj found) rfl

section Entry

variable (start_aligned : edit.start % pageBytes = 0) (length_aligned : edit.length % pageBytes = 0)
  (slot_aligned : slot % pageBytes = 0)
  (narrows : Narrows edit slot (levelSize (level + 1)) start stop)

include start_aligned length_aligned slot_aligned narrows

/-- The walk does with an entry what was decided, and stops where nothing could be. -/
theorem walkEntry_eq (committing : Bool)
    (descend : Source → (parent : Attribute) → (origin start stop : Nat) → Walk Unit)
    (progress : Progress) :
    edit.walkEntry committing descend source index parent (level + 1) slot start stop progress =
      match source.entry progress.space.memory (level + 1) index with
      | .error cause => (.error (.refused cause), progress)
      | .ok current =>
          match edit.action (level + 1) slot parent current with
          | .error cause => (.error (.refused cause), progress)
          | .ok action =>
              Walk.perform committing (fun child below => descend child below slot start stop)
                level source index action progress := by
  rw [walkEntry, Commit.bind_apply, Walk.entry]
  cases found : source.entry progress.space.memory (level + 1) index with
  | error cause => rfl
  | ok current =>
      dsimp only [Except.mapError]
      rw [narrows.fills_eq]
      have first : start = max edit.start slot := narrows.start_eq
      have inner (leaf : edit.writesLeaf (level + 1) slot current = false) : level + 1 ≠ 1 := by
        intro low
        have bottom : level = 0 := by omega
        subst bottom
        rw [writesLeaf_low start_aligned length_aligned slot_aligned narrows.meets
          (entry_low_ne_table found)] at leaf
        cases leaf
      cases leaf : edit.writesLeaf (level + 1) slot current with
      | true =>
          have place : start = slot := by
            have := (writes_of_writesLeaf leaf).start_le
            omega
          rw [if_pos rfl, place]
          cases current with
          | absent =>
              rw [writeLeaf, if_pos rfl, checkMask, action_absent, leaf]
              cases edit.creates <;> cases edit.maskCreates <;> rfl
          | leaf size attr => rw [action_leaf, leaf]; rfl
          | table pointed attr => rw [action_table, leaf]; rfl
      | false =>
          have high := inner leaf
          rw [if_neg Bool.false_ne_true, mapInLevel, if_neg high]
          cases current with
          | absent =>
              rw [checkMask, action_absent, leaf]
              cases edit.creates <;> cases edit.maskCreates <;> rfl
          | leaf size attr =>
              rw [action_leaf, leaf, if_neg Bool.false_ne_true, first]
              dsimp only
              split <;> rfl
          | table pointed attr => rw [action_table, leaf]; rfl

end Entry

end Edit

namespace Walk

variable {α : Type} {memory : Memory} {cost : Except Error Nat} {cause : Error}

def Counts (step : Walk α) (value : α) (memory : Memory) (cost : Except Error Nat) : Prop :=
  ∀ progress : Progress, progress.space.memory = memory →
    match cost with
    | .ok pages => step progress = (.ok value, progress.count pages)
    | .error cause => ∃ after, step progress = (.error (.refused cause), after)

theorem counts_pure (value : α) : Counts (pure value) value memory (.ok 0) := fun _ _ => rfl

theorem Counts.returns {step : Walk Unit} (counts : Counts step () memory cost) (value : α) :
    Counts (do step; return value) value memory cost := by
  intro progress same
  have counted := counts progress same
  rw [Commit.bind_apply]
  cases cost with
  | error cause =>
      obtain ⟨after, stopped⟩ := counted
      rw [stopped]
      exact ⟨after, rfl⟩
  | ok pages =>
      dsimp only at counted
      rw [counted]
      rfl

theorem counts_forM {values : List α} {body : α → Walk Unit} (costs : α → Except Error Nat)
    (each : ∀ value ∈ values, Counts (body value) () memory (costs value)) :
    Counts (values.forM body) () memory (total costs values) := by
  induction values with
  | nil => exact counts_pure ()
  | cons value rest induction =>
      intro progress same
      have here := each value List.mem_cons_self progress same
      have step : (value :: rest).forM body progress =
          (body value >>= fun _ => rest.forM body) progress := rfl
      rw [step, Commit.bind_apply, total_cons]
      cases found : costs value with
      | error cause =>
          rw [found] at here
          obtain ⟨after, stopped⟩ := here
          rw [stopped]
          exact ⟨after, rfl⟩
      | ok first =>
          rw [found] at here
          have later := induction (fun other member => each other (List.mem_cons_of_mem _ member))
            (progress.count first) same
          rw [here]
          dsimp only at later ⊢
          cases others : total costs rest with
          | error cause =>
              rw [others] at later
              exact later
          | ok sum =>
              rw [others] at later
              dsimp only at later ⊢
              rw [later, Progress.count_count]

theorem counts_allocate {imagined : Source} {value : α} {descend : Source → Walk α}
    (lower : Counts (descend imagined) value memory cost) (table : Table) :
    Counts (do let child ← allocate false imagined table; descend child) value memory
      ((1 + ·) <$> cost) := by
  intro progress same
  have counted := lower (progress.count 1) same
  have step : (do let child ← allocate false imagined table; descend child : Walk α) progress =
      descend imagined (progress.count 1) := rfl
  rw [step]
  cases cost with
  | error cause => exact counted
  | ok pages =>
      dsimp only [Functor.map, Except.map] at counted ⊢
      rw [counted, Progress.count_count]

theorem counts_linked {imagined source : Source} {index : Fin tableEntries}
    {descend : Source → Walk Unit} (lower : Counts (descend imagined) () memory cost)
    (table : Table) :
    Counts (do
        let child ← allocate false imagined table
        link false source index child
        descend child) () memory ((1 + ·) <$> cost) := by
  simp only [link_counting, pure_bind]
  exact counts_allocate lower table

end Walk

namespace Edit

variable {edit : Edit} {level slot origin start stop address : Nat} {parent : Attribute}
  {source : Source} {index : Fin tableEntries} {memory : Memory}

section Entry

variable (start_aligned : edit.start % pageBytes = 0) (length_aligned : edit.length % pageBytes = 0)
  (slot_aligned : slot % pageBytes = 0)
  (narrows : Narrows edit slot (levelSize (level + 1)) start stop)

include start_aligned length_aligned slot_aligned narrows

theorem walkEntry_counts
    {descend : Source → (parent : Attribute) → (origin start stop : Nat) → Walk Unit}
    (lower : ∀ source parent, Walk.Counts (descend source parent slot start stop) () memory
      (edit.demandBelow memory level source parent slot)) :
    Walk.Counts (edit.walkEntry false descend source index parent (level + 1) slot start stop) ()
      memory (source.entry memory (level + 1) index >>= edit.entryDemand memory level parent slot)
    := by
  intro progress same
  rw [walkEntry_eq start_aligned length_aligned slot_aligned narrows, same]
  cases source.entry memory (level + 1) index with
  | error cause => exact ⟨progress, rfl⟩
  | ok current =>
      dsimp only [bind, Except.bind]
      rw [entryDemand]
      cases edit.action (level + 1) slot parent current with
      | error cause => exact ⟨progress, rfl⟩
      | ok action =>
          cases action with
          | keep => rfl
          | store entry => rfl
          | enter address below =>
              have counted := lower (.stored address) below progress same
              dsimp only [Action.onward]
              cases found : edit.demandBelow memory level (.stored address) below slot with
              | error cause =>
                  rw [found] at counted
                  exact counted
              | ok pages =>
                  rw [found] at counted
                  dsimp only [Functor.map, Except.map] at counted ⊢
                  rw [Nat.zero_add]
                  exact counted
          | grow below => exact Walk.counts_linked (lower .blank below) _ progress same
          | split leaf below => exact Walk.counts_linked (lower (.parts leaf) below) _ progress same

theorem walkEntry_commits
    {guarded : Source → (parent : Attribute) → (origin start stop : Nat) → Walk Unit}
    {descend : (address : Nat) → (parent : Attribute) → (origin : Nat) → Commit Unit}
    (lower : ∀ address parent, guarded (.stored address) parent slot start stop =
      Walk.ofCommit (descend address parent slot)) :
    edit.walkEntry true guarded (.stored address) index parent (level + 1) slot start stop =
      Walk.ofCommit (edit.commitEntry descend level address parent slot index) := by
  have linked (table : Table) (imagined : Source) (below : Attribute) : (do
        let child ← Walk.allocate true imagined table
        Walk.link true (.stored address) index child
        guarded child below slot start stop : Walk Unit) =
      Walk.ofCommit (do
        let child ← Commit.link address index table
        descend child below slot) := by
    rw [Walk.allocate_committing, Commit.link]
    simp only [Walk.ofCommit_bind, bind_assoc, pure_bind, ← lower]
    rfl
  funext progress
  rw [walkEntry_eq start_aligned length_aligned slot_aligned narrows, Walk.ofCommit, commitEntry,
    Commit.bind_apply]
  have read : Commit.table address progress = (progress.space.memory.table address, progress) := rfl
  rw [read, Source.entry]
  cases progress.space.memory.table address with
  | error cause => rfl
  | ok table =>
      dsimp only [bind, Except.bind, pure, Except.pure]
      cases edit.action (level + 1) slot parent (.decode (table.word index) (level + 1)) with
      | error cause => rfl
      | ok action =>
          cases action with
          | keep => rfl
          | store entry => rfl
          | enter child below => exact congrFun (lower child below) progress
          | grow below => exact congrFun (linked Table.blank .blank below) progress
          | split leaf below =>
              exact congrFun (linked (Table.ofParts leaf level) (.parts leaf) below) progress

end Entry

/-- No check of the bounds of a table fails. -/
theorem walkBelow_eq (committing : Bool)
    (narrows : Narrows edit origin (levelSize (level + 1 + 1)) start stop) :
    edit.walkBelow committing (level + 1) source parent origin start stop =
      (edit.slots (level + 1) origin).forM fun index =>
        let slot := origin + index.val * levelSize (level + 1)
        edit.walkEntry committing (edit.walkBelow committing level) source index parent (level + 1)
          slot (max start slot) (min stop (slot + levelSize (level + 1))) := by
  obtain ⟨first, last, first_eq, last_eq, slots_eq⟩ := narrows.slots_eq (Nat.succ_ne_zero level)
  rw [walkBelow]
  dsimp only
  rw [first_eq, last_eq, pure_bind, pure_bind, slots_eq]

section Aligned

variable (start_aligned : edit.start % pageBytes = 0) (length_aligned : edit.length % pageBytes = 0)

include start_aligned length_aligned

theorem walkBelow_counts (aligned : origin % levelSize (level + 1) = 0)
    (narrows : Narrows edit origin (levelSize (level + 1)) start stop) :
    Walk.Counts (edit.walkBelow false level source parent origin start stop) () memory
      (edit.demandBelow memory level source parent origin) := by
  induction level generalizing source parent origin start stop with
  | zero => exact Walk.counts_pure ()
  | succ level induction =>
      rw [walkBelow_eq false narrows, demandBelow_eq]
      refine Walk.counts_forM (edit.slotDemand memory level source parent origin) ?_
      intro index member
      have positive := Nat.succ_ne_zero level
      have slot_aligned := slot_aligned aligned positive index.val
      have below := narrows.below positive (mem_slots.mp member)
      exact walkEntry_counts start_aligned length_aligned (page_of_slot slot_aligned) below
        fun _ _ => induction slot_aligned below

theorem walkBelow_commits (aligned : origin % levelSize (level + 1) = 0)
    (narrows : Narrows edit origin (levelSize (level + 1)) start stop) :
    edit.walkBelow true level (.stored address) parent origin start stop =
      Walk.ofCommit (edit.commitBelow level address parent origin) := by
  induction level generalizing address parent origin start stop with
  | zero => rfl
  | succ level induction =>
      rw [walkBelow_eq true narrows, commitBelow, Walk.ofCommit_forM]
      apply Walk.forM_congr
      intro index member
      have positive := Nat.succ_ne_zero level
      have slot_aligned := slot_aligned aligned positive index.val
      have below := narrows.below positive (mem_slots.mp member)
      exact walkEntry_commits start_aligned length_aligned (page_of_slot slot_aligned) below
        fun _ _ => induction slot_aligned below

end Aligned

section Range

variable (checked : edit.checkRange = .ok ()) (length : edit.length ≠ 0)

include checked length

theorem narrows_root :
    Narrows edit 0 (levelSize (edit.mode.maxLevel + 1)) edit.start edit.stop := by
  obtain ⟨-, -, inside⟩ := checkRange_ok checked
  rw [Mode.linearLimit_eq] at inside
  have nonempty : edit.start < edit.stop := by
    rw [Edit.stop]
    omega
  constructor <;> omega

theorem walkFrom_counts (memory : Memory) (root : Nat) :
    ∃ value, Walk.Counts (edit.walkFrom false root) value memory (edit.demand memory root) := by
  obtain ⟨start_aligned, length_aligned, -⟩ := checkRange_ok checked
  have counts (source : Source) : Walk.Counts
      (edit.walkBelow false edit.mode.maxLevel source .permissive 0 edit.start edit.stop) ()
      memory (edit.demandBelow memory edit.mode.maxLevel source .permissive 0) :=
    walkBelow_counts start_aligned length_aligned (Nat.zero_mod _) (narrows_root checked length)
  rw [walkFrom]
  by_cases rooted : root = 0
  · subst rooted
    rw [demand_unrooted, if_neg (Decidable.not_not.mpr rfl), checkMask]
    refine ⟨0, ?_⟩
    cases edit.creates with
    | false => exact Walk.counts_pure 0
    | true =>
        cases edit.maskCreates with
        | false => exact fun progress _ => ⟨progress, rfl⟩
        | true =>
            change Walk.Counts (do
              let table ← Walk.allocate false .blank Table.blank
              edit.walkBelow false edit.mode.maxLevel table .permissive 0 edit.start edit.stop
              return table.address) 0 memory ((1 + ·) <$> _)
            exact Walk.counts_allocate ((counts .blank).returns 0) Table.blank
  · rw [demand_rooted rooted, if_pos rooted]
    exact ⟨root, (counts (.stored root)).returns root⟩

theorem walkFrom_commits {memory : Memory} {root pages : Nat}
    (counted : edit.demand memory root = .ok pages) :
    edit.walkFrom true root = Walk.ofCommit (edit.commitFrom root) := by
  obtain ⟨start_aligned, length_aligned, -⟩ := checkRange_ok checked
  have commits (address : Nat) :
      edit.walkBelow true edit.mode.maxLevel (.stored address) .permissive 0 edit.start edit.stop =
        Walk.ofCommit (edit.commitBelow edit.mode.maxLevel address .permissive 0) :=
    walkBelow_commits start_aligned length_aligned (Nat.zero_mod _) (narrows_root checked length)
  rw [walkFrom, commitFrom, commits]
  by_cases rooted : root = 0
  · subst rooted
    rw [if_neg (Decidable.not_not.mpr rfl), if_neg (Decidable.not_not.mpr rfl)]
    rw [demand_unrooted] at counted
    rw [checkMask]
    cases creates : edit.creates with
    | false => rfl
    | true =>
        cases mask : edit.maskCreates with
        | false =>
            rw [creates, mask] at counted
            cases counted
        | true =>
            rw [if_pos rfl, if_pos rfl, if_pos rfl, Walk.ofExcept_ok, pure_bind,
              Walk.allocate_committing]
            simp only [Walk.ofCommit_bind, bind_assoc, pure_bind, commits]
            rfl
  · rw [if_pos rooted, if_pos rooted, Walk.ofCommit_bind]
    rfl

end Range

/-- With its checks or without them an edit does the same. -/
theorem applyGuarded_eq (space : Workspace) : edit.applyGuarded space =
    ((edit.apply space).1.mapError .refused, (edit.apply space).2) := by
  rw [applyGuarded]
  split
  next unsupported => rw [apply_unsupported unsupported]; rfl
  next supported =>
    have supported : edit.mode.isSupported = true := by simpa using supported
    split
    next empty => rw [apply_empty supported empty]; rfl
    next length =>
      cases checked : edit.checkRange with
      | error cause =>
          rw [apply_invalid supported length checked]
          rfl
      | ok =>
          obtain ⟨value, counts⟩ := walkFrom_counts checked length space.memory space.root
          have counted := counts ⟨space, 0, false⟩ rfl
          rw [apply_eq supported length checked]
          dsimp only
          cases found : edit.demand space.memory space.root with
          | error cause =>
              rw [found] at counted
              obtain ⟨after, stopped⟩ := counted
              rw [stopped]
              rfl
          | ok pages =>
              rw [found] at counted
              dsimp only at counted ⊢
              rw [counted, walkFrom_commits checked length found, commit_eq, Walk.ofCommit]
              have total : (Progress.count ⟨space, 0, false⟩ pages).pages = pages :=
                Nat.zero_add pages
              dsimp only
              rw [total]
              split
              next => rfl
              next =>
                rcases edit.commitFrom space.root ⟨space, 0, false⟩ with ⟨outcome, after⟩
                cases outcome <;> rfl

end Edit

end Remap.PageTable
