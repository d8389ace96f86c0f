import Remap.Proofs.PageTable.Commit
import Remap.Proofs.PageTable.Translation

/-!
# Counting

The pages that an edit takes below a table are those that it takes below each entry that
it meets, added up. Counting depends only on the tables that it walks, so an imagined table
counts as much as a stored one with the same entries.
-/

namespace Remap.PageTable

def total {α ε : Type} (cost : α → Except ε Nat) : List α → Except ε Nat
  | [] => return 0
  | value :: rest => return (← cost value) + (← total cost rest)

section Total

variable {α ε : Type} {cost other : α → Except ε Nat} {values rest : List α} {value : α}
  {count sum : Nat} {cause : ε}

theorem total_cons : total cost (value :: rest) = match cost value with
    | .error cause => .error cause
    | .ok first =>
        match total cost rest with
        | .error cause => .error cause
        | .ok others => .ok (first + others) := by
  rw [total]
  cases cost value with
  | error cause => rfl
  | ok first => cases total cost rest <;> rfl

theorem total_cons_ok (counted : total cost (value :: rest) = .ok sum) :
    ∃ first others, cost value = .ok first ∧ total cost rest = .ok others ∧
      sum = first + others := by
  rw [total_cons] at counted
  cases here : cost value with
  | error cause =>
      rw [here] at counted
      cases counted
  | ok first =>
      cases later : total cost rest with
      | error cause =>
          rw [here, later] at counted
          cases counted
      | ok others =>
          rw [here, later] at counted
          exact ⟨first, others, rfl, rfl, (Except.ok.inj counted).symm⟩

theorem total_congr (same : ∀ value ∈ values, cost value = other value) :
    total cost values = total other values := by
  induction values with
  | nil => rfl
  | cons value rest induction =>
      rw [total_cons, total_cons, same value List.mem_cons_self,
        induction fun later member => same later (List.mem_cons_of_mem _ member)]

theorem total_error (failed : total cost values = .error cause) :
    ∃ value ∈ values, cost value = .error cause := by
  induction values with
  | nil => cases failed
  | cons value rest induction =>
      rw [total_cons] at failed
      cases here : cost value with
      | error reason =>
          rw [here] at failed
          exact ⟨value, List.mem_cons_self, here.trans failed⟩
      | ok first =>
          cases later : total cost rest with
          | ok others =>
              rw [here, later] at failed
              cases failed
          | error reason =>
              rw [here, later] at failed
              obtain ⟨other, member, found⟩ := induction (later.trans failed)
              exact ⟨other, List.mem_cons_of_mem _ member, found⟩

theorem total_ok (counted : total cost values = .ok sum) (member : value ∈ values) :
    ∃ count, cost value = .ok count := by
  induction values generalizing sum with
  | nil => cases member
  | cons first rest induction =>
      obtain ⟨here, others, counted, later, -⟩ := total_cons_ok counted
      rcases List.mem_cons.mp member with rfl | member
      · exact ⟨here, counted⟩
      · exact induction later member

theorem total_error_iff : (∃ cause, total cost values = .error cause) ↔
    ∃ value ∈ values, ∃ cause, cost value = .error cause := by
  constructor
  · rintro ⟨cause, failed⟩
    obtain ⟨value, member, failed⟩ := total_error failed
    exact ⟨value, member, cause, failed⟩
  · rintro ⟨value, member, cause, failed⟩
    cases counted : total cost values with
    | error reason => exact ⟨reason, rfl⟩
    | ok sum =>
        obtain ⟨count, here⟩ := total_ok counted member
        rw [failed] at here
        cases here

theorem foldlM_total {step : Nat → α → Except ε Nat}
    (adds : ∀ count value, step count value = (count + ·) <$> cost value) :
    values.foldlM step count = (count + ·) <$> total cost values := by
  induction values generalizing count with
  | nil => rfl
  | cons value rest induction =>
      rw [List.foldlM_cons, adds, total_cons]
      cases cost value with
      | error cause => rfl
      | ok first =>
          change rest.foldlM step (count + first) = _
          rw [induction]
          cases total cost rest with
          | error cause => rfl
          | ok others => exact congrArg Except.ok (Nat.add_assoc count first others)

end Total

def Action.onward : Action → Option (Nat × Source × Attribute)
  | .keep | .store _ => none
  | .enter address below => some (0, .stored address, below)
  | .grow below => some (1, .blank, below)
  | .split leaf below => some (1, .parts leaf, below)

namespace Edit

variable {edit : Edit} {memory after : Memory} {level slot origin pages : Nat}
  {parent below : Attribute} {source other : Source} {current : Entry} {action : Action}
  {cause : Error}

def entryDemand (edit : Edit) (memory : Memory) (level : Nat) (parent : Attribute) (slot : Nat)
    (current : Entry) : Except Error Nat :=
  match edit.action (level + 1) slot parent current with
  | .error cause => .error cause
  | .ok action =>
      match action.onward with
      | none => .ok 0
      | some (pages, source, below) =>
          (pages + ·) <$> edit.demandBelow memory level source below slot

def slotDemand (edit : Edit) (memory : Memory) (level : Nat) (source : Source)
    (parent : Attribute) (origin : Nat) (index : Fin tableEntries) : Except Error Nat := do
  edit.entryDemand memory level parent (origin + index.val * levelSize (level + 1))
    (← source.entry memory (level + 1) index)

theorem demandBelow_eq : edit.demandBelow memory (level + 1) source parent origin =
    total (edit.slotDemand memory level source parent origin) (edit.slots (level + 1) origin) := by
  have added : ∀ sum : Except Error Nat, (0 + ·) <$> sum = sum := by
    intro sum
    cases sum with
    | error cause => rfl
    | ok count => exact congrArg Except.ok (Nat.zero_add count)
  rw [demandBelow]
  refine (foldlM_total ?_).trans
    (added (total (edit.slotDemand memory level source parent origin) _))
  intro count index
  rw [slotDemand]
  cases source.entry memory (level + 1) index with
  | error cause => rfl
  | ok current =>
      change _ = (count + ·) <$> edit.entryDemand memory level parent _ current
      rw [entryDemand]
      dsimp only [bind, Except.bind]
      cases edit.action (level + 1) (origin + index.val * levelSize (level + 1)) parent current with
      | error cause => rfl
      | ok action =>
          cases action with
          | keep => rfl
          | store entry => rfl
          | enter address below =>
              dsimp only [Action.onward]
              rw [added]
              cases edit.demandBelow memory level (.stored address) below _ <;> rfl
          | grow below =>
              dsimp only [Action.onward]
              cases edit.demandBelow memory level .blank below _ with
              | error cause => rfl
              | ok lower => exact congrArg Except.ok (Nat.add_assoc count 1 lower)
          | split leaf below =>
              dsimp only [Action.onward]
              cases edit.demandBelow memory level (.parts leaf) below _ with
              | error cause => rfl
              | ok lower => exact congrArg Except.ok (Nat.add_assoc count 1 lower)

theorem action_absent : edit.action level slot parent .absent =
    if edit.creates then
      if edit.maskCreates then
        .ok (if edit.writesLeaf level slot .absent then
          .store (.leafAt level (edit.updated .empty slot))
        else .grow (Attribute.permissive.inherit parent))
      else .error (.invalidParameter .incompleteMask)
    else .ok .keep := by
  rw [Edit.action, leafAction, innerAction, checkMask]
  cases edit.writesLeaf level slot .absent <;> cases edit.creates <;> cases edit.maskCreates <;> rfl

theorem action_table {pointed : UInt64} {attr : Attribute} :
    edit.action level slot parent (.table pointed attr) =
      .ok (if edit.writesLeaf level slot (.table pointed attr) then
        .store (.leafAt level (edit.updated .empty slot))
      else .enter pointed.toNat (attr.inherit parent)) := by
  rw [Edit.action, leafAction, innerAction]
  cases edit.writesLeaf level slot (.table pointed attr) <;> rfl

theorem action_leaf {size : LeafSize} {attr : Attribute} :
    edit.action level slot parent (.leaf size attr) =
      .ok (if edit.writesLeaf level slot (.leaf size attr) then
        .store (.leafAt level (edit.updated attr slot))
      else
        let first := max edit.start slot
        let there := attr.withBase (attr.base + .ofNat (first - slot))
        if edit.updated there first = there then .keep
        else .split (attr.inherit parent) (Attribute.permissive.inherit parent)) := by
  rw [Edit.action, leafAction, innerAction]
  cases edit.writesLeaf level slot (.leaf size attr) with
  | true => rfl
  | false =>
      rw [if_neg Bool.false_ne_true, if_neg Bool.false_ne_true]
      dsimp only
      split <;> rfl

theorem onward_cases (acted : edit.action level slot parent current = .ok action)
    (onward : action.onward = some (pages, source, below)) :
    (∃ pointed attr, current = .table pointed attr ∧
      action = .enter pointed.toNat (attr.inherit parent)) ∨
    (current = .absent ∧ action = .grow (Attribute.permissive.inherit parent)) ∨
    ∃ size attr, current = .leaf size attr ∧
      action = .split (attr.inherit parent) (Attribute.permissive.inherit parent) := by
  cases current with
  | absent =>
      rw [action_absent] at acted
      split at acted
      next =>
        split at acted
        next =>
          cases acted
          split at onward
          next => cases onward
          next inner => exact .inr (.inl ⟨rfl, if_neg inner⟩)
        next => cases acted
      next =>
        cases acted
        cases onward
  | table pointed attr =>
      rw [action_table] at acted
      cases acted
      split at onward
      next => cases onward
      next inner => exact .inl ⟨pointed, attr, rfl, if_neg inner⟩
  | leaf size attr =>
      rw [action_leaf] at acted
      cases acted
      split at onward
      next => cases onward
      next inner =>
        dsimp only at onward
        split at onward
        next => cases onward
        next changes =>
          refine .inr (.inr ⟨size, attr, rfl, ?_⟩)
          rw [if_neg inner]
          exact if_neg changes

/-- Creating under a mask that leaves fields undefined is the one thing that an entry can make
impossible. -/
theorem action_error (failed : edit.action level slot parent current = .error cause) :
    cause = .invalidParameter .incompleteMask ∧ edit.creates = true ∧
      edit.maskCreates = false ∧ current = .absent := by
  cases current with
  | absent =>
      rw [action_absent] at failed
      split at failed
      next creates =>
        split at failed
        next => cases failed
        next incomplete =>
          cases failed
          exact ⟨rfl, creates, Bool.eq_false_iff.mpr incomplete, rfl⟩
      next => cases failed
  | table pointed attr =>
      rw [action_table] at failed
      cases failed
  | leaf size attr =>
      rw [action_leaf] at failed
      cases failed

end Edit

namespace Memory

def Agrees (memory after : Memory) (level : Nat) (entry : Entry) : Prop :=
  ∀ target, memory.view.Uses level entry target →
    memory.Has target ∧ after.Has target ∧ after.view target = memory.view target

variable {memory after : Memory} {level address : Nat} {entry : Entry}

theorem agrees_plain (plain : Workspace.Plain entry) : memory.Agrees after level entry :=
  fun _ used => absurd used plain.not_uses

theorem Agrees.sameBelow (agrees : memory.Agrees after level entry) :
    Tables.SameBelow memory.view after.view level entry :=
  fun target used => (agrees target used).2.2

end Memory

namespace Source

structure Like (memory after : Memory) (level : Nat) (source other : Source) : Prop where
  entry_eq : ∀ index, other.entry after level index = source.entry memory level index
  agrees : ∀ index current, source.entry memory level index = .ok current →
    memory.Agrees after level current

variable {memory after : Memory} {level address : Nat}

theorem entry_stored (has : memory.Has address) (index : Fin tableEntries) :
    (stored address).entry memory level index = .ok (memory.view.entry level address index) := by
  rw [entry, has.table_eq]
  rfl

theorem like_stored (agrees : ∀ target, target = address ∨
      (∃ index, memory.view.Uses level (memory.view.entry level address index) target) →
    memory.Has target ∧ after.Has target ∧ after.view target = memory.view target) :
    Like memory after level (.stored address) (.stored address) := by
  obtain ⟨has, later, same⟩ := agrees address (.inl rfl)
  constructor
  · intro index
    rw [entry_stored has, entry_stored later, Tables.entry, same, Tables.entry]
  · intro index current found target used
    rw [entry_stored has] at found
    cases found
    exact agrees target (.inr ⟨index, used⟩)

theorem like_blank : Like memory after level .blank .blank where
  entry_eq _ := rfl
  agrees := by
    intro index current found
    cases found
    exact Memory.agrees_plain (Workspace.plain_of_absent rfl)

theorem like_parts {leaf : Attribute} : Like memory after level (.parts leaf) (.parts leaf) where
  entry_eq _ := rfl
  agrees := by
    intro index current found
    cases found
    exact Memory.agrees_plain (Workspace.plain_of_leaf rfl)

end Source

namespace Edit

variable {edit : Edit} {memory after : Memory} {level slot origin pages : Nat}
  {parent below : Attribute} {source other : Source} {current : Entry} {action : Action}
  {cause : Error}

theorem like_onward (agrees : memory.Agrees after (level + 1) current)
    (acted : edit.action (level + 1) slot parent current = .ok action)
    (onward : action.onward = some (pages, source, below)) :
    Source.Like memory after level source source := by
  rcases onward_cases acted onward with ⟨pointed, attr, rfl, rfl⟩ | ⟨rfl, rfl⟩ | ⟨size, attr, rfl, rfl⟩
  · cases onward
    exact Source.like_stored agrees
  · cases onward
    exact Source.like_blank
  · cases onward
    exact Source.like_parts

theorem slotDemand_stored {address : Nat} (has : memory.Has address) (index : Fin tableEntries) :
    edit.slotDemand memory level (.stored address) parent origin index =
      edit.entryDemand memory level parent (origin + index.val * levelSize (level + 1))
        (memory.view.entry (level + 1) address index) := by
  rw [slotDemand, Source.entry_stored has]
  rfl

theorem entryDemand_congr
    (lower : ∀ (source other : Source) (below : Attribute), Source.Like memory after level source
      other → edit.demandBelow after level other below slot =
        edit.demandBelow memory level source below slot)
    (agrees : memory.Agrees after (level + 1) current) :
    edit.entryDemand after level parent slot current =
      edit.entryDemand memory level parent slot current := by
  rw [entryDemand, entryDemand]
  cases acted : edit.action (level + 1) slot parent current with
  | error cause => rfl
  | ok action =>
      dsimp only
      cases onward : action.onward with
      | none => rfl
      | some next =>
          obtain ⟨pages, source, below⟩ := next
          dsimp only
          rw [lower _ _ _ (like_onward agrees acted onward)]

theorem demandBelow_congr (like : Source.Like memory after level source other) :
    edit.demandBelow after level other parent origin =
      edit.demandBelow memory level source parent origin := by
  induction level generalizing source other parent origin with
  | zero => rw [demandBelow, demandBelow]
  | succ level induction =>
      rw [demandBelow_eq, demandBelow_eq]
      apply total_congr
      intro index _
      rw [slotDemand, slotDemand, like.entry_eq]
      cases found : source.entry memory (level + 1) index with
      | error cause => rfl
      | ok current =>
          exact entryDemand_congr (fun _ _ _ like => induction like)
            (like.agrees index current found)

theorem entryDemand_error (failed : edit.entryDemand memory level parent slot current =
    .error cause) : edit.action (level + 1) slot parent current = .error cause ∨
      ∃ action pages source below, edit.action (level + 1) slot parent current = .ok action ∧
        action.onward = some (pages, source, below) ∧
        edit.demandBelow memory level source below slot = .error cause := by
  rw [entryDemand] at failed
  cases acted : edit.action (level + 1) slot parent current with
  | error reason =>
      rw [acted] at failed
      cases failed
      exact .inl rfl
  | ok action =>
      rw [acted] at failed
      dsimp only at failed
      cases onward : action.onward with
      | none =>
          rw [onward] at failed
          cases failed
      | some next =>
          obtain ⟨pages, source, below⟩ := next
          rw [onward] at failed
          dsimp only at failed
          cases lower : edit.demandBelow memory level source below slot with
          | ok count =>
              rw [lower] at failed
              cases failed
          | error reason =>
              rw [lower] at failed
              cases failed
              exact .inr ⟨action, pages, source, below, rfl, onward, lower⟩

theorem entry_error {index : Fin tableEntries}
    (failed : source.entry memory level index = .error cause) :
    ∃ address, source = .stored address ∧ memory.table address = .error cause := by
  cases source with
  | blank => cases failed
  | parts leaf => cases failed
  | stored address =>
      rw [Source.entry] at failed
      cases held : memory.table address with
      | ok table =>
          rw [held] at failed
          cases failed
      | error reason =>
          rw [held] at failed
          cases failed
          exact ⟨address, rfl, held⟩

/-- What stops the walk is a missing table among those that it reaches, or an incomplete mask. -/
theorem demandBelow_stopped (reached : Nat → Source → Prop)
    (onward : ∀ {level slot pages : Nat} {parent below : Attribute} {source next : Source}
      {current : Entry} {index : Fin tableEntries} {action : Action}, reached (level + 1) source →
      source.entry memory (level + 1) index = .ok current →
      edit.action (level + 1) slot parent current = .ok action →
      action.onward = some (pages, next, below) → reached level next)
    (here : reached level source)
    (failed : edit.demandBelow memory level source parent origin = .error cause) :
    (∃ lower address, reached lower (.stored address) ∧ memory.table address = .error cause) ∨
      cause = .invalidParameter .incompleteMask ∧ edit.creates = true ∧
        edit.maskCreates = false := by
  induction level generalizing source parent origin with
  | zero => cases failed
  | succ level induction =>
      rw [demandBelow_eq] at failed
      obtain ⟨index, -, failed⟩ := total_error failed
      rw [slotDemand] at failed
      cases found : source.entry memory (level + 1) index with
      | error reason =>
          rw [found] at failed
          cases failed
          obtain ⟨address, rfl, missing⟩ := entry_error found
          exact .inl ⟨_, address, here, missing⟩
      | ok current =>
          rw [found] at failed
          rcases entryDemand_error failed with refused | ⟨_, _, _, _, acted, goes, lower⟩
          · obtain ⟨cause_eq, creates, incomplete, -⟩ := action_error refused
            exact .inr ⟨cause_eq, creates, incomplete⟩
          · exact induction (onward here found acted goes) lower

theorem demandBelow_error (failed : edit.demandBelow memory level source parent origin =
    .error cause) : ∃ misuse, cause = .invalidParameter misuse := by
  rcases demandBelow_stopped (fun _ _ => True) (fun _ _ _ _ => trivial) trivial failed with
    ⟨_, address, -, missing⟩ | ⟨rfl, -⟩
  · exact Memory.table_error missing
  · exact ⟨_, rfl⟩

end Edit

end Remap.PageTable
