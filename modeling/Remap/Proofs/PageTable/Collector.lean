import Remap.Proofs.PageTable.Replay

/-!
# Collecting extents in one pass

A tree can be read in one pass that keeps no list of its leaves: each leaf is merged with the
extent before it while that is pending, and an extent that does not go on is stored, if there is
a place left, and counted in any case. Such a pass reports what merging all leaves in the end
does, also where the walk is stopped. So an output that is too short loses nothing of what it
has room for, and the count does not depend on it.
-/

namespace Remap.PageTable

/-! A collector holds the output with the extents that are complete, which count whether or not
there was a place for them, and the extent that the next leaf may go on. -/

structure Collector where
  output : List Extent
  count : Nat
  pending : Option Extent
deriving DecidableEq, Repr

namespace Collector

def start (output : List Extent) : Collector := ⟨output, 0, none⟩

def flush (collector : Collector) : Collector :=
  match collector.pending with
  | none => collector
  | some pending =>
      ⟨collector.output.set collector.count pending, collector.count + 1, none⟩

def push (collector : Collector) (leaf : Extent) : Collector :=
  match collector.pending with
  | none => { collector with pending := some leaf }
  | some pending =>
      if pending.meets leaf then
        { collector with pending := some { pending with length := pending.length + leaf.length } }
      else if leaf.meets pending then
        { collector with pending := some { leaf with length := pending.length + leaf.length } }
      else
        { collector.flush with pending := some leaf }

end Collector

abbrev Collect := ExceptT Error (StateM Collector)

def Collect.push (leaf : Extent) : Collect Unit :=
  modify fun collector => collector.push leaf

namespace Memory

def collectBelow (memory : Memory) :
    (level : Nat) → (address : Nat) → (parent : Attribute) → (origin : Nat) → Collect Unit
  | 0, _, _, _ => return
  | level + 1, address, parent, origin => do
      let table ← ExceptT.mk (pure (memory.table address))
      (List.finRange tableEntries).forM fun index =>
        let start := origin + index.val * levelSize (level + 1)
        match Entry.decode (table.word index) (level + 1) with
        | .absent => return
        | .table child attr => collectBelow memory level child.toNat (attr.inherit parent) start
        | .leaf _ attr => Collect.push ⟨start, levelSize (level + 1), attr.inherit parent⟩

def collect (memory : Memory) (mode : Mode) (root : Nat) (output : List Extent) :
    Except Error Nat × List Extent :=
  if mode.isSupported = false then
    (.error (.unsupported mode), output)
  else
    let pass : Collect Unit :=
      if root = 0 then return else memory.collectBelow mode.maxLevel root .permissive 0
    match pass.run (.start output) with
    | (.error cause, collector) => (.error cause, collector.output)
    | (.ok (), collector) =>
        let last := collector.flush
        if last.output.length < last.count then (.error (.tooSmall last.count), last.output)
        else (.ok last.count, last.output)

end Memory

structure Rising (low high : Nat) (leaves : List Extent) : Prop where
  inside : ∀ leaf ∈ leaves, low ≤ leaf.start ∧ leaf.start < high
  positive : ∀ leaf ∈ leaves, 0 < leaf.length
  ascending : leaves.Pairwise fun leaf next => leaf.start ≤ next.start

namespace Rising

variable {low middle high count first : Nat} {leaves others : List Extent}

theorem nil (low high : Nat) : Rising low high [] where
  inside _ member := absurd member List.not_mem_nil
  positive _ member := absurd member List.not_mem_nil
  ascending := .nil

theorem mono {lower higher : Nat} (rising : Rising low high leaves) (lower_le : lower ≤ low)
    (le_higher : high ≤ higher) : Rising lower higher leaves where
  inside leaf member := by
    have inside := rising.inside leaf member
    omega
  positive := rising.positive
  ascending := rising.ascending

theorem append (front : Rising low middle leaves) (back : Rising middle high others)
    (first : low ≤ middle) (second : middle ≤ high) : Rising low high (leaves ++ others) where
  inside leaf member := by
    rcases List.mem_append.mp member with early | late
    · exact (front.mono (Nat.le_refl _) second).inside leaf early
    · exact (back.mono first (Nat.le_refl _)).inside leaf late
  positive leaf member := by
    rcases List.mem_append.mp member with early | late
    · exact front.positive leaf early
    · exact back.positive leaf late
  ascending := by
    refine List.pairwise_append.mpr ⟨front.ascending, back.ascending, ?_⟩
    intro leaf early next late
    have below := (front.inside leaf early).2
    have above := (back.inside next late).1
    omega

theorem all (walk : Fin count → Scan) (origin size : Nat) {indices : List (Fin count)}
    (sorted : indices.Pairwise (· < ·)) (behind : ∀ index ∈ indices, first ≤ index.val)
    (ahead : first ≤ count)
    (each : ∀ index, Rising (origin + index.val * size) (origin + index.val * size + size)
      (walk index).found) :
    Rising (origin + first * size) (origin + count * size) (Scan.all walk indices).found := by
  induction indices generalizing first with
  | nil => exact nil _ _
  | cons index rest induction =>
      obtain ⟨later, sortedRest⟩ := List.pairwise_cons.mp sorted
      have start : first * size ≤ index.val * size :=
        Nat.mul_le_mul_right size (behind index List.mem_cons_self)
      have stop : (index.val + 1) * size ≤ count * size := Nat.mul_le_mul_right size index.isLt
      have next : (index.val + 1) * size = index.val * size + size := Nat.succ_mul _ _
      have here := (each index).mono (Nat.add_le_add_left start origin) (Nat.le_refl _)
      rw [Scan.all]
      cases (walk index).failure with
      | some cause => exact here.mono (Nat.le_refl _) (by omega)
      | none =>
          have others := induction sortedRest later index.isLt
          rw [next, ← Nat.add_assoc] at others
          exact here.append others (by omega) (by omega)

end Rising

namespace Memory

variable {memory : Memory} {level address origin : Nat} {parent : Attribute}

theorem leaves_rising : Rising origin (origin + levelSize (level + 1))
    (memory.leaves level address parent origin).found := by
  induction level generalizing address parent origin with
  | zero => exact .nil _ _
  | succ level induction =>
      cases found : memory.table address with
      | error cause =>
          rw [leaves, found]
          exact .nil _ _
      | ok table =>
          have whole : levelSize (level + 1 + 1) = tableEntries * levelSize (level + 1) := by
            rw [levelSize_succ (Nat.succ_ne_zero level), Nat.mul_comm]
          have sorted : table.present.Pairwise (· < ·) :=
            (List.pairwise_lt_finRange tableEntries).filter _
          have all := Rising.all (fun index => memory.leavesAt level parent
              (origin + index.val * levelSize (level + 1)) (.decode (table.word index) (level + 1)))
            origin (levelSize (level + 1)) sorted (fun _ _ => Nat.zero_le _) (Nat.zero_le _)
          rw [leaves_eq found, whole]
          rw [Nat.zero_mul, Nat.add_zero] at all
          apply all
          intro index
          cases Entry.decode (table.word index) (level + 1) with
          | absent => exact .nil _ _
          | table child attr => exact induction
          | leaf size attr =>
              have positive := levelSize_pos (level + 1)
              constructor
              · intro leaf member
                rw [List.mem_singleton.mp member]
                dsimp only
                omega
              · intro leaf member
                rw [List.mem_singleton.mp member]
                exact positive
              · exact List.pairwise_singleton _ _

end Memory

namespace Collector

variable {output done rest : List Extent} {pending extent : Extent}

def fill (output extents : List Extent) : List Extent :=
  extents.take output.length ++ output.drop extents.length

theorem getElem?_fill (output extents : List Extent) (index : Nat) :
    (fill output extents)[index]? =
      if index < min output.length extents.length then extents[index]? else output[index]? := by
  rw [fill]
  by_cases inside : index < min output.length extents.length
  · rw [if_pos inside, List.getElem?_append_left (by rw [List.length_take]; omega),
      List.getElem?_take_of_lt (by omega)]
  · rw [if_neg inside, List.getElem?_append_right (by rw [List.length_take]; omega),
      List.getElem?_drop, List.length_take]
    by_cases room : extents.length ≤ output.length
    · congr 1
      omega
    · rw [List.getElem?_eq_none (by omega), List.getElem?_eq_none (by omega)]

@[simp] theorem length_fill (output extents : List Extent) :
    (fill output extents).length = output.length := by
  rw [fill, List.length_append, List.length_take, List.length_drop]
  omega

@[simp] theorem fill_nil (output : List Extent) : fill output [] = output := by
  rw [fill, List.take_nil, List.nil_append, List.length_nil, List.drop_zero]

theorem fill_concat (output done : List Extent) (extent : Extent) :
    fill output (done ++ [extent]) = (fill output done).set done.length extent := by
  apply List.ext_getElem?
  intro index
  rw [List.getElem?_set, length_fill, getElem?_fill, getElem?_fill, List.length_append,
    List.length_singleton]
  by_cases here : done.length = index
  · subst here
    rw [if_pos rfl]
    by_cases room : done.length < output.length
    · rw [if_pos room, if_pos (by omega), List.getElem?_concat_length]
    · rw [if_neg room, if_neg (by omega), List.getElem?_eq_none (by omega)]
  · rw [if_neg here]
    by_cases before : index < min output.length done.length
    · rw [if_pos before, if_pos (by omega), List.getElem?_append_left (by omega)]
    · rw [if_neg before, if_neg (by omega)]

def reached (output extents : List Extent) : Collector :=
  ⟨fill output extents.dropLast, extents.dropLast.length, extents.getLast?⟩

theorem reached_concat (output done : List Extent) (pending : Extent) :
    reached output (done ++ [pending]) = ⟨fill output done, done.length, some pending⟩ := by
  rw [reached, List.dropLast_concat, List.getLast?_concat]

theorem flush_reached (output extents : List Extent) :
    (reached output extents).flush = ⟨fill output extents, extents.length, none⟩ := by
  rcases List.eq_nil_or_concat extents with rfl | ⟨done, pending, rfl⟩
  · rfl
  · rw [List.concat_eq_append, reached_concat, flush, fill_concat, List.length_append]
    rfl

/-- Leaves in order are never merged to the left. -/
theorem not_meets_back {leaf : Extent} (positive : 0 < leaf.length)
    (above : pending.start ≤ leaf.start) : leaf.meets pending = false := by
  have apart : (leaf.start + leaf.length == pending.start) = false := beq_eq_false_iff_ne.mpr (by omega)
  rw [Extent.meets, apart]
  rfl

theorem foldl_push (positive : ∀ leaf ∈ rest, 0 < leaf.length)
    (above : ∀ leaf ∈ rest, pending.start ≤ leaf.start)
    (ascending : rest.Pairwise fun leaf next => leaf.start ≤ next.start) :
    rest.foldl push (reached output (done ++ [pending])) =
      reached output (done ++ Extent.mergeAfter pending rest) := by
  induction rest generalizing done pending with
  | nil => rfl
  | cons leaf rest induction =>
      obtain ⟨later, ascendingRest⟩ := List.pairwise_cons.mp ascending
      have positiveRest := fun next member => positive next (List.mem_cons_of_mem leaf member)
      have aboveRest := fun next member => above next (List.mem_cons_of_mem leaf member)
      rw [List.foldl_cons, Extent.mergeAfter]
      by_cases meets : pending.meets leaf = true
      · have pushed : (reached output (done ++ [pending])).push leaf =
            reached output (done ++ [{ pending with length := pending.length + leaf.length }]) := by
          rw [reached_concat, reached_concat, push]
          dsimp only
          rw [if_pos meets]
        rw [if_pos meets, pushed]
        exact induction positiveRest aboveRest ascendingRest
      · have back : leaf.meets pending = false :=
          not_meets_back (positive leaf List.mem_cons_self) (above leaf List.mem_cons_self)
        have pushed : (reached output (done ++ [pending])).push leaf =
            reached output (done ++ [pending] ++ [leaf]) := by
          rw [reached_concat output (done ++ [pending]), fill_concat, List.length_append,
            reached_concat, push]
          dsimp only
          rw [if_neg meets, back]
          rfl
        rw [if_neg meets, pushed, induction positiveRest later ascendingRest, List.append_assoc]
        rfl

/-- Pushing leaves in order is merging them. -/
theorem foldl_push_start {low high : Nat} {leaves : List Extent} (rising : Rising low high leaves) :
    leaves.foldl push (start output) = reached output (Extent.merge leaves) := by
  cases leaves with
  | nil => rw [Extent.merge, reached, List.dropLast_nil, fill_nil]; rfl
  | cons first rest =>
      obtain ⟨above, ascending⟩ := List.pairwise_cons.mp rising.ascending
      have pushed : (start output).push first = reached output ([] ++ [first]) := by
        rw [reached_concat, fill_nil]
        rfl
      rw [List.foldl_cons, pushed, foldl_push _ above ascending]
      · rfl
      · exact fun leaf member => rising.positive leaf (List.mem_cons_of_mem first member)

end Collector

def Scan.outcome (scan : Scan) : Except Error Unit :=
  match scan.failure with
  | none => .ok ()
  | some cause => .error cause

def Pushes (step : Collect Unit) (scan : Scan) : Prop :=
  ∀ collector, step.run collector = (scan.outcome, scan.found.foldl Collector.push collector)

theorem Collect.found_bind (table : Table) (next : Table → Collect Unit) :
    (ExceptT.mk (pure (.ok table)) : Collect Table) >>= next = next table := rfl

theorem pushes_return : Pushes (return) .empty := fun _ => rfl

theorem pushes_push (leaf : Extent) : Pushes (.push leaf) (.single leaf) := fun _ => rfl

theorem pushes_forM {α : Type} {values : List α} {body : α → Collect Unit} {walk : α → Scan}
    (each : ∀ value ∈ values, Pushes (body value) (walk value)) :
    Pushes (values.forM body) (.all walk values) := by
  induction values with
  | nil => exact pushes_return
  | cons value rest induction =>
      have others := induction fun later member => each later (List.mem_cons_of_mem value member)
      intro collector
      have first := each value List.mem_cons_self collector
      have opened : ((value :: rest).forM body).run collector =
          (ExceptT.bindCont (fun _ => rest.forM body) ((body value).run collector).1 :
            StateM Collector _) ((body value).run collector).2 := rfl
      rw [opened, first, Scan.all, Scan.outcome]
      cases failed : (walk value).failure with
      | some cause =>
          rw [Scan.outcome, failed]
          rfl
      | none =>
          refine (others _).trans ?_
          rw [List.foldl_append]
          rfl

theorem Scan.all_filter {α : Type} {walk : α → Scan} {keep : α → Bool} {values : List α}
    (idle : ∀ value ∈ values, keep value = false → walk value = .empty) :
    Scan.all walk (values.filter keep) = Scan.all walk values := by
  induction values with
  | nil => rfl
  | cons value rest induction =>
      have others := induction fun later member => idle later (List.mem_cons_of_mem value member)
      cases kept : keep value with
      | true => rw [List.filter_cons_of_pos kept, Scan.all, Scan.all, others]
      | false =>
          rw [List.filter_cons_of_neg (by simp [kept]), others, Scan.all,
            idle value List.mem_cons_self kept]
          rfl

namespace Memory

variable {memory : Memory} {mode : Mode} {level address origin root : Nat} {parent : Attribute}
  {output : List Extent}

theorem pushes_collectBelow : Pushes (memory.collectBelow level address parent origin)
    (memory.leaves level address parent origin) := by
  induction level generalizing address parent origin with
  | zero => exact pushes_return
  | succ level induction =>
      cases found : memory.table address with
      | error cause =>
          intro collector
          rw [collectBelow, leaves, found]
          rfl
      | ok table =>
          have opened : memory.collectBelow (level + 1) address parent origin =
              (List.finRange tableEntries).forM fun index =>
                match Entry.decode (table.word index) (level + 1) with
                | .absent => return
                | .table child attr =>
                    memory.collectBelow level child.toNat (attr.inherit parent)
                      (origin + index.val * levelSize (level + 1))
                | .leaf _ attr =>
                    .push ⟨origin + index.val * levelSize (level + 1), levelSize (level + 1),
                      attr.inherit parent⟩ := by
            rw [collectBelow, found, Collect.found_bind]
          rw [opened, leaves_eq found, Table.present, Scan.all_filter]
          · apply pushes_forM
            intro index _
            cases Entry.decode (table.word index) (level + 1) with
            | absent => exact pushes_return
            | table child attr => exact induction
            | leaf size attr => exact pushes_push _
          · intro index _ unused
            have clear : (table.word index &&& Flag.present.mask == 0) = true := by
              simpa using unused
            rw [Entry.decode, clear, if_pos rfl]
            rfl

/-- **One pass is enough.** Collecting the extents on the way reports what merging all leaves
does, for every output. -/
theorem collect_eq (memory : Memory) (mode : Mode) (root : Nat) (output : List Extent) :
    memory.collect mode root output = memory.report mode root output := by
  rw [collect, report]
  by_cases unsupported : mode.isSupported = false
  · rw [if_pos unsupported, if_pos unsupported]
  · rw [if_neg unsupported, if_neg unsupported]
    have pass : Pushes (if root = 0 then return else memory.collectBelow mode.maxLevel root
        .permissive 0) (memory.scan mode root) := by
      rw [scan]
      split
      next => exact pushes_return
      next => exact pushes_collectBelow
    have rising : ∃ low high, Rising low high (memory.scan mode root).found := by
      rw [scan]
      split
      next => exact ⟨0, 0, .nil _ _⟩
      next => exact ⟨_, _, leaves_rising⟩
    obtain ⟨low, high, rising⟩ := rising
    dsimp only
    rw [pass, Collector.foldl_push_start rising, Scan.outcome]
    cases (memory.scan mode root).failure with
    | some cause => rfl
    | none =>
        dsimp only
        rw [Collector.flush_reached, Collector.length_fill]
        rfl

theorem report_fill (supported : mode.isSupported = true)
    (passes : (memory.scan mode root).failure = none) :
    memory.report mode root output =
      let full := Extent.merge (memory.scan mode root).found
      (if full.length ≤ output.length then .ok full.length else .error (.tooSmall full.length),
        Collector.fill output full) := by
  rw [report_passed supported passes]
  dsimp only
  rw [Collector.fill]
  split
  next short =>
    rw [if_neg (Nat.not_le_of_lt short), List.drop_of_length_le (Nat.le_of_lt short),
      List.append_nil]
  next room =>
    rw [if_pos (Nat.le_of_not_lt room), List.take_of_length_le (Nat.le_of_not_lt room)]

end Memory

namespace Tree

/-- **A short output loses nothing.** One pass over the leaves reports what merging all of them
does: the extents and their count are those of the whole tree, an output holds as many of them as
it has room for, and what lies behind them stays. A tree that reads itself always has room. -/
theorem report_prefix (tree : Tree) (supported : tree.mode.isSupported = true)
    (sturdy : ¬tree.memory.Broken tree.mode tree.root) :
    ∃ full, Compacts tree.pages full ∧ tree.extents = .ok full ∧
      ∀ output,
        let reported := tree.memory.report tree.mode tree.root output
        tree.memory.collect tree.mode tree.root output = reported ∧
          reported.1 = (if full.length ≤ output.length then .ok full.length
            else .error (.tooSmall full.length)) ∧
          reported.2.length = output.length ∧
          ∀ index, reported.2[index]? =
            if index < min output.length full.length then full[index]? else output[index]? := by
  have passes := Memory.scan_passes_iff.mpr sturdy
  refine ⟨_, Memory.scan_compacts passes, extents_full supported passes, fun output => ?_⟩
  dsimp only
  rw [Memory.collect_eq, Memory.report_fill supported passes]
  exact ⟨rfl, rfl, Collector.length_fill output _, Collector.getElem?_fill output _⟩

def collectPieces (output : List Extent) : Except Error Nat × List Extent :=
  piecedTree.memory.collect piecedTree.mode piecedTree.root output

/-- A single place gets the first of the two, and of three places the last stays. -/
theorem report_prefix_pieces :
    (collectPieces [.empty]).1 = .error (.tooSmall 2) ∧
      (collectPieces [.empty]).2[0]? = pieces[0]? ∧
      (collectPieces (List.replicate 3 .empty)).1 = .ok 2 ∧
      (collectPieces (List.replicate 3 .empty)).2[1]? = pieces[1]? ∧
      (collectPieces (List.replicate 3 .empty)).2[2]? = some .empty := by
  obtain ⟨built, read⟩ := piecedTree_pieces
  obtain ⟨full, -, found, reported⟩ := report_prefix piecedTree built.supported built.sturdy
  cases read.symm.trans found
  obtain ⟨single, outcome, -, stored⟩ := reported [.empty]
  obtain ⟨triple, counted, -, spared⟩ := reported (List.replicate 3 .empty)
  rw [collectPieces, collectPieces, single, triple, outcome, counted, stored, spared, spared]
  exact ⟨rfl, rfl, rfl, rfl, rfl⟩

end Tree

end Remap.PageTable
