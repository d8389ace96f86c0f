import Mathlib.Data.List.Basic
import Remap.Proofs.Block.Layout.Checked
import Remap.Proofs.PageTable.Memory

/-!
# Memory in regions

Each reservation can be kept as a region of its own, and the page at an address then be looked for
in one region after the other, with ends of regions that are computed in words. Regions follow each
other without a gap, so at most one of them has the address, and the page found is the one that has
the same address in the memory as a whole. Up to the last word nothing overflows.
-/

namespace Remap.PageTable

structure Reservation where
  base : Nat
  size : Nat
deriving DecidableEq, Repr

namespace Reservation

def Adjoin : (start : Nat) → (reservations : List Reservation) → (stop : Nat) → Prop
  | start, [], stop => start = stop
  | start, reservation :: rest, stop =>
      reservation.base = start ∧ Adjoin (start + reservation.size) rest stop

def Includes (reservation : Reservation) (address : Nat) : Prop :=
  reservation.base ≤ address ∧ address < reservation.base + reservation.size

variable {start stop address index other : Nat} {reservation later : Reservation}
  {reservations : List Reservation}

theorem Adjoin.le (adjoin : Adjoin start reservations stop) : start ≤ stop := by
  induction reservations generalizing start with
  | nil => exact Nat.le_of_eq adjoin
  | cons reservation rest induction =>
      exact Nat.le_trans (Nat.le_add_right _ _) (induction adjoin.2)

theorem Adjoin.concat (adjoin : Adjoin start reservations stop) (size : Nat) :
    Adjoin start (reservations ++ [⟨stop, size⟩]) (stop + size) := by
  induction reservations generalizing start with
  | nil =>
      obtain rfl : start = stop := adjoin
      exact ⟨rfl, rfl⟩
  | cons reservation rest induction => exact ⟨adjoin.1, induction adjoin.2⟩

theorem Adjoin.inside (adjoin : Adjoin start reservations stop)
    (member : reservation ∈ reservations) :
    start ≤ reservation.base ∧ reservation.base + reservation.size ≤ stop := by
  induction reservations generalizing start with
  | nil => cases member
  | cons first rest induction =>
      obtain ⟨base_eq, adjoin⟩ := adjoin
      rcases List.mem_cons.mp member with rfl | member
      · have rest_le := adjoin.le
        omega
      · have inside := induction adjoin member
        omega

theorem Adjoin.exists_includes (adjoin : Adjoin start reservations stop) (low : start ≤ address)
    (high : address < stop) : ∃ reservation ∈ reservations, reservation.Includes address := by
  induction reservations generalizing start with
  | nil =>
      obtain rfl : start = stop := adjoin
      omega
  | cons first rest induction =>
      obtain ⟨rfl, adjoin⟩ := adjoin
      by_cases here : address < first.base + first.size
      · exact ⟨first, List.mem_cons_self, low, here⟩
      · obtain ⟨reservation, member, includes⟩ := induction adjoin (Nat.not_lt.mp here)
        exact ⟨reservation, List.mem_cons_of_mem first member, includes⟩

theorem Adjoin.includes_inj (adjoin : Adjoin start reservations stop)
    (found : reservations[index]? = some reservation)
    (otherFound : reservations[other]? = some later)
    (includes : reservation.Includes address) (also : later.Includes address) : index = other := by
  induction reservations generalizing start index other with
  | nil => cases found
  | cons first rest induction =>
      obtain ⟨rfl, adjoin⟩ := adjoin
      obtain ⟨low, high⟩ := includes
      obtain ⟨otherLow, otherHigh⟩ := also
      cases index with
      | zero =>
          cases found
          cases other with
          | zero => rfl
          | succ other =>
              have behind := adjoin.inside (List.mem_of_getElem? otherFound)
              omega
      | succ index =>
          cases other with
          | zero =>
              cases otherFound
              have behind := adjoin.inside (List.mem_of_getElem? found)
              omega
          | succ other => rw [induction adjoin found otherFound]

end Reservation

structure Region where
  base : Nat
  tables : List Table

structure Regions where
  regions : List Region
  next : Nat

namespace Region

def reservation (region : Region) : Reservation := ⟨region.base, region.tables.length * pageBytes⟩

def find (address : Nat) : (index : Nat) → (regions : List Region) →
    Option (Except Error (Nat × Nat))
  | _, [] => some (.error (.invalidParameter .strayTable))
  | index, region :: rest => do
      let stop ← Block.Word.add region.base (← Block.Word.mul region.tables.length pageBytes)
      if region.base ≤ address ∧ address < stop then
        return .ok (index, (← Block.Word.sub address region.base) / pageBytes)
      else
        find address (index + 1) rest

end Region

namespace Regions

def empty : Regions := ⟨[], Memory.firstAddress⟩

def reserve (memory : Regions) (size : Nat) : Option (Except Error (Buffer × Regions)) :=
  if size = 0 ∨ size % pageBytes ≠ 0 then
    some (.error (.invalidParameter .bufferSize))
  else do
    let next ← Block.Word.add memory.next size
    let region : Region := ⟨memory.next, List.replicate (size / pageBytes) Table.blank⟩
    return .ok (⟨memory.next, size, size⟩, ⟨memory.regions ++ [region], next⟩)

def locate (memory : Regions) (address : Nat) : Option (Except Error (Nat × Nat)) :=
  if address % pageBytes ≠ 0 then
    some (.error (.invalidParameter .unalignedTable))
  else
    Region.find address 0 memory.regions

def table (memory : Regions) (address : Nat) : Option (Except Error Table) := do
  match ← memory.locate address with
  | .error cause => return .error cause
  | .ok (target, place) => return .ok (← (← memory.regions[target]?).tables[place]?)

def modify (memory : Regions) (address : Nat) (change : Table → Table) :
    Option (Except Error Regions) := do
  match ← memory.locate address with
  | .error cause => return .error cause
  | .ok (target, place) =>
      let region ← memory.regions[target]?
      let table ← region.tables[place]?
      let changed : Region := { region with tables := region.tables.set place (change table) }
      return .ok { memory with regions := memory.regions.set target changed }

def flat (memory : Regions) : Memory := ⟨(memory.regions.flatMap Region.tables).toArray⟩

def Sound (memory : Regions) : Prop :=
  Reservation.Adjoin Memory.firstAddress (memory.regions.map Region.reservation) memory.next

variable {memory : Regions} {regions : List Region} {address start stop index : Nat}

theorem adjoin_stop (adjoin : Reservation.Adjoin start (regions.map Region.reservation) stop) :
    stop = start + (regions.flatMap Region.tables).length * pageBytes := by
  induction regions generalizing start with
  | nil =>
      obtain rfl : start = stop := adjoin
      simp
  | cons region rest induction =>
      obtain ⟨-, adjoin⟩ := adjoin
      rw [induction adjoin, List.flatMap_cons, List.length_append, Nat.add_mul, Nat.add_assoc]
      rfl

theorem Sound.next_eq (sound : memory.Sound) :
    memory.next = Memory.firstAddress + memory.flat.reserved := by
  rw [adjoin_stop sound, Memory.reserved, flat, List.size_toArray]

/-- One step of the search, which is in words as long as the memory is. -/
theorem find_cons {region : Region} {rest : List Region}
    (words : region.base + region.tables.length * pageBytes < Block.Word.limit) :
    Region.find address index (region :: rest) =
      if region.base ≤ address ∧ address < region.base + region.tables.length * pageBytes then
        some (.ok (index, (address - region.base) / pageBytes))
      else Region.find address (index + 1) rest := by
  rw [Region.find, Block.Word.mul_eq (by omega)]
  dsimp only [bind, Option.bind]
  rw [Block.Word.add_eq words]
  dsimp only
  split
  next inside =>
    rw [Block.Word.sub_eq inside.1]
    rfl
  next => rfl

section Find

variable (adjoin : Reservation.Adjoin start (regions.map Region.reservation) stop)
  (words : stop < Block.Word.limit)

include adjoin words

theorem find_stray (outside : address < start ∨ stop ≤ address) :
    Region.find address index regions = some (.error (.invalidParameter .strayTable)) := by
  induction regions generalizing start index with
  | nil => rfl
  | cons region rest induction =>
      obtain ⟨rfl, adjoin⟩ := adjoin
      have rest_le := adjoin.le
      simp only [Region.reservation] at adjoin rest_le outside
      rw [find_cons (by omega), if_neg (by omega)]
      exact induction adjoin (by omega)

/-- The page that is found is the one with as many pages in front as there are in front of the
address. -/
theorem find_ok (low : start ≤ address) (high : address < stop) :
    ∃ front region back place, regions = front ++ region :: back ∧
      Region.find address index regions = some (.ok (index + front.length, place)) ∧
      place < region.tables.length ∧
      (address - start) / pageBytes = (front.flatMap Region.tables).length + place := by
  induction regions generalizing start index with
  | nil =>
      obtain rfl : start = stop := adjoin
      omega
  | cons region rest induction =>
      obtain ⟨rfl, adjoin⟩ := adjoin
      have rest_le := adjoin.le
      simp only [Region.reservation] at adjoin rest_le low
      rw [find_cons (by omega)]
      by_cases here : address < region.base + region.tables.length * pageBytes
      · rw [if_pos ⟨low, here⟩]
        refine ⟨[], region, rest, (address - region.base) / pageBytes, rfl, rfl, ?_,
          by simp [Region.reservation]⟩
        rw [Nat.div_lt_iff_lt_mul (by decide)]
        omega
      · rw [if_neg (by omega)]
        obtain ⟨front, found, back, place, rfl, ran, inside, number⟩ :=
          @induction _ (index + 1) adjoin (Nat.not_lt.mp here)
        refine ⟨region :: front, found, back, place, rfl, ?_, inside, ?_⟩
        · rw [ran, List.length_cons, Nat.add_assoc, Nat.add_comm 1]
        · have passed : address - region.base =
              address - (region.base + region.tables.length * pageBytes) +
                pageBytes * region.tables.length := by
            rw [Nat.mul_comm pageBytes]
            omega
          rw [List.flatMap_cons, List.length_append]
          simp only [Region.reservation]
          rw [passed, Nat.add_mul_div_left _ _ (by decide), number]
          omega

end Find

theorem getElem?_flat {front back : List Region} {region : Region} {place : Nat}
    (regions_eq : memory.regions = front ++ region :: back)
    (inside : place < region.tables.length) :
    memory.flat.tables[(front.flatMap Region.tables).length + place]? =
      some region.tables[place] := by
  rw [flat, regions_eq, List.getElem?_toArray, List.flatMap_append, List.flatMap_cons,
    List.getElem?_append_right (Nat.le_add_right _ _), Nat.add_sub_cancel_left,
    List.getElem?_append_left inside, List.getElem?_eq_getElem inside]

theorem flat_set {front back : List Region} {region : Region} {place : Nat}
    (regions_eq : memory.regions = front ++ region :: back) (inside : place < region.tables.length)
    (change : Table → Table) :
    flat { memory with regions := front ++
        { region with tables := region.tables.set place (change region.tables[place]) } :: back } =
      memory.flat.modifyPage ((front.flatMap Region.tables).length + place) change := by
  have page := getElem?_flat regions_eq inside
  rw [flat, List.getElem?_toArray] at page
  rw [flat, flat, Memory.modifyPage, Memory.mk.injEq, ← Array.toList_inj, Array.toList_modify,
    List.modify_eq_set_getElem?, page, regions_eq]
  simp [List.set_append_left _ _ inside]

section Sound

variable (sound : memory.Sound) (words : memory.next < Block.Word.limit) (address : Nat)

include sound words

theorem locate_cases :
    (∃ cause, memory.locate address = some (.error cause) ∧
      memory.flat.index address = .error cause) ∨
    ∃ front region back place, memory.regions = front ++ region :: back ∧
      memory.locate address = some (.ok (front.length, place)) ∧ place < region.tables.length ∧
      memory.flat.index address = .ok ((front.flatMap Region.tables).length + place) := by
  have next_eq := sound.next_eq
  rw [locate, Memory.index]
  by_cases aligned : address % pageBytes ≠ 0
  · rw [if_pos aligned, if_pos aligned]
    exact .inl ⟨_, rfl, rfl⟩
  · rw [if_neg aligned, if_neg aligned, ← next_eq]
    by_cases outside : address < Memory.firstAddress ∨ memory.next ≤ address
    · rw [if_pos outside, find_stray sound words outside]
      exact .inl ⟨_, rfl, rfl⟩
    · have low : Memory.firstAddress ≤ address := by omega
      have high : address < memory.next := by omega
      obtain ⟨front, region, back, place, regions_eq, found, inside, number⟩ :=
        @find_ok _ _ _ _ 0 sound words low high
      rw [if_neg outside, number]
      rw [Nat.zero_add] at found
      exact .inr ⟨front, region, back, place, regions_eq, found, inside, rfl⟩

theorem table_eq : memory.table address = some (memory.flat.table address) := by
  rw [table, Memory.table]
  obtain ⟨cause, located, indexed⟩ | ⟨front, region, back, place, regions_eq, located, inside,
    indexed⟩ := locate_cases sound words address
  · rw [located, indexed]
    rfl
  · have found : memory.regions[front.length]? = some region := by simp [regions_eq]
    have page := getElem?_flat regions_eq inside
    rw [located, indexed]
    dsimp only [bind, Option.bind]
    rw [found]
    dsimp only
    rw [List.getElem?_eq_getElem inside]
    simp only [Except.bind, Array.getD_eq_getD_getElem?, page, Option.getD_some]
    rfl

theorem modify_eq (change : Table → Table) :
    ∃ outcome, memory.modify address change = some outcome ∧
      outcome.map flat = memory.flat.modify address change ∧
      ∀ after, outcome = .ok after → after.Sound := by
  rw [modify, Memory.modify]
  obtain ⟨cause, located, indexed⟩ | ⟨front, region, back, place, regions_eq, located, inside,
    indexed⟩ := locate_cases sound words address
  · rw [located, indexed]
    exact ⟨.error cause, rfl, rfl, fun _ impossible => by cases impossible⟩
  · have found : memory.regions[front.length]? = some region := by simp [regions_eq]
    let changed : Region :=
      { region with tables := region.tables.set place (change region.tables[place]) }
    have regions_set : memory.regions.set front.length changed = front ++ changed :: back := by
      simp [regions_eq]
    rw [located, indexed]
    dsimp only [bind, Option.bind]
    rw [found]
    dsimp only
    rw [List.getElem?_eq_getElem inside]
    refine ⟨.ok { memory with regions := memory.regions.set front.length changed }, rfl, ?_, ?_⟩
    · rw [regions_set]
      exact congrArg Except.ok (flat_set regions_eq inside change)
    · rintro after ⟨⟩
      have kept : (memory.regions.set front.length changed).map Region.reservation =
          memory.regions.map Region.reservation := by
        simp [regions_eq, changed, Region.reservation]
      rw [Sound, kept]
      exact sound

omit words in
theorem reserve_eq {size : Nat}
    (room : ¬(size = 0 ∨ size % pageBytes ≠ 0) → memory.next + size < Block.Word.limit) :
    ∃ outcome, memory.reserve size = some outcome ∧
      outcome.map (fun reserved => (reserved.1, reserved.2.flat)) = memory.flat.reserve size ∧
      ∀ buffer after, outcome = .ok (buffer, after) → after.Sound := by
  rw [reserve, Memory.reserve]
  by_cases misfit : size = 0 ∨ size % pageBytes ≠ 0
  · rw [if_pos misfit, if_pos misfit]
    exact ⟨_, rfl, rfl, fun _ _ impossible => by cases impossible⟩
  · have whole : size / pageBytes * pageBytes = size :=
      Nat.div_mul_cancel (Nat.dvd_of_mod_eq_zero (by omega))
    rw [if_neg misfit, if_neg misfit, Block.Word.add_eq (room misfit)]
    refine ⟨_, rfl, ?_, ?_⟩
    · rw [← sound.next_eq]
      simp [Except.map, flat]
    · rintro buffer after ⟨⟩
      rw [Sound, List.map_append]
      have last : [(⟨memory.next, List.replicate (size / pageBytes) Table.blank⟩ : Region)].map
          Region.reservation = [⟨memory.next, size⟩] := by
        simp [Region.reservation, whole]
      rw [last]
      exact Reservation.Adjoin.concat sound size

end Sound

end Regions

end Remap.PageTable
