import Mathlib.Data.List.Induction
import Remap.Proofs.PageTable.Regions

/-!
# Pages handed out

Buffers are reserved one behind the other, and each hands out its pages from its end on down. In
whatever order that goes on, and whatever is written to tables in between, no page is handed out
twice, and what is written to a page is seen at its address alone.
-/

namespace Remap.PageTable

/-! A pool is a memory with the buffers reserved from it and the addresses of the pages handed out
so far. A call that fails leaves it as it was. -/

structure Pool (μ : Type) where
  memory : μ
  buffers : List Buffer
  taken : List Nat

namespace Pool

inductive Call
  | reserve (size : Nat)
  | take (buffer : Nat)
  | write (address : Nat) (change : Table → Table)

variable {μ : Type}

def hold (pool : Pool μ) (buffer : Buffer) (memory : μ) : Pool μ :=
  { pool with memory, buffers := pool.buffers ++ [buffer] }

def hand (pool : Pool μ) (index address : Nat) (buffer : Buffer) : Pool μ :=
  { pool with buffers := pool.buffers.set index buffer, taken := pool.taken ++ [address] }

def serve (pool : Pool Memory) : Call → Pool Memory
  | .reserve size =>
      match pool.memory.reserve size with
      | .ok (buffer, memory) => pool.hold buffer memory
      | .error _ => pool
  | .take index =>
      match pool.buffers[index]?.bind Buffer.takePage? with
      | some (address, buffer) => pool.hand index address buffer
      | none => pool
  | .write address change =>
      match pool.memory.modify address change with
      | .ok memory => { pool with memory }
      | .error _ => pool

def start : Pool Memory := ⟨.empty, [], []⟩

def run (calls : List Call) : Pool Memory := calls.foldl serve start

end Pool

namespace Buffer

def reservation (buffer : Buffer) : Reservation := ⟨buffer.base, buffer.size⟩

structure Whole (buffer : Buffer) : Prop where
  base_aligned : buffer.base % pageBytes = 0
  remaining_aligned : buffer.remaining % pageBytes = 0
  remaining_le : buffer.remaining ≤ buffer.size

variable {buffer after : Buffer} {address : Nat}

theorem takePage?_some (taken : buffer.takePage? = some (address, after)) :
    ∃ remaining, buffer.remaining = remaining + pageBytes ∧ address = buffer.base + remaining ∧
      after = { buffer with remaining } := by
  rw [takePage?] at taken
  split at taken
  next => cases taken
  next room =>
    obtain ⟨address_eq, after_eq⟩ := Prod.mk.inj (Option.some.inj taken)
    exact ⟨_, (Nat.sub_add_cancel (Nat.not_lt.mp room)).symm, address_eq.symm, after_eq.symm⟩

end Buffer

namespace Memory

variable {memory after : Memory} {address other index : Nat} {change : Table → Table}

theorem modify_ok (modified : memory.modify address change = .ok after) :
    memory.Has address ∧ after = memory.modifyPage (indexOf address) change := by
  rw [modify] at modified
  cases placed : memory.index address with
  | error cause =>
      rw [placed] at modified
      cases modified
  | ok index =>
      obtain ⟨has, rfl⟩ := index_ok placed
      rw [placed] at modified
      cases modified
      exact ⟨has, rfl⟩

theorem reserved_of_modify (modified : memory.modify address change = .ok after) :
    after.reserved = memory.reserved := by
  rw [(modify_ok modified).2, reserved, modifyPage, Array.size_modify, reserved]

theorem reserve_of_fits (memory : Memory) {size : Nat}
    (fits : ¬(size = 0 ∨ size % pageBytes ≠ 0)) :
    ∃ buffer after, memory.reserve size = .ok (buffer, after) := by
  rw [reserve, if_neg fits]
  exact ⟨_, _, rfl⟩

theorem index_congr (size_eq : after.tables.size = memory.tables.size) (address : Nat) :
    after.index address = memory.index address := by
  rw [index, index, reserved, reserved, size_eq]

theorem modify_cases (memory : Memory) (address : Nat) (change : Table → Table) :
    (∃ cause, memory.table address = .error cause ∧
      memory.modify address change = .error cause) ∨
    ∃ table after, memory.table address = .ok table ∧ memory.modify address change = .ok after ∧
      after.table address = .ok (change table) ∧
      ∀ other, other ≠ address → after.table other = memory.table other := by
  cases placed : memory.index address with
  | error cause =>
      left
      rw [table, modify, placed]
      exact ⟨cause, rfl, rfl⟩
  | ok index =>
      obtain ⟨has, index_eq⟩ := index_ok placed
      have puts := puts_modifyPage has change
      rw [← index_eq] at puts
      refine .inr ⟨memory.view address, memory.modifyPage index change, has.table_eq, ?_, ?_,
        fun other apart => ?_⟩
      · rw [modify, placed]
        rfl
      · rw [(has.of_size_eq puts.size_eq).table_eq, puts.here]
      · cases otherPlaced : memory.index other with
        | error cause =>
            rw [table, table, index_congr puts.size_eq, otherPlaced]
            rfl
        | ok index =>
            have otherHas := (index_ok otherPlaced).1
            rw [(otherHas.of_size_eq puts.size_eq).table_eq, otherHas.table_eq,
              puts.elsewhere other otherHas apart]

end Memory

namespace Pool

def Used (pool : Pool μ) (address : Nat) : Prop :=
  ∃ (index : Nat) (buffer : Buffer), pool.buffers[index]? = some buffer ∧
    buffer.base + buffer.remaining ≤ address ∧ buffer.reservation.Includes address

section Hand

variable {pool : Pool μ} {index remaining address taken : Nat} {buffer : Buffer}
  (found : pool.buffers[index]? = some buffer)

include found

theorem reservations_hand :
    (pool.hand index taken { buffer with remaining }).buffers.map Buffer.reservation =
      pool.buffers.map Buffer.reservation := by
  have same : (pool.buffers.map Buffer.reservation)[index]? = some buffer.reservation := by
    simp [found]
  obtain ⟨inside, value⟩ := List.getElem?_eq_some_iff.mp same
  have moved : Buffer.reservation { buffer with remaining } = buffer.reservation := rfl
  rw [hand, List.map_set, moved, ← value, List.set_getElem_self]

variable (room : buffer.remaining = remaining + pageBytes)

include room

theorem Used.hand (used : pool.Used address) :
    (pool.hand index taken { buffer with remaining }).Used address := by
  obtain ⟨other, later, otherFound, behind, includes⟩ := used
  by_cases here : index = other
  · subst here
    cases found.symm.trans otherFound
    have listed := (List.getElem?_eq_some_iff.mp found).1
    refine ⟨index, _, List.getElem?_set_self listed, ?_, includes⟩
    dsimp only
    omega
  · refine ⟨other, later, ?_, behind, includes⟩
    rw [Pool.hand, List.getElem?_set_ne here, otherFound]

theorem used_hand (remaining_le : buffer.remaining ≤ buffer.size) :
    (pool.hand index taken { buffer with remaining }).Used (buffer.base + remaining) := by
  have positive : 0 < pageBytes := by decide
  have listed := (List.getElem?_eq_some_iff.mp found).1
  refine ⟨index, _, List.getElem?_set_self listed, Nat.le_refl _, ?_⟩
  simp only [Buffer.reservation, Reservation.Includes]
  omega

end Hand

/-- The invariant of a pool: its buffers make up the memory, and the pages handed out are pages of
their used parts, each of them once. -/
structure Sound (pool : Pool Memory) : Prop where
  adjoin : Reservation.Adjoin Memory.firstAddress (pool.buffers.map Buffer.reservation)
    (Memory.firstAddress + pool.memory.reserved)
  whole : ∀ buffer ∈ pool.buffers, buffer.Whole
  nodup : pool.taken.Nodup
  used : ∀ address ∈ pool.taken, address % pageBytes = 0 ∧ pool.Used address

theorem sound_start : start.Sound where
  adjoin := rfl
  whole _ member := absurd member List.not_mem_nil
  nodup := List.nodup_nil
  used _ member := absurd member List.not_mem_nil

namespace Sound

variable {pool : Pool Memory} (sound : pool.Sound)

include sound

theorem hold {size : Nat} {buffer : Buffer} {memory : Memory}
    (found : pool.memory.reserve size = .ok (buffer, memory)) :
    (pool.hold buffer memory).Sound := by
  obtain ⟨aligned, rfl, -, reserved_eq⟩ := Memory.reserve_ok found
  constructor
  · rw [Pool.hold, List.map_append, reserved_eq, ← Nat.add_assoc]
    exact sound.adjoin.concat size
  · refine List.forall_mem_append.mpr ⟨sound.whole, List.forall_mem_singleton.mpr ?_⟩
    refine ⟨?_, aligned, Nat.le_refl size⟩
    simp only [Memory.firstAddress, Memory.reserved, pageBytes]
    omega
  · exact sound.nodup
  · intro address member
    obtain ⟨page, index, buffer, found, behind, includes⟩ := sound.used address member
    have listed := (List.getElem?_eq_some_iff.mp found).1
    refine ⟨page, index, buffer, ?_, behind, includes⟩
    rw [Pool.hold, List.getElem?_append_left listed, found]

/-- The page that a buffer hands out next was not handed out before, since it is in front of the
used part of that buffer, and no other buffer includes it. -/
theorem fresh {index remaining : Nat} {buffer : Buffer} (found : pool.buffers[index]? = some buffer)
    (room : buffer.remaining = remaining + pageBytes) : buffer.base + remaining ∉ pool.taken := by
  intro member
  obtain ⟨-, other, used, otherFound, behind, includes⟩ := sound.used _ member
  have positive : 0 < pageBytes := by decide
  have remaining_le := (sound.whole buffer (List.mem_of_getElem? found)).remaining_le
  have here : buffer.reservation.Includes (buffer.base + remaining) := by
    simp only [Buffer.reservation, Reservation.Includes]
    omega
  obtain rfl : index = other := sound.adjoin.includes_inj (by simp [found]) (by simp [otherFound])
    here includes
  cases found.symm.trans otherFound
  omega

theorem hand {index address : Nat} {buffer after : Buffer}
    (found : pool.buffers[index]? = some buffer)
    (taken : buffer.takePage? = some (address, after)) : (pool.hand index address after).Sound := by
  obtain ⟨remaining, room, rfl, rfl⟩ := Buffer.takePage?_some taken
  obtain ⟨base_aligned, remaining_aligned, remaining_le⟩ :=
    sound.whole buffer (List.mem_of_getElem? found)
  rw [room, Nat.add_mod_right] at remaining_aligned
  constructor
  · rw [reservations_hand found]
    exact sound.adjoin
  · intro other member
    rcases List.mem_or_eq_of_mem_set member with kept | rfl
    · exact sound.whole other kept
    · exact ⟨base_aligned, remaining_aligned, by dsimp only; omega⟩
  · rw [Pool.hand, List.nodup_append]
    refine ⟨sound.nodup, List.pairwise_singleton _ _, ?_⟩
    rintro address member other last rfl
    rw [List.mem_singleton.mp last] at member
    exact sound.fresh found room member
  · intro address member
    rcases List.mem_append.mp member with before | last
    · obtain ⟨page, used⟩ := sound.used address before
      exact ⟨page, used.hand found room⟩
    · rw [List.mem_singleton.mp last]
      refine ⟨?_, used_hand found room remaining_le⟩
      rw [Nat.add_mod, base_aligned, remaining_aligned, Nat.zero_add, Nat.zero_mod]

theorem write {address : Nat} {change : Table → Table} {memory : Memory}
    (modified : pool.memory.modify address change = .ok memory) : Sound { pool with memory } := by
  have kept := Memory.reserved_of_modify modified
  exact ⟨by simpa only [kept] using sound.adjoin, sound.whole, sound.nodup, sound.used⟩

theorem serve (call : Call) : (pool.serve call).Sound := by
  cases call with
  | reserve size =>
      rw [Pool.serve]
      split
      next buffer memory reserved => exact sound.hold reserved
      next => exact sound
  | take index =>
      rw [Pool.serve]
      split
      next address after taken =>
        obtain ⟨buffer, found, taken⟩ := Option.bind_eq_some_iff.mp taken
        exact sound.hand found taken
      next => exact sound
  | write address change =>
      rw [Pool.serve]
      split
      next memory modified => exact sound.write modified
      next => exact sound

end Sound

theorem run_sound (calls : List Call) : (run calls).Sound := by
  have after {pool : Pool Memory} (sound : pool.Sound) : (calls.foldl serve pool).Sound := by
    induction calls generalizing pool with
    | nil => exact sound
    | cons call rest induction => exact induction (sound.serve call)
  exact after sound_start

namespace Sound

variable {pool : Pool Memory} (sound : pool.Sound)

include sound

theorem has_iff {address : Nat} : pool.memory.Has address ↔
    address % pageBytes = 0 ∧ ∃ buffer ∈ pool.buffers,
      buffer.base ≤ address ∧ address < buffer.base + buffer.size := by
  refine and_congr_right fun _ => ⟨fun ⟨low, high⟩ => ?_, ?_⟩
  · obtain ⟨reservation, reserved, includes⟩ := sound.adjoin.exists_includes low high
    obtain ⟨buffer, member, rfl⟩ := List.mem_map.mp reserved
    exact ⟨buffer, member, includes⟩
  · rintro ⟨buffer, member, low, high⟩
    have inside := sound.adjoin.inside (List.mem_map_of_mem member)
    simp only [Buffer.reservation] at inside
    omega

theorem has_of_taken {address : Nat} (taken : address ∈ pool.taken) : pool.memory.Has address := by
  obtain ⟨page, index, buffer, found, -, includes⟩ := sound.used address taken
  exact sound.has_iff.mpr ⟨page, buffer, List.mem_of_getElem? found, includes⟩

end Sound

section Words

def takeWords? (buffer : Buffer) : Option (Option (Nat × Buffer)) :=
  if buffer.remaining < pageBytes then
    some none
  else do
    let remaining ← Block.Word.sub buffer.remaining pageBytes
    return some (← Block.Word.add buffer.base remaining, { buffer with remaining })

def serveWords (pool : Pool Regions) : Call → Option (Pool Regions)
  | .reserve size => do
      match ← pool.memory.reserve size with
      | .ok (buffer, memory) => return pool.hold buffer memory
      | .error _ => return pool
  | .take index =>
      match pool.buffers[index]? with
      | none => some pool
      | some buffer => do
          match ← takeWords? buffer with
          | some (address, buffer) => return pool.hand index address buffer
          | none => return pool
  | .write address change => do
      match ← pool.memory.modify address change with
      | .ok memory => return { pool with memory }
      | .error _ => return pool

def runWords (calls : List Call) : Option (Pool Regions) := calls.foldlM serveWords ⟨.empty, [], []⟩

def flat (pool : Pool Regions) : Pool Memory := ⟨pool.memory.flat, pool.buffers, pool.taken⟩

variable {pool : Pool Memory}

theorem takeWords?_eq {buffer : Buffer} (remaining_le : buffer.remaining ≤ buffer.size)
    (words : buffer.base + buffer.size < Block.Word.limit) :
    takeWords? buffer = some buffer.takePage? := by
  rw [takeWords?, Buffer.takePage?]
  by_cases few : buffer.remaining < pageBytes
  · rw [if_pos few, if_pos few]
  · obtain ⟨left, room⟩ := Nat.exists_eq_add_of_le' (Nat.not_lt.mp few)
    have taken : Block.Word.sub buffer.remaining pageBytes = some left := by
      rw [Block.Word.sub_eq (Nat.not_lt.mp few), room, Nat.add_sub_cancel]
    have added : Block.Word.add buffer.base left = some (buffer.base + left) :=
      Block.Word.add_eq (by omega)
    rw [if_neg few, if_neg few, taken]
    simp only [room, Nat.add_sub_cancel, Option.bind_eq_bind, Option.bind_some, added]
    rfl

theorem reserved_le_serve (pool : Pool Memory) (call : Call) :
    pool.memory.reserved ≤ (pool.serve call).memory.reserved := by
  cases call with
  | reserve size =>
      rw [serve]
      split
      next buffer memory found =>
        rw [Pool.hold, (Memory.reserve_ok found).2.2.2]
        exact Nat.le_add_right _ _
      next => exact Nat.le_refl _
  | take index =>
      rw [serve]
      split <;> exact Nat.le_refl _
  | write address change =>
      rw [serve]
      split
      next memory modified => exact Nat.le_of_eq (Memory.reserved_of_modify modified).symm
      next => exact Nat.le_refl _

theorem next_lt {memory : Regions} (sound : memory.Sound)
    (small : memory.flat.reserved < 1 <<< 52) :
    memory.next < Block.Word.limit := by
  have room : Memory.firstAddress + 1 <<< 52 < Block.Word.limit := by decide
  rw [sound.next_eq]
  omega

/-- A call to a memory in regions overflows nowhere and leaves what it leaves of the whole. -/
theorem serveWords_eq {pool : Pool Regions} {call : Call} (memory_sound : pool.memory.Sound)
    (sound : pool.flat.Sound) (small : (pool.flat.serve call).memory.reserved < 1 <<< 52) :
    ∃ after, pool.serveWords call = some after ∧ after.memory.Sound ∧
      after.flat = pool.flat.serve call := by
  have next_eq := memory_sound.next_eq
  have words := next_lt memory_sound (Nat.lt_of_le_of_lt (reserved_le_serve pool.flat call) small)
  cases call with
  | reserve size =>
      have room : ¬(size = 0 ∨ size % pageBytes ≠ 0) →
          pool.memory.next + size < Block.Word.limit := by
        intro fits
        have room : Memory.firstAddress + 1 <<< 52 < Block.Word.limit := by decide
        obtain ⟨buffer, memory, found⟩ := Memory.reserve_of_fits pool.flat.memory fits
        simp only [serve, found, hold, (Memory.reserve_ok found).2.2.2] at small
        change pool.memory.flat.reserved + size < _ at small
        omega
      obtain ⟨outcome, ran, flat_eq, later⟩ := Regions.reserve_eq memory_sound room
      rw [serveWords, serve, flat, ran, ← flat_eq]
      cases outcome with
      | error cause => exact ⟨pool, rfl, memory_sound, rfl⟩
      | ok reserved =>
          obtain ⟨buffer, memory⟩ := reserved
          exact ⟨pool.hold buffer memory, rfl, later buffer memory rfl, rfl⟩
  | take index =>
      rw [serveWords, serve, flat]
      cases found : pool.buffers[index]? with
      | none => exact ⟨pool, rfl, memory_sound, rfl⟩
      | some buffer =>
          have member : buffer ∈ pool.flat.buffers := List.mem_of_getElem? found
          have inside := sound.adjoin.inside (List.mem_map_of_mem member)
          have taken : takeWords? buffer = some buffer.takePage? := by
            apply takeWords?_eq (sound.whole buffer member).remaining_le
            change _ ∧ buffer.base + buffer.size ≤ Memory.firstAddress + pool.memory.flat.reserved
              at inside
            omega
          simp only [taken, Option.bind_eq_bind, Option.bind_some]
          cases buffer.takePage? with
          | none => exact ⟨pool, rfl, memory_sound, rfl⟩
          | some page => exact ⟨pool.hand index page.1 page.2, rfl, memory_sound, rfl⟩
  | write address change =>
      obtain ⟨outcome, ran, flat_eq, later⟩ := Regions.modify_eq memory_sound words address change
      rw [serveWords, serve, flat, ran, ← flat_eq]
      cases outcome with
      | error cause => exact ⟨pool, rfl, memory_sound, rfl⟩
      | ok memory => exact ⟨{ pool with memory }, rfl, later memory rfl, rfl⟩

theorem runWords_eq (calls : List Call) (small : (run calls).memory.reserved < 1 <<< 52) :
    ∃ pool, runWords calls = some pool ∧ pool.memory.Sound ∧ pool.flat = run calls := by
  -- by the last call, since the bound on what is reserved in the end is one for all calls before
  induction calls using List.reverseRecOn with
  | nil => exact ⟨_, rfl, rfl, rfl⟩
  | append_singleton calls call induction =>
      have last : run (calls ++ [call]) = (run calls).serve call := by
        rw [run, List.foldl_concat, run]
      rw [last] at small ⊢
      have grown := reserved_le_serve (run calls) call
      obtain ⟨pool, ran, memory_sound, flat_eq⟩ := induction (Nat.lt_of_le_of_lt grown small)
      have sound : pool.flat.Sound := flat_eq ▸ run_sound calls
      obtain ⟨after, served, after_sound, after_eq⟩ :=
        serveWords_eq memory_sound sound (by rwa [flat_eq])
      refine ⟨after, ?_, after_sound, by rw [after_eq, flat_eq]⟩
      rw [runWords, List.foldlM_append, ← runWords, ran]
      simp [served]

end Words

/-- **Pages handed out.** After any calls, no page was handed out twice, none at address 0, and each
of them is there. There is a table at an address if and only if the address is one of a page in a
buffer that was reserved. Writing to a table is refused where reading it is, changes what is read at
its address, and changes nothing read at another. In each buffer, what is used and what is left
make up its size. As long as less than 2 ^ 52 bytes are reserved, a memory that keeps a region for
each reservation, and computes in words, has the same pages handed out and the same tables. -/
theorem pages_apart (calls : List Call) :
    (run calls).taken.Nodup ∧ 0 ∉ (run calls).taken ∧
    (∀ address ∈ (run calls).taken, ∃ table, (run calls).memory.table address = .ok table) ∧
    (∀ address, (∃ table, (run calls).memory.table address = .ok table) ↔
      address % 4096 = 0 ∧ ∃ buffer ∈ (run calls).buffers,
        buffer.base ≤ address ∧ address < buffer.base + buffer.size) ∧
    (∀ address change,
      (∃ cause, (run calls).memory.table address = .error cause ∧
        (run calls).memory.modify address change = .error cause) ∨
      ∃ table after, (run calls).memory.table address = .ok table ∧
        (run calls).memory.modify address change = .ok after ∧
        after.table address = .ok (change table) ∧
        ∀ other, other ≠ address → after.table other = (run calls).memory.table other) ∧
    (∀ buffer ∈ (run calls).buffers, buffer.consumed + buffer.remaining = buffer.size) ∧
    ((run calls).memory.reserved < 1 <<< 52 → ∃ pool, runWords calls = some pool ∧
      pool.flat = run calls ∧
      ∀ address, pool.memory.table address = some ((run calls).memory.table address)) := by
  have sound := run_sound calls
  have table_iff (address : Nat) : (∃ table, (run calls).memory.table address = .ok table) ↔
      (run calls).memory.Has address :=
    ⟨fun ⟨_, found⟩ => (Memory.table_ok found).1, fun has => ⟨_, has.table_eq⟩⟩
  refine ⟨sound.nodup, fun zero => ?_, fun address taken => ?_, fun address => ?_,
    Memory.modify_cases _, fun buffer member => ?_, fun small => ?_⟩
  · have low := (sound.has_of_taken zero).2.1
    exact absurd low (by decide)
  · exact (table_iff address).mpr (sound.has_of_taken taken)
  · exact (table_iff address).trans sound.has_iff
  · exact Nat.sub_add_cancel (sound.whole buffer member).remaining_le
  · obtain ⟨pool, ran, memory_sound, flat_eq⟩ := runWords_eq calls small
    rw [← flat_eq] at small ⊢
    exact ⟨pool, ran, rfl, Regions.table_eq memory_sound (next_lt memory_sound small)⟩

def turns : List Call :=
  [.reserve 8192, .take 0, .reserve 4096, .take 1, .write 0x101000 (fun _ => .blank), .take 0,
    .take 1]

theorem pages_apart_turns : (run turns).memory.reserved < 1 <<< 52 ∧
    (run turns).taken = [0x101000, 0x102000, 0x100000] ∧
    ∃ pool, runWords turns = some pool ∧ pool.flat = run turns := by
  have small : (run turns).memory.reserved < 1 <<< 52 := by decide
  obtain ⟨-, -, -, -, -, -, words⟩ := pages_apart turns
  obtain ⟨pool, ran, flat_eq, -⟩ := words small
  exact ⟨small, by decide, pool, ran, flat_eq⟩

end Pool

end Remap.PageTable
