import Remap.Proofs.Block.Device.Confined
import Remap.Proofs.Block.Device.Partitioned

/-!
# What calls leave in place

A call never moves an arena nor changes how it is cut into regions, so blocks are found where
they were. An arena that is read-only refuses its writes, without an access, until the device is
mounted again.
-/

namespace Remap.Block

open Remap.Media

variable {μ : Type} [Media μ]

theorem Arena.write_keeps (arena : Arena) (lba : UInt32) (bytes : List UInt8) (media : μ) :
    (arena.write lba bytes media).1.2.span = arena.span ∧
      (arena.write lba bytes media).1.2.info = arena.info := by
  by_cases refuses : arena.readOnly = true ∨ arena.flog = []
  · rw [write_refused refuses]
    exact ⟨rfl, rfl⟩
  · obtain ⟨writable, slots⟩ := not_or.mp refuses
    obtain ⟨slot, others, flog_eq⟩ := List.exists_cons_of_ne_nil slots
    rw [Bool.not_eq_true] at writable
    obtain ⟨landed, outcome, later, last, -, ran, run⟩ := write_runs writable flog_eq media
    rw [ran]
    cases run <;> exact ⟨rfl, rfl⟩

namespace Device

variable {device : Device} {totalSize index : Nat} {blockSize : UInt32} {arena later : Arena}

theorem write_cases (device : Device) (lba : Nat) (bytes : List UInt8) (media : μ) :
    (∃ cause, device.locate lba bytes.length = .error cause ∧
      device.write lba bytes media = ((.error cause, device), media)) ∨
    ∃ index block arena, device.locate lba bytes.length = .ok (index, block) ∧
      device.arenas[index]? = some arena ∧
      device.write lba bytes media =
        (((arena.write block bytes media).1.1,
          { device with arenas := device.arenas.set index (arena.write block bytes media).1.2 }),
          (arena.write block bytes media).2) := by
  rcases locate_cases device lba bytes.length with ⟨cause, refused, -⟩ |
    ⟨index, block, arena, located, -, -, -, -, found⟩
  · left
    refine ⟨cause, refused, ?_⟩
    rw [write, refused]
    rfl
  · exact .inr ⟨index, block, arena, located, found, write_of_locate located found media⟩

theorem place_set {arenas : List Arena} (found : arenas[index]? = some arena)
    (info_eq : later.info = arena.info) :
    countBlocks (arenas.set index later) = countBlocks arenas ∧
      ∀ lba, place? (arenas.set index later) lba = place? arenas lba := by
  induction arenas generalizing index with
  | nil => simp at found
  | cons first rest induction =>
      cases index with
      | zero =>
          cases found
          rw [List.set_cons_zero]
          simp only [countBlocks, place?, info_eq, implies_true, and_self]
      | succ index =>
          obtain ⟨count, places⟩ := induction (by simpa using found)
          rw [List.set_cons_succ]
          simp only [countBlocks, place?, count, places, implies_true, and_self]

theorem Partitioned.set (parted : device.Partitioned totalSize blockSize)
    (found : device.arenas[index]? = some arena) (span_eq : later.span = arena.span)
    (info_eq : later.info = arena.info) :
    { device with arenas := device.arenas.set index later }.Partitioned totalSize blockSize := by
  have member := List.mem_of_getElem? found
  have spans_eq :
      (device.arenas.set index later).map Arena.span = device.arenas.map Arena.span := by
    rw [List.map_set, span_eq]
    apply set_of_found
    rw [List.getElem?_map, found]
    rfl
  have of_arena {holds : Span → InfoBlock → Prop}
      (each : ∀ arena ∈ device.arenas, holds arena.span arena.info) :
      ∀ other ∈ device.arenas.set index later, holds other.span other.info := by
    intro other otherMember
    rcases List.mem_or_eq_of_mem_set otherMember with old | rfl
    · exact each other old
    · rw [span_eq, info_eq]
      exact each arena member
  constructor
  · rw [spans_eq]
    exact parted.planned
  · exact @of_arena (fun span info => info.Divides span) parted.divided
  · exact @of_arena (fun _ info => info.externalSize = blockSize) parted.size_eq
  · exact @of_arena (fun _ info => minInternalBlock ≤ info.internalSize.toNat) parted.large

end Device

namespace Session

variable {layout : Layout} {session : Session μ} {index : Nat}

def Partitioned (layout : Layout) (session : Session μ) : Prop :=
  ∀ device, session.device = some device → device.Partitioned layout.totalSize layout.blockSize

def Degraded (index : Nat) (session : Session μ) : Prop :=
  ∀ device, session.device = some device →
    ∃ arena, device.arenas[index]? = some arena ∧ arena.readOnly = true

theorem step_device {call : Call} (other : call ≠ .load) {device : Device}
    (after : (session.step layout call).2.device = some device) :
    session.device = some device ∨ ∃ before index block bytes arena,
      session.device = some before ∧ before.arenas[index]? = some arena ∧
      device = { before with
        arenas := before.arenas.set index (arena.write block bytes session.media).1.2 } := by
  rcases session with ⟨media, mounted⟩
  cases call with
  | load => exact absurd rfl other
  | release => cases after
  | read lba length =>
      cases mounted with
      | none => cases after
      | some before => exact .inl after
  | write lba bytes =>
      cases mounted with
      | none => cases after
      | some before =>
          rw [step] at after
          rcases Device.write_cases before lba bytes media with ⟨cause, -, made⟩ |
            ⟨index, block, arena, -, found, made⟩
          · simp only [made] at after
            exact .inl after
          · simp only [made] at after
            exact .inr ⟨before, index, block, bytes, arena, rfl, found,
              (Option.some.inj after).symm⟩

theorem step_partitioned (parted : session.Partitioned layout) (call : Call) :
    (session.step layout call).2.Partitioned layout := by
  intro device after
  by_cases load : call = .load
  · subst load
    rw [step] at after
    rcases ran : (Device.load layout.parent layout.totalSize layout.blockSize).on session.media with
      ⟨outcome, last⟩
    simp only [ran] at after
    cases outcome with
    | error cause => cases after
    | ok mounted =>
        cases after
        exact Device.returns_load _ _ _ session.media device last ran
  · rcases step_device load after with same |
      ⟨before, index, block, bytes, arena, mounted, found, rfl⟩
    · exact parted device same
    · obtain ⟨span_eq, info_eq⟩ := arena.write_keeps block bytes session.media
      exact (parted before mounted).set found span_eq info_eq

theorem run_partitioned (parted : session.Partitioned layout) (calls : List Call) :
    (session.run layout calls).2.Partitioned layout := by
  induction calls generalizing session with
  | nil => exact parted
  | cons call rest induction => exact induction (step_partitioned parted call)

theorem step_degraded (degraded : session.Degraded index) {call : Call} (other : call ≠ .load) :
    (session.step layout call).2.Degraded index := by
  intro device after
  rcases step_device other after with same |
    ⟨before, place, block, bytes, arena, mounted, found, rfl⟩
  · exact degraded device same
  · obtain ⟨stuck, here, readOnly⟩ := degraded before mounted
    by_cases same : place = index
    · subst same
      cases here.symm.trans found
      refine ⟨arena, ?_, readOnly⟩
      rw [Arena.write_refused (.inl readOnly)]
      exact getElem?_set_of_found found arena
    · exact ⟨stuck, by rwa [List.getElem?_set_ne same], readOnly⟩

theorem run_degraded (degraded : session.Degraded index) {calls : List Call}
    (others : Call.load ∉ calls) : (session.run layout calls).2.Degraded index := by
  induction calls generalizing session with
  | nil => exact degraded
  | cons call rest induction =>
      obtain ⟨here, later⟩ := not_or.mp (mt List.mem_cons.mpr others)
      exact induction (step_degraded degraded fun same => here same.symm) later

theorem Degraded.refuses {media : μ} {device : Device}
    (degraded : Degraded index ⟨media, some device⟩) {lba : Nat} {block : UInt32}
    {bytes : List UInt8} (located : device.locate lba bytes.length = .ok (index, block)) :
    ∃ cause, cause.kind = .aborted ∧
      device.write lba bytes media = ((.error cause, device), media) := by
  obtain ⟨stuck, here, readOnly⟩ := degraded device rfl
  refine ⟨.readOnly stuck.span.base, rfl, ?_⟩
  rw [Device.write_of_locate located here, Arena.write_refused (.inl readOnly), set_of_found here]

/-- Until the next mount, an arena that is read-only refuses all writes. -/
theorem run_refuses {media last : μ} {device final : Device} {arena : Arena}
    (found : device.arenas[index]? = some arena) (readOnly : arena.readOnly = true)
    {calls : List Call} (others : Call.load ∉ calls)
    (reached : (run layout ⟨media, some device⟩ calls).2 = ⟨last, some final⟩) {lba : Nat}
    {block : UInt32} {bytes : List UInt8}
    (located : final.locate lba bytes.length = .ok (index, block)) :
    ∃ cause, cause.kind = .aborted ∧ final.write lba bytes last = ((.error cause, final), last) := by
  have degraded : Degraded index (⟨media, some device⟩ : Session μ) := by
    rintro _ ⟨⟩
    exact ⟨arena, found, readOnly⟩
  have still := @run_degraded _ _ layout _ _ degraded calls others
  rw [reached] at still
  exact still.refuses located

end Session

end Remap.Block
