import Remap.Proofs.Block.Device.Session

/-!
# The device as an array of blocks

Without faults a session with a device cannot be told from one with an array of blocks that
is written in place.
-/

namespace Remap.Block

open Remap.Media

structure Reference where
  mounted : Bool
  value : Nat → List UInt8

namespace Reference

def step (blockSize : UInt32) (count : Nat) (array : Reference) : Call → Reply × Reference
  | .read lba length =>
      if array.mounted then
        match Device.refusal? blockSize count lba length with
        | some cause => (.bytes (.error cause), array)
        | none => (.bytes (.ok (array.value lba)), array)
      else (.unmounted, array)
  | .write lba bytes =>
      if array.mounted then
        match Device.refusal? blockSize count lba bytes.length with
        | some cause => (.done (.error cause), array)
        | none => (.done (.ok ()), { array with value := Function.update array.value lba bytes })
      else (.unmounted, array)
  | .release => (.done (.ok ()), { array with mounted := false })
  | .load => (.done (.ok ()), { array with mounted := true })

def run (blockSize : UInt32) (count : Nat) : Reference → List Call → List Reply × Reference
  | array, [] => ([], array)
  | array, call :: rest =>
      let (reply, next) := array.step blockSize count call
      let (replies, last) := run blockSize count next rest
      (reply :: replies, last)

end Reference

namespace Session

variable {μ : Type} [Media μ] [Atomic μ] {layout : Layout} {size : Nat} {homes : List Arena}
  {session : Session μ} {array : Reference}

def Refines (layout : Layout) (homes : List Arena) (size : Nat) (session : Session μ)
    (array : Reference) : Prop :=
  session.Holds layout homes size True array.value ∧ session.device.isSome = array.mounted

def FollowsAt (layout : Layout) (homes : List Arena) (size : Nat) (session : Session μ)
    (array : Reference) (call : Call) : Prop :=
  (session.step layout call).1 =
      (array.step layout.blockSize (Device.countBlocks homes) call).1 ∧
    (session.step layout call).2.Refines layout homes size
      (array.step layout.blockSize (Device.countBlocks homes) call).2

theorem Refines.current (refines : session.Refines layout homes size array)
    (mounted : array.mounted = true) :
    ∃ device, session.device = some device ∧
      Device.countBlocks device.arenas = Device.countBlocks homes ∧
      ∀ arena ∈ device.arenas, arena.readOnly = false := by
  obtain ⟨⟨contents, shown, held⟩, same⟩ := refines
  rcases session with ⟨media, current⟩
  obtain ⟨device, rfl⟩ := Option.isSome_iff_exists.mp (same.trans mounted)
  exact ⟨device, rfl, held.2.1.countBlocks_eq, held.2.2 trivial⟩

section Calls

variable {media : μ} {device : Device} {value : Nat → List UInt8}
  (founded : Founded layout size homes)

include founded

theorem read_follows
    (holds : (⟨media, some device⟩ : Session μ).Holds layout homes size True value)
    (lba length : Nat) :
    FollowsAt layout homes size ⟨media, some device⟩ ⟨true, value⟩ (.read lba length) := by
  have kept := step_holds founded holds (.read lba length)
  obtain ⟨contents, shown, size_eq, mounted, writable⟩ := holds
  have read : (device.read lba length : Step μ _).Meets size True contents _ _ :=
    Device.meets_read founded mounted size_eq
  have result := read media shown
  rw [Device.blockCount_eq mounted, size_eq] at result
  dsimp only [FollowsAt, step] at kept ⊢
  rcases ran : (device.read lba length).on media with ⟨outcome, after⟩
  rw [ran] at result kept
  cases outcome with
  | ok bytes =>
      obtain ⟨_, _, _, found⟩ := result
      obtain ⟨accepted, rfl⟩ := found trivial (writable trivial)
      simp only [Reference.step, if_true, accepted, true_and]
      exact ⟨kept, rfl⟩
  | error cause =>
      obtain ⟨_, _, _, found⟩ := result
      have refused := found trivial (writable trivial)
      simp only [Reference.step, if_true, refused, true_and]
      exact ⟨kept, rfl⟩

theorem write_follows
    (holds : (⟨media, some device⟩ : Session μ).Holds layout homes size True value)
    (lba : Nat) (bytes : List UInt8) :
    FollowsAt layout homes size ⟨media, some device⟩ ⟨true, value⟩ (.write lba bytes) := by
  have kept := step_holds founded holds (.write lba bytes)
  obtain ⟨contents, shown, size_eq, mounted, writable⟩ := holds
  obtain ⟨_, _, _, _, fine⟩ := Device.write_holds lba bytes founded mounted size_eq shown
  have outcome := (fine trivial (writable trivial)).2
  rw [Device.blockCount_eq mounted, size_eq] at outcome
  rw [overwritten_landed] at kept
  cases reason : Device.refusal? layout.blockSize (Device.countBlocks homes) lba bytes.length with
  | some cause =>
      rw [reason] at outcome
      obtain ⟨refused, none⟩ := outcome
      rw [none, if_neg Bool.false_ne_true, Function.update_eq_self] at kept
      simp only [FollowsAt, Reference.step, if_true, reason]
      exact ⟨congrArg Reply.done refused, kept, rfl⟩
  | none =>
      rw [reason] at outcome
      obtain ⟨written, landed⟩ := outcome
      rw [landed, if_pos rfl] at kept
      simp only [FollowsAt, Reference.step, if_true, reason]
      exact ⟨congrArg Reply.done written, kept, rfl⟩

theorem load_follows (holds : session.Holds layout homes size True value) :
    FollowsAt layout homes size session ⟨session.device.isSome, value⟩ .load := by
  have kept := step_holds founded holds .load
  obtain ⟨contents, shown, held⟩ := holds
  rcases session with ⟨media, device⟩
  have allKept : AllKept homes value contents := by
    cases device with
    | none => exact held
    | some device => exact held.2.1.allKept
  have load : (Device.load layout.parent layout.totalSize layout.blockSize :
      Step μ _).Meets size True contents _ _ := Device.meets_load founded allKept
  have result := load media shown
  dsimp only [FollowsAt, step] at kept ⊢
  rcases ran : (Device.load layout.parent layout.totalSize layout.blockSize).on media with
    ⟨outcome, after⟩
  rw [ran] at result kept
  cases outcome with
  | ok device => exact ⟨rfl, kept, rfl⟩
  | error cause =>
      obtain ⟨_, _, unsound, _⟩ := result
      exact absurd trivial unsound

end Calls

/-- Every call replies as the array does, and the session goes on standing for it. -/
theorem step_refines (founded : Founded layout size homes)
    (refines : session.Refines layout homes size array) (call : Call) :
    FollowsAt layout homes size session array call := by
  obtain ⟨holds, mounted⟩ := refines
  have kept := step_holds founded holds call
  rcases session with ⟨media, device⟩
  rcases array with ⟨_, value⟩
  subst mounted
  cases call with
  | read lba length =>
      cases device with
      | none => exact ⟨rfl, kept, rfl⟩
      | some device => exact read_follows founded holds lba length
  | write lba bytes =>
      cases device with
      | none => exact ⟨rfl, kept, rfl⟩
      | some device => exact write_follows founded holds lba bytes
  | release => exact ⟨rfl, kept, rfl⟩
  | load => exact load_follows founded holds

theorem run_refines (founded : Founded layout size homes)
    (refines : session.Refines layout homes size array) (calls : List Call) :
    (session.run layout calls).1 =
        (array.run layout.blockSize (Device.countBlocks homes) calls).1 ∧
      (session.run layout calls).2.Refines layout homes size
        (array.run layout.blockSize (Device.countBlocks homes) calls).2 := by
  induction calls generalizing session array with
  | nil => exact ⟨rfl, refines⟩
  | cons call rest induction =>
      obtain ⟨reply_eq, next⟩ := step_refines founded refines call
      obtain ⟨replies_eq, last⟩ := induction next
      dsimp only [run, Reference.run]
      rw [reply_eq, replies_eq]
      exact ⟨rfl, last⟩

end Session

theorem Device.initialBytes_zero {homes : List Arena} {blockSize : UInt32}
    (sizes : ∀ home ∈ homes, home.info.externalSize = blockSize) {lba : Nat}
    (inside : lba < Device.countBlocks homes) :
    Device.initialBytes homes (fun _ => 0) lba = List.replicate blockSize.toNat 0 := by
  induction homes generalizing lba with
  | nil => exact absurd inside (Nat.not_lt_zero lba)
  | cons home rest induction =>
      rw [Device.countBlocks] at inside
      rw [Device.initialBytes]
      split
      next =>
        rw [Arena.identityBytes, sizes home List.mem_cons_self, Contents.load, List.map_const',
          List.length_range']
      next outside =>
        exact induction (fun later member => sizes later (List.mem_cons_of_mem home member))
          (by omega)

variable {μ : Type} [Media μ] [Atomic μ]

/-- **The device refines an array of blocks.** Without faults, whatever calls are made after
laying out the device, they yield what an array of blocks yields that started out with the
bytes of the identity positions; these are zeros if the media was blank. -/
theorem device_refines {layout : Layout} {entropy : Entropy} {media created : μ}
    {device : Device} (laidOut : (Device.create layout entropy).on media = (.ok device, created))
    (faultless : Atomic.Faultless created) (calls : List Call) :
    (Session.run layout ⟨created, some device⟩ calls).1 =
        (Reference.run layout.blockSize device.blockCount
          ⟨true, Device.initialBytes device.arenas (Atomic.contents media)⟩ calls).1 ∧
      (Atomic.contents media = (fun _ => 0) → ∀ lba, lba < device.blockCount →
        Device.initialBytes device.arenas (Atomic.contents media) lba =
          List.replicate layout.blockSize.toNat 0) := by
  obtain ⟨founded, contents, shown, held⟩ := Session.holds_created laidOut
  constructor
  · refine (Session.run_refines founded ⟨⟨contents, ?_, ?_⟩, rfl⟩ calls).1
    · exact ⟨shown.size_eq, shown.contents_eq, fun _ => faultless⟩
    · exact ⟨held.1, held.2.1, fun _ => held.2.2 faultless⟩
  · intro blank lba inside
    rw [blank]
    exact Device.initialBytes_zero founded.sizes inside

theorem device_refines_small :
    ∃ (device : Device) (created : Simulated),
      (Device.create Device.smallLayout Device.zeroEntropy).on (Simulated.blank minArena) =
        (.ok device, created) ∧
      (Session.run Device.smallLayout ⟨created, some device⟩
          [.write 0 (List.replicate 512 7), .release, .load, .read 0 512]).1 =
        (Reference.run Device.smallLayout.blockSize device.blockCount
          ⟨true, Device.initialBytes device.arenas (Atomic.contents (Simulated.blank minArena))⟩
          [.write 0 (List.replicate 512 7), .release, .load, .read 0 512]).1 := by
  obtain ⟨device, created, laidOut, faultless, -⟩ := Device.small_created
  exact ⟨device, created, laidOut, (device_refines laidOut faultless
    [.write 0 (List.replicate 512 7), .release, .load, .read 0 512]).1⟩

end Remap.Block
