import Remap.Proofs.Block.Device.Founded

/-!
# Sessions with a device

In a session a device is read, written, released and mounted again, in any order and with
any access to the media failing. All along the media holds every block with the bytes of
the last write whose sequence number it stored.
-/

namespace Remap.Block

open Remap.Media

section Lists

variable {α : Type} {list : List α} {index : Nat} {old : α}

theorem getElem?_set_of_found (found : list[index]? = some old) (new : α) :
    (list.set index new)[index]? = some new :=
  List.getElem?_set_self (List.getElem?_eq_some_iff.mp found).1

theorem set_of_found (found : list[index]? = some old) : list.set index old = list := by
  obtain ⟨inside, rfl⟩ := List.getElem?_eq_some_iff.mp found
  exact List.set_getElem_self inside

end Lists

namespace Device

variable {μ : Type} [Media μ]

def lands (device : Device) (lba : Nat) (bytes : List UInt8) (media : μ) : Bool :=
  match device.locate lba bytes.length with
  | .error _ => false
  | .ok (index, block) =>
      match device.arenas[index]? with
      | none => false
      | some arena => arena.lands block bytes media

def refusal? (blockSize : UInt32) (count lba length : Nat) : Option Error :=
  if length ≠ blockSize.toNat then some (.bufferLength length blockSize)
  else if lba < count then none
  else some (.beyondEnd lba count)

variable {device : Device} {lba length : Nat}

theorem locate_cases (device : Device) (lba length : Nat) :
    (∃ cause, device.locate lba length = .error cause ∧
      refusal? device.externalSize device.blockCount lba length = some cause) ∨
    ∃ index block arena, device.locate lba length = .ok (index, block) ∧
      refusal? device.externalSize device.blockCount lba length = none ∧
      length = device.externalSize.toNat ∧ lba < device.blockCount ∧
      place? device.arenas lba = some (index, block) ∧ device.arenas[index]? = some arena := by
  unfold locate refusal?
  by_cases width : length = device.externalSize.toNat
  · rw [if_neg (not_not.mpr width), if_neg (not_not.mpr width)]
    by_cases inside : lba < device.blockCount
    · obtain ⟨index, block, arena, placed, found⟩ := place_of_lt inside
      right
      rw [placed, if_pos inside]
      exact ⟨index, block, arena, rfl, rfl, width, inside, rfl, found⟩
    · left
      rw [if_neg inside]
      cases placed : place? device.arenas lba with
      | none => exact ⟨_, rfl, rfl⟩
      | some place => exact absurd (place_lt placed).1 inside
  · left
    rw [if_pos width, if_pos width]
    exact ⟨_, rfl, rfl⟩

theorem locate_of_place {index : Nat} {block : UInt32}
    (placed : place? device.arenas lba = some (index, block))
    (width : length = device.externalSize.toNat) :
    device.locate lba length = .ok (index, block) := by
  rw [locate, if_neg (not_not.mpr width), placed]

section Located

variable {index : Nat} {block : UInt32} {arena : Arena} {bytes : List UInt8}

theorem read_of_locate (located : device.locate lba length = .ok (index, block))
    (found : device.arenas[index]? = some arena) :
    (device.read lba length : Step μ _) = arena.read block length := by
  have handed : (Step.ofExcept (.ok (index, block)) : Step μ _) = pure (index, block) := rfl
  rw [read, located, handed, pure_bind]
  dsimp only
  rw [found]

theorem write_of_locate (located : device.locate lba bytes.length = .ok (index, block))
    (found : device.arenas[index]? = some arena) (media : μ) :
    device.write lba bytes media =
      (((arena.write block bytes media).1.1,
        { device with arenas := device.arenas.set index (arena.write block bytes media).1.2 }),
        (arena.write block bytes media).2) := by
  rw [write, located]
  dsimp only
  rw [found]
  rfl

theorem lands_of_locate (located : device.locate lba bytes.length = .ok (index, block))
    (found : device.arenas[index]? = some arena) (media : μ) :
    device.lands lba bytes media = arena.lands block bytes media := by
  rw [lands, located]
  dsimp only
  rw [found]

end Located

theorem blockCount_eq {homes : List Arena} {value : Nat → List UInt8} {contents : Contents}
    (mounted : Mounted homes device.arenas value contents) :
    device.blockCount = countBlocks homes := by
  rw [blockCount, mounted.countBlocks_eq]

variable [Atomic μ] {layout : Layout} {size : Nat} {sound : Prop} {homes : List Arena}
  {value : Nat → List UInt8} {before : Contents} {bytes : List UInt8}

theorem meets_read (founded : Founded layout size homes)
    (mounted : Mounted homes device.arenas value before)
    (size_eq : device.externalSize = layout.blockSize) :
    (device.read lba length : Step μ _).Meets size sound before
      (fun bytes after => after = before ∧
        (sound → (∀ arena ∈ device.arenas, arena.readOnly = false) →
          refusal? device.externalSize device.blockCount lba length = none ∧ bytes = value lba))
      (fun cause after => after = before ∧
        (sound → (∀ arena ∈ device.arenas, arena.readOnly = false) →
          refusal? device.externalSize device.blockCount lba length = some cause)) := by
  rcases locate_cases device lba length with ⟨cause, refused, reason⟩ |
    ⟨index, block, arena, located, accepted, width, inside, placed, found⟩
  · rw [read, refused]
    exact Step.meets_throw ⟨rfl, fun _ _ => reason⟩
  · rw [read_of_locate located found, width, size_eq]
    apply (mounted.read founded.room founded.sizes placed found).mono
    · rintro bytes after ⟨same, read⟩
      refine ⟨same, fun _ writable => ⟨?_, read (writable arena (List.mem_of_getElem? found))⟩⟩
      rw [← size_eq, ← width]
      exact accepted
    · rintro cause after ⟨same, unsound⟩
      refine ⟨same, fun sound writable => ?_⟩
      exact absurd sound (unsound (writable arena (List.mem_of_getElem? found)))

theorem write_holds (lba : Nat) (bytes : List UInt8) {media : μ}
    (founded : Founded layout size homes)
    (mounted : Mounted homes device.arenas value before)
    (size_eq : device.externalSize = layout.blockSize) (shown : Shows media size sound before) :
    ∃ after, Shows (device.write lba bytes media).2 size sound after ∧
      (device.write lba bytes media).1.2.externalSize = layout.blockSize ∧
      Mounted homes (device.write lba bytes media).1.2.arenas
        (Function.update value lba
          (if device.lands lba bytes media then bytes else value lba)) after ∧
      (sound → (∀ arena ∈ device.arenas, arena.readOnly = false) →
        (∀ arena ∈ (device.write lba bytes media).1.2.arenas, arena.readOnly = false) ∧
        match refusal? device.externalSize device.blockCount lba bytes.length with
        | some cause => (device.write lba bytes media).1.1 = .error cause ∧
            device.lands lba bytes media = false
        | none => (device.write lba bytes media).1.1 = .ok () ∧
            device.lands lba bytes media = true) := by
  rcases locate_cases device lba bytes.length with ⟨cause, refused, reason⟩ |
    ⟨index, block, arena, located, accepted, width, inside, placed, found⟩
  · have none : device.lands lba bytes media = false := by
      rw [lands, refused]
    have unchanged : device.write lba bytes media = ((.error cause, device), media) := by
      rw [write, refused]
      rfl
    rw [none, unchanged, reason]
    refine ⟨before, shown, size_eq, ?_, fun _ writable => ⟨writable, rfl, rfl⟩⟩
    simpa using mounted
  · rw [size_eq] at width
    obtain ⟨after, shownAfter, -, held, fine⟩ := mounted.write founded.ordered founded.room
      founded.sizes placed found width shown
    rw [write_of_locate located found, lands_of_locate located found, accepted]
    refine ⟨after, shownAfter, size_eq, held, fun sound writable => ?_⟩
    obtain ⟨done, landed, stays⟩ := fine sound (writable arena (List.mem_of_getElem? found))
    refine ⟨?_, done, landed⟩
    intro other member
    rcases List.mem_or_eq_of_mem_set member with old | rfl
    · exact writable other old
    · exact stays

end Device

inductive Call
  | read (lba length : Nat)
  | write (lba : Nat) (bytes : List UInt8)
  | release
  | load
deriving DecidableEq, Repr

inductive Reply
  | bytes (outcome : Except Error (List UInt8))
  | done (outcome : Except Error Unit)
  | unmounted

structure Session (μ : Type) where
  media : μ
  device : Option Device

namespace Session

variable {μ : Type} [Media μ]

/-- Make one call; mounting takes the parameters that the device was laid out with. -/
def step (layout : Layout) (session : Session μ) : Call → Reply × Session μ
  | .read lba length =>
      match session.device with
      | none => (.unmounted, session)
      | some device =>
          let (outcome, media) := (device.read lba length).on session.media
          (.bytes outcome, { session with media })
  | .write lba bytes =>
      match session.device with
      | none => (.unmounted, session)
      | some device =>
          let ((outcome, device), media) := device.write lba bytes session.media
          (.done outcome, { media, device := some device })
  | .release => (.done (.ok ()), { session with device := none })
  | .load =>
      let load := Device.load layout.parent layout.totalSize layout.blockSize
      match load.on session.media with
      | (.ok device, media) => (.done (.ok ()), { media, device := some device })
      | (.error cause, media) => (.done (.error cause), { media, device := none })

def run (layout : Layout) : Session μ → List Call → List Reply × Session μ
  | session, [] => ([], session)
  | session, call :: rest =>
      let (reply, next) := session.step layout call
      let (replies, last) := run layout next rest
      (reply :: replies, last)

def landed? (session : Session μ) : Call → Option (Nat × List UInt8)
  | .write lba bytes =>
      match session.device with
      | none => none
      | some device => if device.lands lba bytes session.media then some (lba, bytes) else none
  | _ => none

/-- The writes among the calls whose sequence numbers reach the media, in order. -/
def landed (layout : Layout) : Session μ → List Call → List (Nat × List UInt8)
  | _, [] => []
  | session, call :: rest =>
      (session.landed? call).toList ++ landed layout (session.step layout call).2 rest

end Session

def overwritten (value : Nat → List UInt8) (writes : List (Nat × List UInt8)) : Nat → List UInt8 :=
  writes.foldl (fun value write => Function.update value write.1 write.2) value

namespace Session

theorem overwritten_landed {μ : Type} [Media μ] (value : Nat → List UInt8) (media : μ)
    (device : Device) (lba : Nat)
    (bytes : List UInt8) :
    overwritten value (landed? ⟨media, some device⟩ (.write lba bytes)).toList =
      Function.update value lba (if device.lands lba bytes media then bytes else value lba) := by
  rw [landed?]
  dsimp only
  cases device.lands lba bytes media with
  | false => exact (Function.update_eq_self lba value).symm
  | true => rfl

variable {μ : Type} [Media μ] [Atomic μ] {layout : Layout} {size : Nat} {sound : Prop}
  {homes : List Arena} {value : Nat → List UInt8} {session : Session μ}

def Holds (layout : Layout) (homes : List Arena) (size : Nat) (sound : Prop)
    (value : Nat → List UInt8) (session : Session μ) : Prop :=
  ∃ contents, Shows session.media size sound contents ∧
    match session.device with
    | none => AllKept homes value contents
    | some device => device.externalSize = layout.blockSize ∧
        Mounted homes device.arenas value contents ∧
        (sound → ∀ arena ∈ device.arenas, arena.readOnly = false)

/-- A call keeps the blocks, but for a write whose sequence number is stored. -/
theorem step_holds (founded : Founded layout size homes)
    (holds : session.Holds layout homes size sound value) (call : Call) :
    (session.step layout call).2.Holds layout homes size sound
      (overwritten value (session.landed? call).toList) := by
  obtain ⟨contents, shown, held⟩ := holds
  rcases session with ⟨media, device⟩
  cases call with
  | read lba length =>
      cases device with
      | none => exact ⟨contents, shown, held⟩
      | some device =>
          obtain ⟨size_eq, mounted, writable⟩ := held
          have read : (device.read lba length : Step μ _).Meets size sound contents _ _ :=
            Device.meets_read founded mounted size_eq
          have result := read media shown
          dsimp only [step]
          rcases ran : (device.read lba length).on media with ⟨outcome, after⟩
          rw [ran] at result
          cases outcome with
          | ok bytes =>
              obtain ⟨_, shownAfter, rfl, -⟩ := result
              exact ⟨_, shownAfter, size_eq, mounted, writable⟩
          | error cause =>
              obtain ⟨_, shownAfter, rfl, -⟩ := result
              exact ⟨_, shownAfter, size_eq, mounted, writable⟩
  | write lba bytes =>
      cases device with
      | none => exact ⟨contents, shown, held⟩
      | some device =>
          obtain ⟨size_eq, mounted, writable⟩ := held
          obtain ⟨after, shownAfter, sizeAfter, mountedAfter, fine⟩ :=
            Device.write_holds lba bytes founded mounted size_eq shown
          refine ⟨after, shownAfter, sizeAfter, ?_, fun sound => (fine sound (writable sound)).1⟩
          rw [overwritten_landed]
          exact mountedAfter
  | release =>
      cases device with
      | none => exact ⟨contents, shown, held⟩
      | some device => exact ⟨contents, shown, held.2.1.allKept⟩
  | load =>
      have kept : AllKept homes value contents := by
        cases device with
        | none => exact held
        | some device => exact held.2.1.allKept
      have load : (Device.load layout.parent layout.totalSize layout.blockSize :
          Step μ _).Meets size sound contents _ _ := Device.meets_load founded kept
      have result := load media shown
      dsimp only [step]
      rcases ran : (Device.load layout.parent layout.totalSize layout.blockSize).on media with
        ⟨outcome, after⟩
      rw [ran] at result
      cases outcome with
      | ok device =>
          obtain ⟨contents, shownAfter, size_eq, mounted, writable⟩ := result
          exact ⟨contents, shownAfter, size_eq, mounted, writable⟩
      | error cause =>
          obtain ⟨contents, shownAfter, -, kept⟩ := result
          exact ⟨contents, shownAfter, kept⟩

/-- After any calls the media holds the blocks with the writes that landed. -/
theorem run_holds (founded : Founded layout size homes)
    (holds : session.Holds layout homes size sound value) (calls : List Call) :
    (session.run layout calls).2.Holds layout homes size sound
      (overwritten value (session.landed layout calls)) := by
  induction calls generalizing session value with
  | nil => exact holds
  | cons call rest induction =>
      have later := induction (step_holds founded holds call)
      rw [landed, overwritten, List.foldl_append]
      exact later

theorem Holds.allKept (holds : session.Holds layout homes size sound value) :
    Media.size session.media = size ∧
      AllKept homes value (Atomic.contents session.media) := by
  obtain ⟨contents, shown, held⟩ := holds
  rw [shown.contents_eq]
  refine ⟨shown.size_eq, ?_⟩
  split at held
  next => exact held
  next => exact held.2.1.allKept

theorem holds_created {entropy : Entropy} {media after : μ} {device : Device}
    (created : (Device.create layout entropy).on media = (.ok device, after)) :
    Founded layout (Media.size media) device.arenas ∧
      Holds layout device.arenas (Media.size media) (Atomic.Faultless after)
        (Device.initialBytes device.arenas (Atomic.contents media)) ⟨after, some device⟩ := by
  have create : (Device.create layout entropy : Step μ _).Meets (Media.size media) False
      (Atomic.contents media) _ _ := Device.meets_create
  obtain ⟨contents, shown, founded, -, size_eq, writable, mounted⟩ :=
    create.of_ok ⟨rfl, rfl, False.elim⟩ created
  refine ⟨founded, contents, ⟨shown.size_eq, shown.contents_eq, id⟩, size_eq, mounted, ?_⟩
  exact fun _ => writable

/-- A media that shows what a session left holds the device that was laid out. -/
theorem kept_of_run {ν : Type} [Media ν] [Atomic ν] {entropy : Entropy} {media mounted : μ}
    {device : Device} (created : (Device.create layout entropy).on media = (.ok device, mounted))
    (calls : List Call) {healed : ν}
    (size_eq : Media.size healed =
      Media.size (run layout ⟨mounted, some device⟩ calls).2.media)
    (contents_eq : Atomic.contents healed =
      Atomic.contents (run layout ⟨mounted, some device⟩ calls).2.media) :
    Founded layout (Media.size healed) device.arenas ∧
      AllKept device.arenas
        (overwritten (Device.initialBytes device.arenas (Atomic.contents media))
          (landed layout ⟨mounted, some device⟩ calls)) (Atomic.contents healed) := by
  obtain ⟨founded, holds⟩ := holds_created created
  obtain ⟨ranSize, kept⟩ := (run_holds founded holds calls).allKept
  rw [contents_eq, size_eq, ranSize]
  exact ⟨founded, kept⟩

end Session

end Remap.Block
