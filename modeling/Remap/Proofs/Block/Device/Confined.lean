import Remap.Proofs.Block.Arena.Confined
import Remap.Proofs.Block.Device.Mount
import Remap.Proofs.Block.Device.Ownership

/-!
# The bytes that a device accesses

In a session on a media with any contents, mounts and reads access for each arena bytes of its
own span alone. So do the writes to an arena, and its flog stays sound while it takes writes, as
long as none of them replaces a map entry that names a block beyond the data blocks of the
arena. Such an entry is what damage or forgery leaves on a media; the write that replaces it
makes that block the free one, and the next write goes there, up to the next mount.
-/

namespace Remap.Block

open Remap.Media

namespace Device

variable {parent : Uuid} {totalSize size : Nat} {blockSize : UInt32}

theorem block_lt_external {arenas : List Arena} {arena : Arena} {lba index : Nat} {block : UInt32}
    (placed : place? arenas lba = some (index, block)) (found : arenas[index]? = some arena) :
    block < arena.info.external := by
  induction arenas generalizing lba index with
  | nil => simp at found
  | cons first rest induction =>
      rcases place_cases placed with ⟨rfl, inside, block_eq⟩ | ⟨later, rfl, -, inner⟩
      · cases found
        rw [UInt32.lt_iff_toNat_lt, block_eq]
        exact inside
      · exact induction inner (by simpa using found)

theorem place_of_locate {device : Device} {lba length : Nat} {place : Nat × UInt32}
    (located : device.locate lba length = .ok place) :
    place? device.arenas lba = some place := by
  unfold locate at located
  split at located
  next => cases located
  next =>
    split at located
    next found =>
      cases located
      exact found
    next => cases located

theorem width_of_locate {device : Device} {lba length : Nat} {place : Nat × UInt32}
    (located : device.locate lba length = .ok place) : length = device.externalSize.toNat := by
  unfold locate at located
  split at located
  next => cases located
  next width => exact not_not.mp width

variable {μ : Type} [Media μ] [Atomic μ]

/-- Arenas are mounted one after the other up to the first that fails, each through the bytes of
its own span alone. -/
def MountsInside : (arenas : List (Span × Expectation)) → (before after : Probe μ) → Prop
  | [], before, after => after = before
  | (span, expected) :: rest, before, after =>
      let (outcome, middle) := (Arena.load span expected).on before
      before.Continues (fun event => event.Inside span.base span.stop) middle ∧
        match outcome with
        | .ok _ => MountsInside rest middle after
        | .error _ => after = middle

def TransfersInside (device : Device) (lba length : Nat) (before after : Probe μ) : Prop :=
  match device.locate lba length with
  | .error _ => after = before
  | .ok (index, block) => ∃ arena, device.arenas[index]? = some arena ∧
      before.Continues (arena.Serves block length) after

def Placed (device : Device) : Prop :=
  ∀ arena ∈ device.arenas, arena.Placed device.externalSize

def SoundAt (device : Device) (index : Nat) : Prop :=
  ∀ arena, device.arenas[index]? = some arena → arena.FlogSound

theorem loadAll_inside {arenas : List (Span × Expectation)}
    (surveyed : ∀ pair ∈ arenas, Surveyed blockSize pair.1 pair.2) {probe after : Probe μ}
    {outcome : Except Error (List Arena)} (recording : probe.recording = true)
    (ran : Step.on (arenas.mapM fun (span, expected) => Arena.load span expected) probe =
      (outcome, after)) :
    MountsInside arenas probe after ∧ after.recording = true ∧
      ∀ mounted, outcome = .ok mounted → ∀ arena ∈ mounted,
        arena.Placed blockSize ∧ arena.FlogSound := by
  induction arenas generalizing probe after outcome with
  | nil =>
      cases ran
      refine ⟨rfl, recording, ?_⟩
      rintro _ ⟨⟩
      simp
  | cons pair rest induction =>
      obtain ⟨span, expected⟩ := pair
      have here := surveyed (span, expected) List.mem_cons_self
      have loading : (Arena.load span expected : Step (Probe μ) _).Confined
          (Atomic.contents probe) _ _ :=
        Arena.confined_load here.arenaSize_eq here.large here.aligned here.fits
      rw [List.mapM_cons, Step.on_bind] at ran
      rw [MountsInside]
      rcases loaded : (Arena.load span expected).on probe with ⟨head, middle⟩
      rw [loaded] at ran
      have made := loading.continues recording loaded
      cases head with
      | error cause =>
          cases ran
          exact ⟨⟨made, rfl⟩, made.recording, nofun⟩
      | ok arena =>
          obtain ⟨-, sound⟩ := loading.of_ok recording loaded
          rw [here.externalSize_eq] at sound
          dsimp only at ran
          rw [Step.on_bind] at ran
          rcases others : Step.on (rest.mapM fun (span, expected) => Arena.load span expected)
            middle with ⟨tail, last⟩
          rw [others] at ran
          obtain ⟨inside, recordingLast, soundRest⟩ := induction
            (fun later member => surveyed later (List.mem_cons_of_mem _ member))
            made.recording others
          cases tail with
          | error cause =>
              cases ran
              exact ⟨⟨made, inside⟩, recordingLast, nofun⟩
          | ok mounted =>
              cases ran
              refine ⟨⟨made, inside⟩, recordingLast, ?_⟩
              rintro _ ⟨⟩ other member
              rcases List.mem_cons.mp member with rfl | later
              · exact sound
              · exact soundRest mounted rfl other later

theorem load_inside {probe after : Probe μ} {outcome : Except Error Device}
    (recording : probe.recording = true)
    (ran : (Device.load parent totalSize blockSize).on probe = (outcome, after)) :
    after.recording = true ∧
      (match survey parent totalSize blockSize (Media.size probe) with
        | .error _ => after = probe
        | .ok arenas => MountsInside arenas probe after) ∧
      ∀ device, outcome = .ok device → device.Placed ∧ ∀ index, device.SoundAt index := by
  have opened : (Device.load parent totalSize blockSize).on probe =
      Step.on (do
        let arenas ← Step.ofExcept (survey parent totalSize blockSize (Media.size probe))
        let arenas ← arenas.mapM fun (span, expected) => Arena.load span expected
        return {
          parent
          externalSize := blockSize
          internalSize := internalBlockSize blockSize
          arenas }) probe := rfl
  rw [opened] at ran
  cases found : survey parent totalSize blockSize (Media.size probe) with
  | error cause =>
      rw [found] at ran
      cases ran
      exact ⟨recording, rfl, nofun⟩
  | ok arenas =>
      rw [found] at ran
      change Step.on (arenas.mapM (fun (span, expected) => Arena.load span expected) >>= _)
        probe = _ at ran
      rw [Step.on_bind] at ran
      rcases loaded : Step.on (arenas.mapM fun (span, expected) => Arena.load span expected) probe
        with ⟨result, last⟩
      rw [loaded] at ran
      obtain ⟨inside, recordingLast, sound⟩ :=
        loadAll_inside (surveyed_of_mem found) recording loaded
      cases result with
      | error cause =>
          cases ran
          exact ⟨recordingLast, inside, nofun⟩
      | ok mounted =>
          cases ran
          refine ⟨recordingLast, inside, ?_⟩
          rintro _ ⟨⟩
          refine ⟨fun arena member => (sound mounted rfl arena member).1, ?_⟩
          intro index arena at_index
          exact (sound mounted rfl arena (List.mem_of_getElem? at_index)).2

section Transfers

variable {device : Device} {lba length : Nat} {bytes : List UInt8} {probe : Probe μ}

theorem read_inside (placed : device.Placed) (recording : probe.recording = true) :
    device.TransfersInside lba length probe ((device.read lba length).on probe).2 ∧
      ((device.read lba length).on probe).2.recording = true := by
  rw [TransfersInside]
  rcases locate_cases device lba length with ⟨cause, refused, -⟩ |
    ⟨index, block, arena, located, -, width, -, chosen, found⟩
  · rw [read, refused]
    exact ⟨rfl, recording⟩
  · have made := (Arena.confined_read (placed arena (List.mem_of_getElem? found))
      (block_lt_external chosen found) probe recording rfl).1
    rw [read_of_locate located found, located]
    rw [← width] at made
    exact ⟨⟨arena, found, made⟩, made.recording⟩

theorem write_inside (placed : device.Placed) (recording : probe.recording = true)
    (sound : ∀ index block, device.locate lba bytes.length = .ok (index, block) →
      device.SoundAt index) :
    device.TransfersInside lba bytes.length probe (device.write lba bytes probe).2 := by
  rw [TransfersInside]
  rcases locate_cases device lba bytes.length with ⟨cause, refused, -⟩ |
    ⟨index, block, arena, located, -, width, -, chosen, found⟩
  · rw [write, refused]
    rfl
  · have made := Arena.write_inside (placed arena (List.mem_of_getElem? found))
      (block_lt_external chosen found) (sound index block located arena found) recording width
    rw [write_of_locate located found, located]
    rw [← width] at made
    exact ⟨arena, found, made⟩

theorem write_keeps (placed : device.Placed) (recording : probe.recording = true) :
    (device.write lba bytes probe).2.recording = true ∧
      (device.write lba bytes probe).1.2.Placed ∧
      ∀ index, device.SoundAt index →
        (∀ block arena, device.locate lba bytes.length = .ok (index, block) →
          device.arenas[index]? = some arena → arena.readOnly = false →
          (arena.entryAt (Atomic.contents probe) block).backingBlock block <
            arena.info.internal) →
        (device.write lba bytes probe).1.2.SoundAt index := by
  rcases locate_cases device lba bytes.length with ⟨cause, refused, -⟩ |
    ⟨target, block, arena, located, -, width, -, chosen, found⟩
  · rw [write, refused]
    exact ⟨recording, placed, fun _ sound _ => sound⟩
  · obtain ⟨made, stays, keeps⟩ := Arena.write_reaches (placed arena (List.mem_of_getElem? found))
      (block_lt_external chosen found) recording width
    rw [write_of_locate located found]
    refine ⟨made.recording, fun other member => ?_, fun index sound named other at_index => ?_⟩
    · rcases List.mem_or_eq_of_mem_set member with old | rfl
      · exact placed other old
      · exact stays
    · by_cases same : target = index
      · subst same
        rw [List.getElem?_set_self', found] at at_index
        cases at_index
        exact keeps (sound arena found) (named block arena located found)
      · rw [List.getElem?_set_ne same] at at_index
        exact sound other at_index

end Transfers

end Device

namespace Session

section Conditions

variable {μ : Type} [Media μ]

def Always (layout : Layout) (holds : Session μ → Call → Prop) : Session μ → List Call → Prop
  | _, [] => True
  | session, call :: rest =>
      holds session call ∧ Always layout holds (session.step layout call).2 rest

def WritesTo (session : Session μ) (index : Nat) : Call → Prop
  | .write lba bytes => ∃ device block, session.device = some device ∧
      device.locate lba bytes.length = .ok (index, block)
  | .read _ _ | .release | .load => False

/-- If the call is a write to the arena at `index`, and that takes writes, the map entry that it
replaces names one of the data blocks of the arena. -/
def Named [Atomic μ] (index : Nat) (session : Session μ) : Call → Prop
  | .write lba bytes => ∀ device block arena, session.device = some device →
      device.locate lba bytes.length = .ok (index, block) → device.arenas[index]? = some arena →
      arena.readOnly = false →
      (arena.entryAt (Atomic.contents session.media) block).backingBlock block <
        arena.info.internal
  | .read _ _ | .release | .load => True

variable [Atomic μ] {layout : Layout} {session : Session μ} {homes : List Arena} {size : Nat}
  {sound : Prop} {value : Nat → List UInt8}

theorem named_of_holds (holds : session.Holds layout homes size sound value) (index : Nat)
    (call : Call) : session.Named index call := by
  obtain ⟨contents, shown, held⟩ := holds
  cases call with
  | read lba length => trivial
  | release => trivial
  | load => trivial
  | write lba bytes =>
      intro device block arena mounted located found writable
      rw [mounted] at held
      obtain ⟨-, held, -⟩ := held
      obtain ⟨home, value, holds⟩ := held.holds_of_mem arena (List.mem_of_getElem? found)
      obtain ⟨target, head, others, spare, durable, settled, -⟩ := holds.live writable
      have inside := Device.block_lt_external (Device.place_of_locate located) found
      rw [shown.contents_eq,
        Arena.backingBlock_eq durable.described settled durable.owned inside]
      exact durable.target_lt inside

/-- No write of a session on a media that holds a device as it was laid out replaces the entry of a
missing block, whichever accesses fail: the entries are those of the layout and of the writes
before. -/
theorem always_named_of_holds (founded : Founded layout size homes)
    (holds : session.Holds layout homes size sound value) (index : Nat) (calls : List Call) :
    session.Always layout (Named index) calls := by
  induction calls generalizing session value with
  | nil => trivial
  | cons call rest induction =>
      exact ⟨named_of_holds holds index call, induction (step_holds founded holds call)⟩

end Conditions

variable {μ : Type} [Media μ] [Atomic μ] {layout : Layout} {session : Session (Probe μ)}

/-- The call accesses the media through the bytes of the arenas that it is for alone. -/
def StaysInside (layout : Layout) (session : Session (Probe μ)) (call : Call) : Prop :=
  let after := (session.step layout call).2.media
  match call, session.device with
  | .read lba length, some device => device.TransfersInside lba length session.media after
  | .write lba bytes, some device => device.TransfersInside lba bytes.length session.media after
  | .load, _ =>
      match Device.survey layout.parent layout.totalSize layout.blockSize
          (Media.size session.media) with
      | .error _ => after = session.media
      | .ok arenas => Device.MountsInside arenas session.media after
  | .read _ _, none | .write _ _, none | .release, _ => after = session.media

structure Placed (session : Session (Probe μ)) : Prop where
  recording : session.media.recording = true
  device : ∀ device, session.device = some device → device.Placed

def SoundAt (session : Session (Probe μ)) (index : Nat) : Prop :=
  ∀ device, session.device = some device → device.SoundAt index

theorem load_placed (recording : session.media.recording = true) :
    session.StaysInside layout .load ∧ (session.step layout .load).2.Placed ∧
      ∀ index, (session.step layout .load).2.SoundAt index := by
  rcases ran : (Device.load layout.parent layout.totalSize layout.blockSize).on session.media with
    ⟨outcome, after⟩
  obtain ⟨recorded, inside, sound⟩ := Device.load_inside recording ran
  have stepped : (session.step layout .load).2 = ⟨after, outcome.toOption⟩ := by
    rw [step]
    simp only [ran]
    cases outcome <;> rfl
  rw [StaysInside, stepped]
  cases outcome with
  | error cause =>
      refine ⟨inside, ⟨recorded, ?_⟩, fun index => ?_⟩
      · rintro _ ⟨⟩
      · rintro _ ⟨⟩
  | ok device =>
      obtain ⟨placed, sound⟩ := sound device rfl
      refine ⟨inside, ⟨recorded, ?_⟩, fun index => ?_⟩
      · rintro _ ⟨⟩
        exact placed
      · rintro _ ⟨⟩
        exact sound index

theorem step_inside (placed : session.Placed) {call : Call}
    (sound : ∀ index, session.WritesTo index call → session.SoundAt index) :
    session.StaysInside layout call := by
  obtain ⟨media, mounted⟩ := session
  obtain ⟨recording, devices⟩ := placed
  cases call with
  | read lba length =>
      cases mounted with
      | none => rfl
      | some device => exact (Device.read_inside (devices device rfl) recording).1
  | write lba bytes =>
      cases mounted with
      | none => rfl
      | some device =>
          apply Device.write_inside (devices device rfl) recording
          exact fun index block located => sound index ⟨device, block, rfl, located⟩ device rfl
  | release => rfl
  | load => exact (load_placed recording).1

theorem step_placed (placed : session.Placed) (call : Call) :
    (session.step layout call).2.Placed ∧
      ∀ index, session.SoundAt index → session.Named index call →
        (session.step layout call).2.SoundAt index := by
  obtain ⟨media, mounted⟩ := session
  obtain ⟨recording, devices⟩ := placed
  cases call with
  | read lba length =>
      cases mounted with
      | none => exact ⟨⟨recording, devices⟩, fun _ sound _ => sound⟩
      | some device =>
          obtain ⟨-, recorded⟩ : device.TransfersInside lba length media _ ∧ _ :=
            Device.read_inside (devices device rfl) recording
          exact ⟨⟨recorded, devices⟩, fun _ sound _ => sound⟩
  | write lba bytes =>
      cases mounted with
      | none => exact ⟨⟨recording, devices⟩, fun _ sound _ => sound⟩
      | some device =>
          obtain ⟨recorded, stays, keeps⟩ := Device.write_keeps (devices device rfl) recording
          refine ⟨⟨recorded, ?_⟩, fun index sound named => ?_⟩
          · rintro _ ⟨⟩
            exact stays
          · rintro _ ⟨⟩
            exact keeps index (sound device rfl) fun block arena => named device block arena rfl
  | release => exact ⟨⟨recording, nofun⟩, fun _ _ _ => nofun⟩
  | load =>
      obtain ⟨-, placed, sound⟩ : StaysInside layout ⟨media, mounted⟩ .load ∧ _ :=
        load_placed recording
      exact ⟨placed, fun index _ _ => sound index⟩

theorem run_placed (placed : session.Placed) (calls : List Call) :
    (session.run layout calls).2.Placed := by
  induction calls generalizing session with
  | nil => exact placed
  | cons call rest induction => exact induction (step_placed placed call).1

theorem run_soundAt {index : Nat} (placed : session.Placed) (sound : session.SoundAt index)
    {calls : List Call} (named : session.Always layout (Named index) calls) :
    (session.run layout calls).2.SoundAt index := by
  induction calls generalizing session with
  | nil => exact sound
  | cons call rest induction =>
      obtain ⟨here, later⟩ := named
      obtain ⟨stays, keeps⟩ := step_placed placed call
      exact induction stays (keeps index sound here) later

/-- **Confinement.** Let a device be mounted from a media with any contents, and then any calls
be made, of which any accesses may fail. The mount accesses for each arena bytes of the span of
that arena alone. So does the call after them, and data blocks inside the data area alone; for a
write this takes that no write since the mount replaced a map entry of the same arena that names
a block beyond the data blocks. Under the same condition the flog slots of the arena are sound
while it takes writes, so that the active records name data blocks of the arena. -/
theorem accesses_confined (recording : session.media.recording = true) (calls : List Call)
    (call : Call) :
    let mounted := (session.step layout .load).2
    let after := (mounted.run layout calls).2
    session.StaysInside layout .load ∧
      ((∀ index, after.WritesTo index call → mounted.Always layout (Named index) calls) →
        after.StaysInside layout call) ∧
      ∀ index, mounted.Always layout (Named index) calls → after.SoundAt index := by
  intro mounted after
  obtain ⟨inside, placed, sound⟩ : session.StaysInside layout .load ∧ _ := load_placed recording
  have kept (index : Nat) (named : mounted.Always layout (Named index) calls) :
      after.SoundAt index := run_soundAt placed (sound index) named
  refine ⟨inside, fun named => ?_, kept⟩
  exact step_inside (run_placed placed calls) fun index writes => kept index (named index writes)

/-- A freshly laid out device is mounted and written under observation. -/
theorem accesses_confined_small :
    ∃ device created, (Device.create Device.smallLayout Device.zeroEntropy).on
        (Simulated.blank minArena) = (.ok device, created) ∧
      let session : Session (Probe Simulated) := ⟨{ media := created, recording := true }, none⟩
      let mounted := (session.step Device.smallLayout .load).2
      let after : Session (Probe Simulated) :=
        (mounted.run Device.smallLayout [.write 0 (List.replicate 512 7)]).2
      session.StaysInside Device.smallLayout .load ∧
        after.StaysInside Device.smallLayout (.write 0 (List.replicate 512 9)) ∧
        ∀ index, after.SoundAt index := by
  obtain ⟨device, created, laidOut, -⟩ := Device.small_created
  obtain ⟨founded, contents, shown, -, mounted, -⟩ := holds_created laidOut
  let session : Session (Probe Simulated) := ⟨{ media := created, recording := true }, none⟩
  have observed : session.Holds Device.smallLayout device.arenas _ False _ :=
    ⟨contents, ⟨shown.size_eq, shown.contents_eq, False.elim⟩, mounted.allKept⟩
  have loaded := step_holds founded observed .load
  have named (index : Nat) := always_named_of_holds founded loaded index
    [.write 0 (List.replicate 512 7)]
  obtain ⟨load, write, sound⟩ : session.StaysInside Device.smallLayout .load ∧ _ :=
    accesses_confined rfl [.write 0 (List.replicate 512 7)] (.write 0 (List.replicate 512 9))
  exact ⟨device, created, laidOut, load, write fun index _ => named index,
    fun index => sound index (named index)⟩

end Session

end Remap.Block
