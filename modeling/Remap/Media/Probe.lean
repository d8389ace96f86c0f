import Remap.Media.Basic

/-!
# Probes

A probe stands between the block device and a media. It records every access
in the order of issue, also those that fail, and fails the accesses that a
script names before they reach the media.
-/

namespace Remap.Media

inductive Event
  | read (offset length : Nat)
  | write (offset length : Nat)
  | flush
deriving DecidableEq, Repr

structure Range where
  start : Nat
  stop : Nat
deriving DecidableEq, Repr

namespace Range

def contains (range : Range) (offset : Nat) : Bool :=
  range.start ≤ offset && offset < range.stop

end Range

structure Script where
  failReads : List Range := []
  failWrites : List Range := []
  flushBudget : Option Nat := none
deriving DecidableEq, Repr

structure Probe (μ : Type) where
  media : μ
  script : Script := {}
  recording : Bool := false
  trace : List Event := []

namespace Probe

variable {μ : Type} [Media μ]

def note (probe : Probe μ) (event : Event) : Probe μ :=
  if probe.recording then { probe with trace := event :: probe.trace } else probe

def pass {α : Type} (probe : Probe μ) (access : Access μ α) :
    Except Error α × Probe μ :=
  let (outcome, media) := access.run probe.media
  (outcome, { probe with media })

def read (probe : Probe μ) (offset length : Nat) :
    Except Error (List UInt8) × Probe μ :=
  let probe := probe.note (.read offset length)
  if probe.script.failReads.any (·.contains offset) then
    (.error (.injected .scriptedRead), probe)
  else
    probe.pass (Media.read offset length)

def write (probe : Probe μ) (offset : Nat) (bytes : List UInt8) :
    Except Error Unit × Probe μ :=
  let probe := probe.note (.write offset bytes.length)
  if probe.script.failWrites.any (·.contains offset) then
    (.error (.injected .scriptedWrite), probe)
  else
    probe.pass (Media.write offset bytes)

def flush (probe : Probe μ) : Except Error Unit × Probe μ :=
  let probe := probe.note .flush
  match probe.script.flushBudget with
  | some 0 => (.error (.injected .scriptedFlush), probe)
  | some (left + 1) =>
      let script := { probe.script with flushBudget := some left }
      { probe with script }.pass Media.flush
  | none => probe.pass Media.flush

instance : Media (Probe μ) where
  size probe := Media.size probe.media
  read offset length := fun probe => probe.read offset length
  write offset bytes := fun probe => probe.write offset bytes
  flush := fun probe => probe.flush

end Probe

end Remap.Media
