import Remap.Media.Image.Basic

/-!
# Simulated media

An image in memory with injected faults. A fault plan may fail every read,
every write, or all writes after the first few have landed, which stands for a
loss of power between two writes. A failing write leaves the image unchanged.
Rebooting keeps the image and drops the faults.
-/

namespace Remap.Media

structure FaultPlan where
  writeBudget : Option Nat := none
  failReads : Bool := false
  failWrites : Bool := false
deriving DecidableEq, Repr

structure Statistics where
  reads : Nat := 0
  writes : Nat := 0
  flushes : Nat := 0
  injectedReadErrors : Nat := 0
  injectedWriteErrors : Nat := 0
deriving DecidableEq, Repr

structure Simulated where
  image : Image
  plan : FaultPlan := {}
  poweredOff : Bool := false
  statistics : Statistics := {}

namespace Simulated

def blank (size : Nat) : Simulated := { image := .blank size }

def setPlan (media : Simulated) (plan : FaultPlan) : Simulated :=
  { image := media.image, plan }

def reboot (media : Simulated) : Simulated := media.setPlan {}

def snapshot (media : Simulated) : Simulated := { image := media.image }

def contentsEqual (left right : Simulated) : Bool :=
  left.image.contentsEqual right.image

def corruptBit (media : Simulated) (offset : Nat) (bit : UInt8) : Simulated :=
  { media with image := media.image.flipBit offset bit }

def outOfPower (media : Simulated) : Bool :=
  media.poweredOff ||
    match media.plan.writeBudget with
    | none => false
    | some budget => budget ≤ media.statistics.writes

def writeFault (media : Simulated) : Option Fault :=
  if media.outOfPower then some .powerLoss
  else if media.plan.failWrites then some .writeError
  else none

/-- Every read counts, also one that fails. -/
def read (media : Simulated) (offset length : Nat) :
    Except Error (List UInt8) × Simulated :=
  let statistics := { media.statistics with reads := media.statistics.reads + 1 }
  if !media.image.holds offset length then
    (.error (.outOfBounds offset length media.image.size), { media with statistics })
  else if media.plan.failReads then
    let injectedReadErrors := statistics.injectedReadErrors + 1
    (.error (.injected .readError),
      { media with statistics := { statistics with injectedReadErrors } })
  else
    (.ok (media.image.load offset length), { media with statistics })

/-- A write outside the image uses nothing of the budget and is not counted. -/
def write (media : Simulated) (offset : Nat) (bytes : List UInt8) :
    Except Error Unit × Simulated :=
  if !media.image.holds offset bytes.length then
    (.error (.outOfBounds offset bytes.length media.image.size), media)
  else
    match media.writeFault with
    | some fault =>
        let injectedWriteErrors := media.statistics.injectedWriteErrors + 1
        (.error (.injected fault),
          { media with
            poweredOff := media.outOfPower
            statistics := { media.statistics with injectedWriteErrors } })
    | none =>
        let writes := media.statistics.writes + 1
        (.ok (),
          { media with
            image := media.image.store offset bytes
            statistics := { media.statistics with writes } })

def flush (media : Simulated) : Except Error Unit × Simulated :=
  let flushes := media.statistics.flushes + 1
  (.ok (), { media with statistics := { media.statistics with flushes } })

instance : Media Simulated where
  size media := media.image.size
  read offset length := fun media => media.read offset length
  write offset bytes := fun media => media.write offset bytes
  flush := fun media => media.flush

end Simulated

end Remap.Media
