import Remap.Block.Error

/-!
# Steps of the block device

A step runs on the state of a media and can fail; the media afterwards is kept
either way. All accesses that the block device makes are the three below.
-/

namespace Remap.Block

abbrev Step (μ : Type) := ExceptT Error (StateM μ)

namespace Step

variable {μ : Type}

def access {α : Type} (access : Media.Access μ α) : Step μ α :=
  access.adapt .media

def outcome {α : Type} (step : Step μ α) : Step μ (Except Error α) :=
  ExceptT.lift step.run

def ofExcept {α : Type} (outcome : Except Error α) : Step μ α :=
  ExceptT.mk (pure outcome)

variable [Media μ]

def readAt (offset length : Nat) : Step μ (List UInt8) :=
  access (Media.read offset length)

def writeAt (offset : Nat) (bytes : List UInt8) : Step μ Unit :=
  access (Media.write offset bytes)

def flush : Step μ Unit :=
  access Media.flush

end Step

end Remap.Block
