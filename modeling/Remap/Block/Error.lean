import Remap.Block.Flog
import Remap.Block.InfoBlock
import Remap.Media.Basic

/-!
# Failures of the block device
-/

namespace Remap.Block

inductive ErrorKind
  | invalidParameter
  | aborted
  | unsupported
  | media
deriving DecidableEq, Repr

namespace ErrorKind

def heading : ErrorKind → String
  | invalidParameter => "invalid parameter"
  | aborted => "aborted"
  | unsupported => "unsupported"
  | media => "media error"

end ErrorKind

inductive Error
  | layout (cause : LayoutError)
  | flog (cause : FlogError)
  | infoBlocks (base : Nat) (primary backup : InfoBlockError)
  | blockSize (size : UInt32)
  | beyondMedia (totalSize mediaSize : Nat)
  | bufferLength (length : Nat) (blockSize : UInt32)
  | beyondEnd (lba blocks : Nat)
  | danglingEntry (lba block internal : UInt32)
  | badBlock (lba : UInt32) (base : Nat)
  | readOnly (base : Nat)
  | noEntropy
  | media (cause : Media.Error)
deriving DecidableEq, Repr

namespace Error

def kind : Error → ErrorKind
  | badBlock _ _ | readOnly _ => .aborted
  | noEntropy => .unsupported
  | media _ => .media
  | _ => .invalidParameter

def detail : Error → String
  | layout cause => cause.message
  | flog cause => cause.message
  | infoBlocks base primary backup =>
      s!"arena at {Hex.number base}: primary info block: {primary.message}; " ++
        s!"backup info block: {backup.message}"
  | blockSize size => s!"unsupported external block size {size.toNat}"
  | beyondMedia totalSize mediaSize =>
      s!"total size {Hex.number totalSize} exceeds media size {Hex.number mediaSize}"
  | bufferLength length size =>
      s!"buffer of {length} bytes does not match block size {size.toNat}"
  | beyondEnd lba blocks => s!"lba {lba} beyond {blocks} blocks"
  | danglingEntry lba block internal =>
      s!"map entry of block {lba.toNat} points at {block.toNat}, " ++
        s!"beyond {internal.toNat} internal blocks"
  | badBlock lba base =>
      s!"block {lba.toNat} of arena at {Hex.number base} is marked bad"
  | readOnly base => s!"arena at {Hex.number base} is read-only"
  | noEntropy => "entropy source failed: no entropy"
  | media cause => cause.message

def message (error : Error) : String :=
  error.kind.heading ++ ": " ++ error.detail

end Error

end Remap.Block
