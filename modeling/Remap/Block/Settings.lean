import Remap.Text.Blank
import Remap.Text.Decimal

/-!
# Settings of a fresh block device

How many free blocks an arena keeps and how large a block is can be set by two
variables, each a positive number that fits 32 bits. White space around it is
ignored. A variable that is not set leaves the default.
-/

namespace Remap.Block

structure Settings where
  nfree : UInt32 := 256
  blockSize : UInt32 := 512
deriving DecidableEq, Repr

inductive SettingsError
  | zero (name : String)
  | malformed (name value : String)
deriving DecidableEq, Repr

namespace SettingsError

def name : SettingsError → String
  | zero name => name
  | malformed name _ => name

def detail : SettingsError → String
  | zero _ => "must be greater than zero"
  | malformed _ value => s!"'{value}' is not a positive integer"

def message (error : SettingsError) : String :=
  s!"invalid value for {error.name}: {error.detail}"

end SettingsError

namespace Settings

def nfreeName : String := "NVMAP_BTT_NFREE"

def blockSizeName : String := "NVMAP_BTT_LBA_SIZE"

def readValue (name value : String) : Except SettingsError UInt32 :=
  match Text.number? (Text.trim value.toList) with
  | none => .error (.malformed name value)
  | some number =>
      if number = 0 then .error (.zero name)
      else if number < UInt32.size then .ok (.ofNat number)
      else .error (.malformed name value)

def setting (lookup : String → Option String) (name : String) (default : UInt32) :
    Except SettingsError UInt32 :=
  match lookup name with
  | none => .ok default
  | some value => readValue name value

def ofLookup (lookup : String → Option String) : Except SettingsError Settings := do
  let defaults : Settings := {}
  let nfree ← setting lookup nfreeName defaults.nfree
  let blockSize ← setting lookup blockSizeName defaults.blockSize
  return { nfree, blockSize }

end Settings

end Remap.Block
