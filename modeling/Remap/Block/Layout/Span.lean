import Remap.Block.Layout.Alignment
import Remap.Bytes.Hex

/-!
# Arena spans

The space of a block device is cut into arenas from its start. All arenas but
the last have the largest size allowed; the last takes what is left, rounded
down, provided that it reaches the smallest arena. A shorter rest stays unused.
-/

namespace Remap.Block

def minArena : Nat := 16 <<< 20

def maxArena : Nat := 512 <<< 30

inductive LayoutError
  | tooSmall (totalSize : Nat)
  | noFreeBlocks
  | noRoomForFlog (arenaSize nfree : Nat)
  | noRoomForBlocks (arenaSize : Nat)
  | fewerBlocksThanSlots (arenaSize external nfree : Nat)
deriving DecidableEq, Repr

namespace LayoutError

def message : LayoutError → String
  | tooSmall totalSize =>
      s!"total size {Hex.number totalSize} is below the minimum arena size " ++
        Hex.number minArena
  | noFreeBlocks => "nfree must be at least 1"
  | noRoomForFlog arenaSize nfree =>
      s!"arena of {Hex.number arenaSize} bytes cannot hold {nfree} flog slots"
  | noRoomForBlocks arenaSize =>
      s!"arena of {Hex.number arenaSize} bytes has no room for external blocks"
  | fewerBlocksThanSlots arenaSize external nfree =>
      s!"arena of {Hex.number arenaSize} bytes holds {external} external blocks, " ++
        s!"fewer than nfree {nfree}"

end LayoutError

structure Span where
  base : Nat
  size : Nat
deriving DecidableEq, Repr

namespace Span

def stop (span : Span) : Nat := span.base + span.size

def plan (totalSize largest : Nat) : Except LayoutError (List Span) :=
  let full := alignDown largest regionAlignment
  if totalSize < minArena ∨ full < minArena then
    .error (.tooSmall totalSize)
  else
    let count := totalSize / full
    let rest := totalSize % full
    let last : Span := ⟨count * full, alignDown rest regionAlignment⟩
    .ok <| (List.range count).map (fun index => ⟨index * full, full⟩) ++
      if rest < minArena then [] else [last]

end Span

end Remap.Block
