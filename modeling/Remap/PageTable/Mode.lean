/-!
# Paging modes

A linear address is translated by a tree of tables of 512 entries. An entry of a
level 1 table covers 4 KiB, and an entry one level up covers 512 times as much.
The mode sets how many levels there are and the largest piece that one entry may
map; large pieces that are found are understood in every mode.
-/

namespace Remap.PageTable

def tableEntries : Nat := 512

def pageBytes : Nat := 4096

def levelSize (level : Nat) : Nat := 1 <<< (12 + 9 * (level - 1))

inductive LeafSize
  | page4K
  | page2M
  | page1G
deriving DecidableEq, Repr

namespace LeafSize

def level : LeafSize → Nat
  | page4K => 1
  | page2M => 2
  | page1G => 3

def ofLevel : Nat → LeafSize
  | 3 => page1G
  | 2 => page2M
  | _ => page4K

end LeafSize

inductive Mode
  | legacy
  | pae
  | fourLevel (largest : LeafSize)
  | fiveLevel (largest : LeafSize)
deriving DecidableEq, Repr

namespace Mode

def name : Mode → String
  | legacy => "32-bit"
  | pae => "PAE"
  | fourLevel .page4K => "4-level"
  | fourLevel .page2M => "4-level 2M"
  | fourLevel .page1G => "4-level 1G"
  | fiveLevel .page4K => "5-level"
  | fiveLevel .page2M => "5-level 2M"
  | fiveLevel .page1G => "5-level 1G"

def maxLevel : Mode → Nat
  | legacy => 2
  | pae => 3
  | fourLevel _ => 4
  | fiveLevel _ => 5

def maxLeafLevel : Mode → Nat
  | legacy | pae => 2
  | fourLevel largest | fiveLevel largest => largest.level

def isSupported : Mode → Bool
  | legacy | pae => false
  | fourLevel _ | fiveLevel _ => true

def linearLimit (mode : Mode) : Nat :=
  levelSize mode.maxLevel * tableEntries

end Mode

end Remap.PageTable
