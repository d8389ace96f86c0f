import Remap.Proofs.PageTable.Client
import Remap.Proofs.PageTable.Report

/-!
# Edits are read back

After every run of edits that succeed, reading the tree reports the maximal runs of the
pages that the edits make one by one.
-/

namespace Remap.PageTable

namespace Client

variable {client : Client} {levels : Nat} {pages : Pages} {mode : Mode}

section Sound

variable (sound : client.Sound levels pages) (height : mode.maxLevel = levels)

include sound

theorem reads (rooted : client.root ≠ 0) (address : Nat)
    (used : client.memory.view.Uses (levels + 1) (.pointer client.root) address) :
    client.memory.table address = .ok (client.memory.view address) :=
  (((sound.spaces 0).holds rooted).has address used).table_eq

include height

theorem not_broken : ¬client.memory.Broken mode client.root := by
  rintro ⟨rooted, lower, target, cause, leads, failed⟩
  have number : (UInt64.ofNat client.root).toNat = client.root := (sound.spaces 0).number
  rw [height, ← number] at leads
  have used := Memory.uses_of_leads (reads sound rooted) leads
  rw [reads sound rooted target used] at failed
  cases failed

theorem pages_eq : client.memory.pages mode client.root = pages := by
  funext page
  rw [Memory.pages, mode.linearLimit_eq, height]
  by_cases inside : page * pageBytes < levelSize (levels + 1)
  · rw [sound.inside page inside, Workspace.page, space]
    by_cases rooted : client.root = 0
    · rw [if_neg (fun both => both.1 rooted), if_pos rooted]
    · have number : (UInt64.ofNat client.root).toNat = client.root := (sound.spaces 0).number
      have same : client.memory.pageBelow levels (UInt64.ofNat client.root).toNat .permissive
          (page * pageBytes) = _ :=
        Memory.pageBelow_of_tidy ((sound.spaces 0).holds rooted).tidy (reads sound rooted)
      rw [number] at same
      rw [if_pos ⟨rooted, inside⟩, if_neg rooted, same]
      rfl
  · rw [if_neg (fun both => inside both.2), sound.outside page (Nat.le_of_not_lt inside)]

end Sound

/-- After every run of edits, reading the tree reports the maximal runs of the pages that
the edits make, and nothing else. -/
theorem report_compacts (reached : client.Reaches levels pages)
    (supported : mode.isSupported = true) (height : mode.maxLevel = levels) :
    ∃ extents, Compacts pages extents ∧ (∀ others, Compacts pages others → others = extents) ∧
      ∀ output : List Extent, extents.length ≤ output.length →
        client.memory.report mode client.root output =
          (.ok extents.length, extents ++ output.drop extents.length) := by
  have passes := Memory.scan_passes_iff.mpr (not_broken reached.sound height)
  have compacts := Memory.scan_compacts passes
  rw [pages_eq reached.sound height] at compacts
  refine ⟨_, compacts, fun others also => also.unique compacts, ?_⟩
  intro output room
  rw [Memory.report_passed supported passes]
  exact if_neg (Nat.not_lt.mpr room)

def smallMemory : Memory := ⟨#[] ++ Array.replicate 4 Table.blank⟩

def smallBuffer : Buffer := ⟨0x100000, 0x4000, 0x4000⟩

def smallSpace : Workspace := ⟨smallMemory, 0, smallBuffer⟩

def smallEdit : Edit := ⟨.fourLevel .page1G, 0x1000, 0x1000, ⟨0x5007⟩, .all⟩

def largeEdit : Edit := ⟨.fourLevel .page2M, 0, 0x200000, ⟨0x200007⟩, .all⟩

def largeClient : Client :=
  keep ⟨smallMemory, 0, [smallBuffer]⟩ 0 (largeEdit.apply smallSpace).2

def splitClient : Client := largeClient.keep 0 (smallEdit.apply (largeClient.space 0)).2

theorem largeEdit_maps : (largeEdit.apply smallSpace).1 = .ok ⟨3, true⟩ :=
  ok_of_toOption (by decide +kernel)

theorem smallEdit_splits : (smallEdit.apply (largeClient.space 0)).1 = .ok ⟨1, true⟩ :=
  ok_of_toOption (by decide +kernel)

theorem report_compacts_small :
    ∃ pages : Pages, splitClient.Reaches 4 pages ∧
      pages 0 = some ⟨0x200007⟩ ∧ pages 1 = some ⟨0x5007⟩ ∧ pages 2 = some ⟨0x202007⟩ ∧
      ∃ extents, Compacts pages extents ∧ (∀ others, Compacts pages others → others = extents) ∧
        ∀ output : List Extent, extents.length ≤ output.length →
          splitClient.memory.report (.fourLevel .page2M) splitClient.root output =
            (.ok extents.length, extents ++ output.drop extents.length) := by
  have taken : start.memory.reserve 0x4000 = .ok (smallBuffer, smallMemory) := rfl
  have reserved : Reaches 4 ⟨smallMemory, 0, [smallBuffer]⟩ fun _ => none :=
    .reserve .start taken (by decide)
  have large : largeClient.Reaches 4 _ :=
    .map 0 largeEdit ⟨3, true⟩ reserved rfl rfl (.inl rfl) largeEdit_maps
  have split : splitClient.Reaches 4 _ :=
    .map 0 smallEdit ⟨1, true⟩ large rfl rfl (.inl rfl) smallEdit_splits
  exact ⟨_, split, by decide, by decide, by decide, report_compacts split rfl rfl⟩

end Client

end Remap.PageTable
