import Remap.Proofs.Block.Layout.Checked
import Remap.Proofs.Media.Atomic

/-!
# Simulated media as flat arrays

A simulated media keeps a page only once something else than zeros is stored to it, cuts each
access at the borders of pages, and compares two media by the pages that either of them keeps.
None of this can be told from outside: without faults it answers every sequence of calls as a
flat array of bytes does, and two of them compare equal just when all their bytes are.
-/

namespace Remap.Media

namespace Image

variable {left right : Image}

theorem getElem_page (image : Image) (index : Nat) {position : Nat}
    (inside : position < pageBytes) :
    (image.page index)[position] = image.byteAt (pageBytes * index + position) := by
  have quotient : (pageBytes * index + position) / pageBytes = index := by
    rw [Nat.mul_add_div (by decide), Nat.div_eq_of_lt inside, Nat.add_zero]
  have remainder : (pageBytes * index + position) % pageBytes = position := by
    rw [Nat.mul_add_mod, Nat.mod_eq_of_lt inside]
  simp only [byteAt, quotient, remainder]

theorem page_of_not_mem {image : Image} {index : Nat} (absent : index ∉ image.pages) :
    image.page index = Page.blank :=
  Std.HashMap.getD_eq_fallback absent

/-- The pages that are kept by one of two images decide whether all their bytes are the same. -/
theorem contentsEqual_iff : left.contentsEqual right = true ↔
    left.size = right.size ∧ ∀ position, left.byteAt position = right.byteAt position := by
  rw [contentsEqual, Bool.and_eq_true, beq_iff_eq, List.all_eq_true]
  refine and_congr_right fun _ => ⟨fun same position => ?_, fun same index _ => ?_⟩
  · have page_eq (index : Nat) : left.page index = right.page index := by
      by_cases kept : index ∈ left.pages.keys ++ right.pages.keys
      · exact beq_iff_eq.mp (same index kept)
      · rw [List.mem_append, not_or, Std.HashMap.mem_keys, Std.HashMap.mem_keys] at kept
        rw [page_of_not_mem kept.1, page_of_not_mem kept.2]
    rw [byteAt, byteAt]
    simp only [page_eq]
  · rw [beq_iff_eq]
    apply Vector.ext
    intro position inside
    rw [getElem_page left index inside, getElem_page right index inside, same]

end Image

namespace Simulated.IsFaultless

variable {media : Simulated} (faultless : media.IsFaultless) (offset : Nat)

include faultless

theorem read_eq (length : Nat) : ∃ statistics, media.read offset length =
    (if offset + length ≤ media.image.size then .ok (media.image.load offset length)
      else .error (.outOfBounds offset length media.image.size), { media with statistics }) := by
  rw [Simulated.read, Image.holds, faultless.1]
  by_cases inside : offset + length ≤ media.image.size
  · exact ⟨_, by simp [inside]; rfl⟩
  · exact ⟨_, by simp [inside]; rfl⟩

theorem write_eq (bytes : List UInt8) : ∃ statistics, media.write offset bytes =
    if offset + bytes.length ≤ media.image.size then
      (.ok (), { media with image := media.image.store offset bytes, statistics })
    else (.error (.outOfBounds offset bytes.length media.image.size), media) := by
  rw [Simulated.write, Image.holds, faultless.writeFault_eq_none]
  by_cases inside : offset + bytes.length ≤ media.image.size
  · exact ⟨_, by simp [inside]; rfl⟩
  · exact ⟨{}, by simp [inside]⟩

end Simulated.IsFaultless

abbrev Flat (size : Nat) := Vector UInt8 size

namespace Flat

variable {size : Nat}

inductive Call (size : Nat)
  | read (offset length : Nat)
  | write (offset : Nat) (bytes : List UInt8)
  | flush
  | corrupt (offset : Fin size) (bit : UInt8)
  | snapshot
  | reboot
deriving DecidableEq, Repr

inductive Answer
  | bytes (outcome : Except Error (List UInt8))
  | done (outcome : Except Error Unit)

def blank (size : Nat) : Flat size := Vector.replicate size 0

def overwrite (flat : Flat size) (offset : Nat) (bytes : List UInt8) : Flat size :=
  Vector.ofFn fun index =>
    if inside : offset ≤ index.val ∧ index.val - offset < bytes.length then
      bytes[index.val - offset]
    else flat[index]

def serve (flat : Flat size) : Call size → Answer × Flat size
  | .read offset length =>
      if offset + length ≤ size then (.bytes (.ok (Bytes.slice offset length flat.toList)), flat)
      else (.bytes (.error (.outOfBounds offset length size)), flat)
  | .write offset bytes =>
      if offset + bytes.length ≤ size then (.done (.ok ()), flat.overwrite offset bytes)
      else (.done (.error (.outOfBounds offset bytes.length size)), flat)
  | .corrupt offset bit => (.done (.ok ()), flat.set offset (flat[offset] ^^^ (1 <<< (bit % 8))))
  | .flush | .snapshot | .reboot => (.done (.ok ()), flat)

def serveSimulated (media : Simulated) : Call size → Answer × Simulated
  | .read offset length =>
      let (outcome, media) := media.read offset length
      (.bytes outcome, media)
  | .write offset bytes =>
      let (outcome, media) := media.write offset bytes
      (.done outcome, media)
  | .flush =>
      let (outcome, media) := media.flush
      (.done outcome, media)
  | .corrupt offset bit => (.done (.ok ()), media.corruptBit offset bit)
  | .snapshot => (.done (.ok ()), media.snapshot)
  | .reboot => (.done (.ok ()), media.reboot)

def run {σ : Type} (serve : σ → Call size → Answer × σ) : σ → List (Call size) → List Answer × σ
  | state, [] => ([], state)
  | state, call :: rest =>
      let (answer, next) := serve state call
      let (answers, last) := run serve next rest
      (answer :: answers, last)

def expected (calls : List (Call size)) : List Answer × Flat size := run serve (blank size) calls

def simulated (calls : List (Call size)) : List Answer × Simulated :=
  run serveSimulated (.blank size) calls

structure Pictures (media : Simulated) (flat : Flat size) : Prop where
  faultless : media.IsFaultless
  size_eq : media.image.size = size
  byte_eq : ∀ position, media.image.byteAt position = flat[position]?.getD 0

variable {media : Simulated} {flat : Flat size}

theorem getD_overwrite {offset : Nat} {bytes : List UInt8} (inside : offset + bytes.length ≤ size)
    (position : Nat) : (flat.overwrite offset bytes)[position]?.getD 0 =
      Contents.store (fun position => flat[position]?.getD 0) offset bytes position := by
  by_cases within : offset ≤ position ∧ position - offset < bytes.length
  · have held : position < size := by omega
    rw [Contents.store_inside within.1 within.2, Vector.getElem?_eq_getElem held]
    simp [overwrite, within]
  · rw [Contents.store_outside (by omega)]
    by_cases held : position < size
    · simp [overwrite, held, within]
    · rw [Vector.getElem?_eq_none (by omega), Vector.getElem?_eq_none (by omega)]

namespace Pictures

theorem load_eq (pictures : Pictures media flat) {offset length : Nat}
    (inside : offset + length ≤ size) :
    media.image.load offset length = Bytes.slice offset length flat.toList := by
  apply List.ext_getElem?
  intro index
  rw [Image.getElem?_load, Bytes.slice, pictures.byte_eq]
  by_cases within : index < length
  · have held : offset + index < size := by omega
    rw [if_pos within, List.getElem?_take_of_lt within, List.getElem?_drop]
    simp [held]
  · rw [if_neg within, List.getElem?_eq_none]
    simp only [List.length_take]
    omega

theorem byteAt_store (pictures : Pictures media flat) {offset : Nat} {bytes : List UInt8}
    (inside : offset + bytes.length ≤ size) (position : Nat) :
    (media.image.store offset bytes).byteAt position =
      (flat.overwrite offset bytes)[position]?.getD 0 := by
  have byteAt_eq : media.image.byteAt = fun position => flat[position]?.getD 0 :=
    funext pictures.byte_eq
  rw [getD_overwrite inside, Image.byteAt_store_eq, byteAt_eq]

theorem byteAt_flipBit (pictures : Pictures media flat) (offset : Fin size) (bit : UInt8)
    (position : Nat) : (media.image.flipBit offset bit).byteAt position =
      (flat.set offset (flat[offset] ^^^ (1 <<< (bit % 8))))[position]?.getD 0 := by
  have flipped : media.image.byteAt offset = flat[offset] := by
    rw [pictures.byte_eq, Vector.getElem?_eq_getElem offset.isLt]
    rfl
  rw [Image.flipBit, Image.byteAt_store_eq, flipped, Vector.getElem?_set]
  by_cases here : offset.val = position
  · subst here
    rw [Contents.store_inside (Nat.le_refl _) (by simp)]
    simp
  · rw [Contents.store_outside (by simp only [List.length_singleton]; omega), if_neg here]
    exact pictures.byte_eq position

/-- A call is answered as by the array and keeps the media a picture of it. -/
theorem serve_eq (pictures : Pictures media flat) (call : Call size) :
    (serveSimulated media call).1 = (flat.serve call).1 ∧
      Pictures (serveSimulated media call).2 (flat.serve call).2 := by
  have faultless := pictures.faultless
  have size_eq := pictures.size_eq
  cases call with
  | read offset length =>
      obtain ⟨statistics, ran⟩ := faultless.read_eq offset length
      rw [serveSimulated, ran, size_eq, serve]
      by_cases inside : offset + length ≤ size
      · rw [if_pos inside, if_pos inside, pictures.load_eq inside]
        exact ⟨rfl, faultless, size_eq, pictures.byte_eq⟩
      · rw [if_neg inside, if_neg inside]
        exact ⟨rfl, faultless, size_eq, pictures.byte_eq⟩
  | write offset bytes =>
      obtain ⟨statistics, ran⟩ := faultless.write_eq offset bytes
      rw [serveSimulated, ran, size_eq, serve]
      by_cases inside : offset + bytes.length ≤ size
      · have kept : (media.image.store offset bytes).size = size :=
          (Image.size_store _ _ _).trans size_eq
        rw [if_pos inside, if_pos inside]
        exact ⟨rfl, faultless, kept, pictures.byteAt_store inside⟩
      · rw [if_neg inside, if_neg inside]
        exact ⟨rfl, pictures⟩
  | flush => exact ⟨rfl, faultless, size_eq, pictures.byte_eq⟩
  | corrupt offset bit =>
      have kept : (media.image.flipBit offset bit).size = size :=
        (Image.size_store _ _ _).trans size_eq
      exact ⟨rfl, faultless, kept, pictures.byteAt_flipBit offset bit⟩
  | snapshot => exact ⟨rfl, ⟨rfl, rfl⟩, size_eq, pictures.byte_eq⟩
  | reboot => exact ⟨rfl, ⟨rfl, rfl⟩, size_eq, pictures.byte_eq⟩

theorem run_eq (pictures : Pictures media flat) (calls : List (Call size)) :
    (run serveSimulated media calls).1 = (run serve flat calls).1 ∧
      Pictures (run serveSimulated media calls).2 (run serve flat calls).2 := by
  induction calls generalizing media flat with
  | nil => exact ⟨rfl, pictures⟩
  | cons call rest induction =>
      obtain ⟨answer, next⟩ := pictures.serve_eq call
      obtain ⟨answers, last⟩ := induction next
      refine ⟨?_, last⟩
      rw [run, run]
      dsimp only
      rw [answer, answers]

end Pictures

theorem pictures_blank (size : Nat) : Pictures (.blank size) (blank size) where
  faultless := ⟨rfl, rfl⟩
  size_eq := rfl
  byte_eq position := by
    change (Image.blank size).byteAt position = _
    rw [Image.byteAt_blank, blank, Vector.getElem?_replicate]
    split <;> rfl

def withinWords (offset length size : Nat) : Bool :=
  match Block.Word.add offset length with
  | some stop => stop ≤ size
  | none => false

theorem withinWords_eq (word : size < Block.Word.limit) (offset length : Nat) :
    withinWords offset length size = decide (offset + length ≤ size) := by
  rw [withinWords, Block.Word.add, Block.Word.ofNumber]
  by_cases sum : offset + length < Block.Word.limit
  · rw [if_pos sum]
  · rw [if_neg sum]
    exact (decide_eq_false (by omega)).symm

example : withinWords 18446744073709551615 2 4096 = false := by decide

/-- **Flat media.** A fresh simulated media of any size answers any calls as a flat array of zeros
of that size does, and ends with the same bytes. Its test of the bounds agrees with the one that
is made in words, also where the end of the access is no word. Two media, each after calls of its
own, compare equal if and only if they have one size and the same bytes. -/
theorem simulated_flat (size : UInt64) (calls : List (Call size.toNat)) :
    (simulated calls).1 = (expected calls).1 ∧
    (simulated calls).2.image.size = size.toNat ∧
    (∀ position (inside : position < size.toNat),
      (simulated calls).2.image.byteAt position = (expected calls).2[position]) ∧
    (∀ offset length, (simulated calls).2.image.holds offset length =
      withinWords offset length size.toNat) ∧
    ∀ (other : UInt64) (more : List (Call other.toNat)),
      (simulated calls).2.contentsEqual (simulated more).2 = true ↔
        size = other ∧ ∀ position, position < size.toNat →
          (simulated calls).2.image.byteAt position = (simulated more).2.image.byteAt position := by
  have pictures {size : Nat} (calls : List (Call size)) :
      (simulated calls).1 = (expected calls).1 ∧ Pictures (simulated calls).2 (expected calls).2 :=
    (pictures_blank size).run_eq calls
  obtain ⟨answers, pictured⟩ := pictures calls
  refine ⟨answers, pictured.size_eq, ?_, ?_, ?_⟩
  · intro position inside
    rw [pictured.byte_eq, Vector.getElem?_eq_getElem inside]
    rfl
  · intro offset length
    rw [Image.holds, pictured.size_eq, withinWords_eq size.toNat_lt]
  · intro other more
    obtain ⟨-, picturedOther⟩ := pictures more
    rw [Simulated.contentsEqual, Image.contentsEqual_iff, pictured.size_eq, picturedOther.size_eq,
      UInt64.toNat_inj]
    refine and_congr_right fun same => ⟨fun equal position _ => equal position, ?_⟩
    intro equal position
    by_cases inside : position < size.toNat
    · exact equal position inside
    · subst same
      rw [pictured.byte_eq, picturedOther.byte_eq, Vector.getElem?_eq_none (by omega),
        Vector.getElem?_eq_none (by omega)]

end Flat

end Remap.Media
