import Std.Data.HashMap
import Remap.Media.Basic

/-!
# Sparse images

An image is an array of bytes that are zero until written. Only pages that ever
held something else are kept, so a large image costs what was written to it.
Everything about an image is said through `Image.byteAt`; which pages are kept
is not visible through it.
-/

namespace Remap.Media

def pageBytes : Nat := 4096

abbrev Page := Vector UInt8 pageBytes

namespace Page

def blank : Page := Vector.replicate pageBytes 0

def startsBlank : (count : Nat) → List UInt8 → Bool
  | 0, _ | _, [] => true
  | count + 1, byte :: rest => byte == 0 && startsBlank count rest

theorem startsBlank_eq (count : Nat) (bytes : List UInt8) :
    startsBlank count bytes = (bytes.take count).all (· == 0) := by
  fun_induction startsBlank count bytes with
  | case1 => simp
  | case2 => simp
  | case3 count byte rest induction => simp [induction]

def overlay (page : Page) (position : Nat) : List UInt8 → Page
  | [] => page
  | byte :: rest => overlay (page.setIfInBounds position byte) (position + 1) rest

end Page

structure Image where
  size : Nat
  pages : Std.HashMap Nat Page

namespace Image

def blank (size : Nat) : Image := ⟨size, ∅⟩

def page (image : Image) (index : Nat) : Page :=
  image.pages.getD index Page.blank

def byteAt (image : Image) (offset : Nat) : UInt8 :=
  have inPage : offset % pageBytes < pageBytes := Nat.mod_lt offset (by decide)
  (image.page (offset / pageBytes))[offset % pageBytes]

def holds (image : Image) (offset length : Nat) : Bool :=
  offset + length ≤ image.size

def load (image : Image) (offset length : Nat) : List UInt8 :=
  (List.range' offset length).map image.byteAt

/-- Write the first `count` of `bytes`, which do not reach past the page of `offset`.
Zeros written to a page that is not kept change nothing. -/
def storeInPage (image : Image) (offset count : Nat) (bytes : List UInt8) : Image :=
  if offset / pageBytes ∉ image.pages ∧ Page.startsBlank count bytes then
    image
  else
    { image with
      pages := image.pages.alter (offset / pageBytes) fun kept =>
        some (Page.overlay (kept.getD Page.blank) (offset % pageBytes) (bytes.take count)) }

def store (image : Image) (offset : Nat) : (bytes : List UInt8) → Image
  | [] => image
  | first :: rest =>
      let room := pageBytes - offset % pageBytes
      let bytes := first :: rest
      (image.storeInPage offset room bytes).store (offset + room) (bytes.drop room)
termination_by bytes => bytes.length
decreasing_by
  have inPage : offset % pageBytes < pageBytes := Nat.mod_lt offset (by decide)
  simp only [List.length_drop, List.length_cons]
  omega

def flipBit (image : Image) (offset : Nat) (bit : UInt8) : Image :=
  image.store offset [image.byteAt offset ^^^ (1 <<< (bit % 8))]

/-- Whether two images have one size and the same bytes. A page kept by neither
is zero in both, so the kept pages decide. -/
def contentsEqual (left right : Image) : Bool :=
  left.size == right.size &&
    (left.pages.keys ++ right.pages.keys).all fun index =>
      left.page index == right.page index

end Image

end Remap.Media
