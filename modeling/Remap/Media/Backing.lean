import Remap.Media.Simulated

/-!
# Backing files

A store starts with a simulated media in memory. Creating its one backing file
puts a zero-filled file in the place of the media; from then on the file is the
media, it can be opened again with its content, and it cannot be created twice.
A file comes into being empty and then gets its length, so a length that no file
can have leaves an empty file behind. A file has no injected faults.
-/

namespace Remap.Media

inductive Store
  | memory (media : Simulated) (leftover : Bool)
  | file (image : Image)

namespace Store

def lengthLimit : Nat := 1 <<< 63

def create (store : Store) (size : Nat) : Except Error Unit × Store :=
  match store with
  | memory media false =>
      if size < lengthLimit then (.ok (), file (.blank size))
      else (.error (.store .invalidLength), memory media true)
  | memory _ true | file _ => (.error (.store .alreadyExists), store)

def openFile (store : Store) : Except Error Unit × Store :=
  match store with
  | memory _ false => (.error (.store .notFound), store)
  | memory _ true => (.ok (), file (.blank 0))
  | file _ => (.ok (), store)

def image : Store → Image
  | memory media _ => media.image
  | file image => image

def mapMemory (change : Simulated → Simulated) : Store → Store
  | memory media leftover => memory (change media) leftover
  | file image => file image

def read (store : Store) (offset length : Nat) :
    Except Error (List UInt8) × Store :=
  match store with
  | memory media leftover =>
      let (outcome, media) := media.read offset length
      (outcome, memory media leftover)
  | file image =>
      if image.holds offset length then (.ok (image.load offset length), store)
      else (.error (.outOfBounds offset length image.size), store)

def write (store : Store) (offset : Nat) (bytes : List UInt8) :
    Except Error Unit × Store :=
  match store with
  | memory media leftover =>
      let (outcome, media) := media.write offset bytes
      (outcome, memory media leftover)
  | file image =>
      if image.holds offset bytes.length then (.ok (), file (image.store offset bytes))
      else (.error (.outOfBounds offset bytes.length image.size), file image)

def flush (store : Store) : Except Error Unit × Store :=
  match store with
  | memory media leftover =>
      let (outcome, media) := media.flush
      (outcome, memory media leftover)
  | file _ => (.ok (), store)

instance : Media Store where
  size store := store.image.size
  read offset length := fun store => store.read offset length
  write offset bytes := fun store => store.write offset bytes
  flush := fun store => store.flush

end Store

end Remap.Media
