import Remap.Proofs.Media.Atomic

/-!
# Replicas

A replica of a media has its size and its bytes and none of its faults. What a step does on it
is what it does on the media when no access fails.
-/

namespace Remap.Media

structure Replica where
  size : Nat
  contents : Contents

namespace Replica

def serve {α : Type} (replica : Replica) (offset length : Nat) (value : α) (after : Replica) :
    Except Error α × Replica :=
  if offset + length ≤ replica.size then (.ok value, after)
  else (.error (.outOfBounds offset length replica.size), replica)

instance : Media Replica where
  size replica := replica.size
  read offset length := fun replica =>
    replica.serve offset length (replica.contents.load offset length) replica
  write offset bytes := fun replica =>
    replica.serve offset bytes.length ()
      { replica with contents := replica.contents.store offset bytes }
  flush := fun replica => (.ok (), replica)

instance : Atomic Replica where
  contents replica := replica.contents
  Faultless _ := True
  read_whole {replica after offset length outcome} result := by
    change replica.serve offset length _ _ = (outcome, after) at result
    unfold serve at result
    split at result
    next inside =>
      cases result
      exact ⟨rfl, rfl, id, inside, rfl⟩
    next outside =>
      cases result
      exact ⟨rfl, rfl, id, fun holds => outside holds.2⟩
  write_whole {replica after offset bytes outcome} result := by
    change replica.serve offset bytes.length _ _ = (outcome, after) at result
    unfold serve at result
    split at result
    next inside =>
      cases result
      exact ⟨rfl, id, inside, rfl⟩
    next outside =>
      cases result
      exact ⟨rfl, id, rfl, fun holds => outside holds.2⟩
  flush_whole {replica after outcome} result := by
    change (Except.ok (), replica) = (outcome, after) at result
    cases result
    exact ⟨rfl, rfl, id, trivial⟩

variable {μ : Type} [Media μ] [Atomic μ]

def of (media : μ) : Replica := ⟨Media.size media, Atomic.contents media⟩

theorem of_shows {media : μ} {size : Nat} {sound : Prop} {contents : Contents}
    (shown : Shows media size sound contents) : Shows (of media) size True contents :=
  ⟨shown.size_eq, shown.contents_eq, fun _ => trivial⟩

end Replica

end Remap.Media
