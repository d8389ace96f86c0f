import Remap.Block.InfoBlock
import Remap.Proofs.Bytes.Sealing

/-!
# Info blocks read back

An info block of the current version is read back from the bytes that store it, with
every field as it was. The bytes between the fields and the checksum have no influence.
-/

namespace Remap.Block.InfoBlock

/-- The sealed info block with `rest` behind the fields; the last bytes give way to the
checksum. -/
def filled (info : InfoBlock) (rest : List UInt8) : List UInt8 :=
  Fletcher64.sealAt checksumOffset (info.header ++ rest)

theorem toBytes_eq_filled (info : InfoBlock) :
    info.toBytes = info.filled (List.replicate (infoBlockBytes - info.header.length) 0) :=
  rfl

def pieces (info : InfoBlock) : List (List UInt8) :=
  let half (value : UInt16) := LittleEndian.encode 2 value.toNat
  let word (value : UInt32) := LittleEndian.encode 4 value.toNat
  let long (value : UInt64) := LittleEndian.encode 8 value.toNat
  [signature, info.uuid.toList, info.parent.toList, word info.flags, half info.major,
    half info.minor, word info.externalSize, word info.external, word info.internalSize,
    word info.internal, word info.nfree, word info.infoSize, long info.nextOffset,
    long info.dataOffset, long info.mapOffset, long info.flogOffset, long info.infoOffset]

theorem header_eq_flatten (info : InfoBlock) : info.header = info.pieces.flatten := by
  simp [header, pieces]

theorem ofNat_number_half (offset : Nat) (value : UInt16) {bytes : List UInt8}
    (read : Bytes.slice offset 2 bytes = LittleEndian.encode 2 value.toNat) :
    UInt16.ofNat (Bytes.number offset 2 bytes) = value := by
  rw [Bytes.number, read, LittleEndian.decode_encode_of_lt 2 value.toNat_lt, UInt16.ofNat_toNat]

theorem ofNat_number_word (offset : Nat) (value : UInt32) {bytes : List UInt8}
    (read : Bytes.slice offset 4 bytes = LittleEndian.encode 4 value.toNat) :
    UInt32.ofNat (Bytes.number offset 4 bytes) = value := by
  rw [Bytes.number, read, LittleEndian.decode_encode_of_lt 4 value.toNat_lt, UInt32.ofNat_toNat]

theorem ofNat_number_long (offset : Nat) (value : UInt64) {bytes : List UInt8}
    (read : Bytes.slice offset 8 bytes = LittleEndian.encode 8 value.toNat) :
    UInt64.ofNat (Bytes.number offset 8 bytes) = value := by
  rw [Bytes.number, read, LittleEndian.decode_encode_of_lt 8 value.toNat_lt, UInt64.ofNat_toNat]

def Fills (rest : List UInt8) : Prop := 120 + rest.length = infoBlockBytes

theorem fills_zeros (info : InfoBlock) :
    Fills (List.replicate (infoBlockBytes - info.header.length) 0) := by
  rw [Fills, List.length_replicate, length_header]
  rfl

section Filled

variable {rest : List UInt8} (fills : Fills rest)

include fills

theorem length_unfilled (info : InfoBlock) :
    (info.header ++ rest).length = infoBlockBytes := by
  rw [List.length_append, length_header]
  exact fills

theorem length_filled (info : InfoBlock) : (info.filled rest).length = infoBlockBytes := by
  have whole := info.length_unfilled fills
  rw [filled, Fletcher64.length_sealAt, whole]
  rw [whole]
  decide

theorem slice_filled (info : InfoBlock) {offset width : Nat} (inside : offset + width ≤ 120) :
    Bytes.slice offset width (info.filled rest) = Bytes.slice offset width info.header := by
  rw [filled, Fletcher64.sealAt, Bytes.slice_overwrite_before, Bytes.slice_append_left]
  · rw [length_header]
    exact inside
  · rw [info.length_unfilled fills]
    decide
  · exact Nat.le_trans inside (by decide)

theorem slice_piece (info : InfoBlock) (index : Nat) {offset width : Nat} {piece : List UInt8}
    (found : info.pieces[index]? = some piece)
    (offset_eq : (info.pieces.take index).flatten.length = offset)
    (width_eq : piece.length = width) (before : offset + width ≤ 120) :
    Bytes.slice offset width (info.filled rest) = piece := by
  obtain ⟨inside, piece_eq⟩ := List.getElem?_eq_some_iff.mp found
  have read := Bytes.slice_flatten info.pieces index inside
  rw [piece_eq, offset_eq, width_eq] at read
  rw [slice_filled fills info before, header_eq_flatten, read]

theorem fields_filled (info : InfoBlock) : fields (info.filled rest) = info := by
  have uuid : Bytes.slice 16 16 (info.filled rest) = info.uuid.toList :=
    info.slice_piece fills 1 rfl (by simp [pieces, signature]) (by simp) (by simp)
  have parent : Bytes.slice 32 16 (info.filled rest) = info.parent.toList :=
    info.slice_piece fills 2 rfl (by simp [pieces, signature]) (by simp) (by simp)
  have flags := ofNat_number_word 48 info.flags
    (info.slice_piece fills 3 rfl (by simp [pieces, signature]) (by simp) (by simp))
  have major := ofNat_number_half 52 info.major
    (info.slice_piece fills 4 rfl (by simp [pieces, signature]) (by simp) (by simp))
  have minor := ofNat_number_half 54 info.minor
    (info.slice_piece fills 5 rfl (by simp [pieces, signature]) (by simp) (by simp))
  have externalSize := ofNat_number_word 56 info.externalSize
    (info.slice_piece fills 6 rfl (by simp [pieces, signature]) (by simp) (by simp))
  have external := ofNat_number_word 60 info.external
    (info.slice_piece fills 7 rfl (by simp [pieces, signature]) (by simp) (by simp))
  have internalSize := ofNat_number_word 64 info.internalSize
    (info.slice_piece fills 8 rfl (by simp [pieces, signature]) (by simp) (by simp))
  have internal := ofNat_number_word 68 info.internal
    (info.slice_piece fills 9 rfl (by simp [pieces, signature]) (by simp) (by simp))
  have nfree := ofNat_number_word 72 info.nfree
    (info.slice_piece fills 10 rfl (by simp [pieces, signature]) (by simp) (by simp))
  have infoSize := ofNat_number_word 76 info.infoSize
    (info.slice_piece fills 11 rfl (by simp [pieces, signature]) (by simp) (by simp))
  have nextOffset := ofNat_number_long 80 info.nextOffset
    (info.slice_piece fills 12 rfl (by simp [pieces, signature]) (by simp) (by simp))
  have dataOffset := ofNat_number_long 88 info.dataOffset
    (info.slice_piece fills 13 rfl (by simp [pieces, signature]) (by simp) (by simp))
  have mapOffset := ofNat_number_long 96 info.mapOffset
    (info.slice_piece fills 14 rfl (by simp [pieces, signature]) (by simp) (by simp))
  have flogOffset := ofNat_number_long 104 info.flogOffset
    (info.slice_piece fills 15 rfl (by simp [pieces, signature]) (by simp) (by simp))
  have infoOffset := ofNat_number_long 112 info.infoOffset
    (info.slice_piece fills 16 rfl (by simp [pieces, signature]) (by simp) (by simp))
  simp only [fields, uuid, parent, Uuid.ofList_toList, flags, major, minor, externalSize, external,
    internalSize, internal, nfree, infoSize, nextOffset, dataOffset, mapOffset, flogOffset,
    infoOffset]

theorem take_filled (info : InfoBlock) :
    (info.filled rest).take signature.length = signature := by
  have read : Bytes.slice 0 16 (info.filled rest) = signature :=
    info.slice_piece fills 0 rfl (by simp) (by simp [signature]) (by simp)
  exact read

/-- Reading depends on the version and the size in the fields, and on nothing behind them. -/
theorem ofBytes_filled (info : InfoBlock) :
    ofBytes (info.filled rest) =
      if info.major ≠ majorVersion ∨ info.minor ≠ minorVersion then
        .error (.version info.major info.minor)
      else if info.infoSize.toNat ≠ infoBlockBytes then
        .error (.mismatch (.infoSize info.infoSize))
      else .ok info := by
  have sealed : Fletcher64.stored checksumOffset (info.filled rest) =
      Fletcher64.checksumWithout checksumOffset (info.filled rest) := by
    apply Fletcher64.stored_sealAt (by decide)
    rw [info.length_unfilled fills]
    decide
  rw [ofBytes]
  simp only [info.fields_filled fills, info.take_filled fills, sealed, ne_eq, not_true_eq_false,
    if_false]

end Filled

theorem ofBytes_toBytes (info : InfoBlock) (major : info.major = majorVersion)
    (minor : info.minor = minorVersion) (size : info.infoSize.toNat = infoBlockBytes) :
    ofBytes info.toBytes = .ok info := by
  rw [toBytes_eq_filled, info.ofBytes_filled info.fills_zeros, major, minor, size]
  simp only [ne_eq, not_true_eq_false, or_self, if_false]

theorem ofBytes_ok {bytes : List UInt8} {info : InfoBlock} (decoded : ofBytes bytes = .ok info) :
    bytes.take signature.length = signature ∧
      Fletcher64.stored checksumOffset bytes = Fletcher64.checksumWithout checksumOffset bytes ∧
      info = fields bytes ∧ info.major = majorVersion ∧ info.minor = minorVersion ∧
      info.infoSize.toNat = infoBlockBytes := by
  unfold ofBytes at decoded
  dsimp only at decoded
  split at decoded
  next => cases decoded
  next signed =>
  split at decoded
  next => cases decoded
  next sealed =>
  split at decoded
  next => cases decoded
  next version =>
  split at decoded
  next => cases decoded
  next whole =>
    obtain rfl : fields bytes = info := Except.ok.inj decoded
    rw [not_or, Decidable.not_not, Decidable.not_not] at version
    exact ⟨Decidable.not_not.mp signed, Decidable.not_not.mp sealed, rfl, version.1, version.2,
      Decidable.not_not.mp whole⟩

theorem ofBytes_zeros : ofBytes (List.replicate infoBlockBytes 0) = .error .signature := by
  rw [ofBytes, if_pos]
  rw [List.take_replicate]
  decide

end Remap.Block.InfoBlock
