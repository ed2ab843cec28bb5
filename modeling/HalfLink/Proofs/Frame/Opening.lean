import HalfLink.Frame.Scan
import Mathlib.Data.List.Infix

/-! What the bytes behind a start byte amount to. Bytes that amount to something do so whatever
follows them, and they amount to a frame exactly when they start with the frame's wire form. -/
namespace HalfLink

theorem Kind.ofByte?_toByte (kind : Kind) : Kind.ofByte? kind.toByte = some kind := by
  cases kind <;> rfl

theorem Kind.toByte_of_ofByte? {byte : UInt8} {kind : Kind} (h : Kind.ofByte? byte = some kind) :
    kind.toByte = byte := by
  unfold Kind.ofByte? at h
  split at h
  · rename_i hb
    obtain rfl : Kind.request = kind := Option.some.inj h
    exact hb.symm
  · split at h
    · rename_i hb
      obtain rfl : Kind.response = kind := Option.some.inj h
      exact hb.symm
    · cases h

namespace Opening

def extend (more : Bytes) : Opening → Opening
  | .frame f rest => .frame f (rest ++ more)
  | o => o

variable {length : UInt8} {kind : Kind} {id seq : UInt8}

theorem readBody_undecided_iff {body : Bytes} :
    readBody length kind id seq body = .undecided ↔ body.length ≤ length.toNat := by
  unfold readBody
  rw [← List.drop_eq_nil_iff]
  split
  · rename_i hdrop
    simp [hdrop]
  · rename_i hdrop
    rw [hdrop]
    split
    · simp
    · split <;> simp

theorem readBody_append {body : Bytes} (h : length.toNat < body.length) (more : Bytes) :
    readBody length kind id seq (body ++ more) =
      (readBody length kind id seq body).extend more := by
  have htake : (body ++ more).take length.toNat = body.take length.toNat :=
    List.take_append_of_le_length h.le
  have hdrop : (body ++ more).drop length.toNat = body.drop length.toNat ++ more :=
    List.drop_append_of_le_length h.le
  obtain ⟨check, rest, hcheck⟩ := List.exists_cons_of_length_pos
    (show 0 < (body.drop length.toNat).length by rw [List.length_drop]; omega)
  unfold readBody
  rw [htake, hdrop, hcheck]
  dsimp only [List.cons_append]
  split
  · rfl
  · split <;> rfl

theorem read_append (bytes more : Bytes) (h : read bytes ≠ .undecided) :
    read (bytes ++ more) = (read bytes).extend more := by
  cases bytes with
  | nil => exact absurd rfl h
  | cons length bytes =>
    simp only [List.cons_append, read] at h ⊢
    split at h
    · rename_i hlength
      simp only [hlength, if_true, extend]
    rename_i hlength
    simp only [hlength, if_false]
    cases bytes with
    | nil => exact absurd rfl h
    | cons kindByte bytes =>
      dsimp only [List.cons_append] at h ⊢
      cases hkind : Kind.ofByte? kindByte with
      | none => rfl
      | some kind =>
        simp only [hkind] at h ⊢
        rcases bytes with _ | ⟨id, _ | ⟨seq, body⟩⟩
        · exact absurd rfl h
        · exact absurd rfl h
        · exact readBody_append (Nat.lt_of_not_le (mt readBody_undecided_iff.mpr h)) more

theorem payload_le_of_undecided {length : UInt8} {bytes : Bytes}
    (h : read (length :: bytes) = .undecided) : length.toNat ≤ maxPayloadSize := by
  by_contra hlength
  simp [read, Nat.lt_of_not_le hlength] at h

theorem kind_of_undecided {length kindByte : UInt8} {bytes : Bytes}
    (h : read (length :: kindByte :: bytes) = .undecided) :
    ∃ kind, Kind.ofByte? kindByte = some kind := by
  have hlength := payload_le_of_undecided h
  cases hkind : Kind.ofByte? kindByte with
  | none => simp [read, Nat.not_lt.mpr hlength, hkind] at h
  | some kind => exact ⟨kind, rfl⟩

/-- Behind a whole header that is undecided, the frame is what its body makes it. -/
theorem read_of_header {length kindByte id seq : UInt8} {kind : Kind} (body : Bytes)
    (hlength : length.toNat ≤ maxPayloadSize) (hkind : Kind.ofByte? kindByte = some kind) :
    read (length :: kindByte :: id :: seq :: body) = readBody length kind id seq body := by
  simp [read, Nat.not_lt.mpr hlength, hkind]

/-- The largest frame is decided at its last byte. -/
theorem length_le_of_undecided {bytes : Bytes} (h : read bytes = .undecided) :
    bytes.length ≤ 254 := by
  match bytes with
  | [] | [_] | [_, _] | [_, _, _] => simp
  | length :: kindByte :: id :: seq :: body =>
    have hlength : length.toNat ≤ 250 := payload_le_of_undecided h
    obtain ⟨kind, hkind⟩ := kind_of_undecided h
    rw [read_of_header body hlength hkind] at h
    have hbody := readBody_undecided_iff.mp h
    simp only [List.length_cons]
    omega

end Opening

namespace Frame

theorem length_encode (f : Frame) : f.encode.length = f.payload.size + 6 := by
  simp [encode, Buffer.size]

theorem toNat_lengthByte (f : Frame) : f.lengthByte.toNat = f.payload.size := by
  have hsize : f.payload.size ≤ 250 := f.payload.length_le
  rw [lengthByte, UInt8.toNat_ofNat']
  omega

theorem encode_ne_nil (f : Frame) : f.encode ≠ [] := by simp [encode]

end Frame

namespace Opening

theorem read_encode {f : Frame} {bytes rest : Bytes}
    (h : frameStart :: bytes = f.encode ++ rest) : read bytes = .frame f rest := by
  have hlength := f.toNat_lengthByte
  have hbytes : bytes = f.lengthByte :: f.kind.toByte :: f.id.byte :: f.seq ::
      (f.payload.toList ++ f.checksumByte :: rest) := by simpa [Frame.encode] using h
  have hdrop : (f.payload.toList ++ f.checksumByte :: rest).drop f.lengthByte.toNat =
      f.checksumByte :: rest := by rw [hlength, Buffer.size, List.drop_left]
  have htake : (f.payload.toList ++ f.checksumByte :: rest).take f.lengthByte.toNat =
      f.payload.toList := by rw [hlength, Buffer.size, List.take_left]
  have hbuffer : (Buffer.ofList? f.payload.toList : Option Payload) = some f.payload :=
    dif_pos f.payload.length_le
  rw [hbytes]
  simp only [read, Kind.ofByte?_toByte, readBody, hdrop, htake, hbuffer]
  rw [if_neg (by rw [hlength]; exact Nat.not_lt.mpr f.payload.length_le)]
  exact if_pos rfl

private theorem readBody_frame {length : UInt8} {kind : Kind} {id seq : UInt8} {body rest : Bytes}
    {f : Frame} (h : readBody length kind id seq body = .frame f rest) :
    body = f.payload.toList ++ f.checksumByte :: rest ∧ f.lengthByte = length ∧ f.kind = kind ∧
      f.id.byte = id ∧ f.seq = seq := by
  unfold readBody at h
  split at h
  · cases h
  rename_i check tail hdrop
  split at h
  · cases h
  rename_i payload hpayload
  split at h
  case isFalse => cases h
  rename_i hcheck
  injection h with hf hrest
  subst hf hrest
  unfold Buffer.ofList? at hpayload
  split at hpayload
  case isFalse => cases hpayload
  have htake : body.take length.toNat = payload.toList :=
    congrArg Buffer.toList (Option.some.inj hpayload)
  have hbody : length.toNat < body.length := by
    have := congrArg List.length hdrop
    simp only [List.length_drop, List.length_cons] at this
    omega
  have hlength : UInt8.ofNat payload.size = length := by
    rw [Buffer.size, ← htake, List.length_take, Nat.min_eq_left hbody.le, UInt8.ofNat_toNat]
  refine ⟨?_, hlength, rfl, rfl, rfl⟩
  rw [Frame.checksumByte, Frame.lengthByte, hlength, ← hcheck, ← hdrop, ← htake,
    List.take_append_drop]

theorem eq_encode_of_read {f : Frame} {bytes rest : Bytes} (h : read bytes = .frame f rest) :
    frameStart :: bytes = f.encode ++ rest := by
  cases bytes with
  | nil => cases h
  | cons length bytes =>
    simp only [read] at h
    split at h
    · cases h
    cases bytes with
    | nil => cases h
    | cons kindByte bytes =>
      dsimp only at h
      split at h
      · cases h
      rename_i kind hkind
      rcases bytes with _ | ⟨id, _ | ⟨seq, body⟩⟩
      · cases h
      · cases h
      · obtain ⟨hbody, rfl, rfl, rfl, rfl⟩ := readBody_frame h
        simp [Frame.encode, hbody, Kind.toByte_of_ofByte? hkind]

/-- The bytes behind a start byte open a frame exactly when they hold its wire form. -/
theorem read_eq_frame_iff {f : Frame} {bytes rest : Bytes} :
    read bytes = .frame f rest ↔ frameStart :: bytes = f.encode ++ rest :=
  ⟨eq_encode_of_read, read_encode⟩

/-- A frame is decided at its last byte and not later. -/
theorem rest_eq_nil {f : Frame} {bytes rest : Bytes} {byte : UInt8}
    (hu : read bytes = .undecided) (h : read (bytes ++ [byte]) = .frame f rest) : rest = [] := by
  rcases List.eq_nil_or_concat rest with hnil | ⟨front, last, rfl⟩
  · exact hnil
  have hwire := read_eq_frame_iff.mp h
  rw [← List.cons_append, List.concat_eq_append, ← List.append_assoc] at hwire
  have hfront := (List.append_inj' hwire rfl).1
  rw [read_encode hfront] at hu
  cases hu

end Opening

end HalfLink
