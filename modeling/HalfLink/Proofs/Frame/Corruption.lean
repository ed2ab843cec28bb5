import HalfLink.Proofs.Frame.LostByte
import HalfLink.Proofs.Frame.Stream

/-! Frames that were altered on their way. As long as start byte and length arrive, and no other byte
has become a start byte, the receiver takes the altered bytes for one frame: it rejects them once, at the
kind or at the checksum, or they are the wire form of another frame. -/
namespace HalfLink

theorem parity_set {bytes : Bytes} {i : Nat} (hi : i < bytes.length) (byte : UInt8) :
    parity (bytes.set i byte) = byte ^^^ bytes[i] ^^^ parity bytes := by
  have hsplit : bytes = bytes.take i ++ bytes[i] :: bytes.drop (i + 1) := by
    rw [List.getElem_cons_drop, List.take_append_drop]
  have hparity : parity bytes = bytes[i] ^^^ parity (bytes.take i ++ bytes.drop (i + 1)) := by
    rw [← parity_middle, ← hsplit]
  rw [List.set_eq_take_append_cons_drop, if_pos hi, parity_middle, hparity, UInt8.xor_assoc,
    ← UInt8.xor_assoc bytes[i], UInt8.xor_self, UInt8.zero_xor]

namespace Frame

/-- What a frame may have become on its way. -/
structure Garbled (f : Frame) (bytes : Bytes) : Prop where
  length : bytes.length = f.encode.length
  /-- The start byte and the length have arrived. -/
  opening : bytes.take 2 = f.encode.take 2
  quiet : frameStart ∉ bytes.tail

/-- The parts of the bytes, which may have become anything behind the length. -/
theorem Garbled.parts {f : Frame} {bytes : Bytes} (h : f.Garbled bytes) :
    ∃ kindByte id seq payload check, payload.length = f.lengthByte.toNat ∧
      bytes = frameStart :: f.lengthByte :: kindByte :: id :: seq :: (payload ++ [check]) := by
  have hlength := h.length
  have hopening := h.opening
  rw [f.length_encode, ← f.toNat_lengthByte] at hlength
  match bytes with
  | start :: length :: kindByte :: id :: seq :: body =>
    obtain ⟨rfl, hrest⟩ := List.cons.inj hopening
    obtain rfl : length = f.lengthByte := (List.cons.inj hrest).1
    simp only [List.length_cons] at hlength
    rcases List.eq_nil_or_concat body with rfl | ⟨payload, check, rfl⟩
    · rw [List.length_nil] at hlength
      omega
    · rw [List.length_concat] at hlength
      exact ⟨kindByte, id, seq, payload, check, by omega, by rw [List.concat_eq_append]⟩
  | [] | [_] | [_, _] | [_, _, _] | [_, _, _, _] =>
    simp only [List.length_cons, List.length_nil] at hlength
    omega

/-- One altered byte shows in the exclusive or. -/
theorem parity_altered {f : Frame} {i : Nat} (hi : 1 ≤ i) {byte : UInt8}
    (h : f.encode.set i byte ≠ f.encode) : parity (f.encode.set i byte).tail ≠ 0 := by
  obtain ⟨j, rfl⟩ := Nat.exists_eq_add_of_le' hi
  have hencode : f.encode = frameStart :: f.encode.tail := rfl
  have hset : f.encode.set (j + 1) byte = frameStart :: f.encode.tail.set j byte := rfl
  rw [hset, List.tail_cons]
  intro hzero
  by_cases hj : j < f.encode.tail.length
  · rw [parity_set hj, f.parity_encode, UInt8.xor_zero, UInt8.xor_eq_zero_iff] at hzero
    rw [hset, hzero, List.set_getElem_self] at h
    exact h rfl
  · rw [hset, List.set_eq_of_length_le (Nat.not_lt.mp hj)] at h
    exact h rfl

end Frame

namespace Opening

variable {length kindByte id seq check : UInt8} {payload : Bytes} {kind : Kind}

/-- Behind a length and a kind, the bytes of a whole frame are what their exclusive or makes them. -/
theorem read_whole (hlength : length.toNat ≤ maxPayloadSize)
    (hkind : Kind.ofByte? kindByte = some kind) (hpayload : payload.length = length.toNat) :
    (parity (length :: kindByte :: id :: seq :: (payload ++ [check])) ≠ 0 →
      read (length :: kindByte :: id :: seq :: (payload ++ [check])) =
        .invalid .invalidChecksum) ∧
    (parity (length :: kindByte :: id :: seq :: (payload ++ [check])) = 0 →
      ∃ f, read (length :: kindByte :: id :: seq :: (payload ++ [check])) = .frame f []) := by
  have hbuffer : (Buffer.ofList? payload : Option Payload) = some ⟨payload, hpayload ▸ hlength⟩ :=
    dif_pos (hpayload ▸ hlength)
  have hchecksum : Frame.checksum length kind.toByte id seq payload =
      parity (length :: kindByte :: id :: seq :: payload) := by
    rw [Frame.checksum, foldl_xor, Kind.toByte_of_ofByte? hkind]
    simp only [parity_cons]
    ac_rfl
  have hparity : parity (length :: kindByte :: id :: seq :: (payload ++ [check])) = 0 ↔
      check = Frame.checksum length kind.toByte id seq payload := by
    have hconcat := parity_concat (length :: kindByte :: id :: seq :: payload) check
    rw [List.cons_append, List.cons_append, List.cons_append, List.cons_append] at hconcat
    rw [hconcat, UInt8.xor_eq_zero_iff, hchecksum]
  rw [read_of_header _ hlength hkind, readBody, ← hpayload, List.drop_left, List.take_left, hbuffer]
  constructor
  · intro hne
    exact if_neg (mt hparity.mpr hne)
  · intro hzero
    exact ⟨_, if_pos (hparity.mp hzero)⟩

theorem read_front_undecided (hlength : length.toNat ≤ maxPayloadSize)
    (hkind : Kind.ofByte? kindByte = some kind) (hpayload : payload.length = length.toNat) :
    read (length :: kindByte :: id :: seq :: payload) = .undecided := by
  rw [read_of_header _ hlength hkind]
  exact readBody_undecided_iff.mpr hpayload.le

end Opening

/-- What is undecided was undecided before its last bytes. -/
theorem Pending.of_append {front part : Bytes} (h : Pending (front ++ part)) : Pending front := by
  cases front with
  | nil => trivial
  | cons byte rest =>
    obtain ⟨hstart, hread⟩ := h
    refine ⟨hstart, ?_⟩
    by_contra hdecided
    rw [List.append_eq, Opening.read_append _ _ hdecided] at hread
    cases hrest : Opening.read rest <;> rw [hrest] at hread hdecided
    · cases hread
    · cases hread
    · exact hdecided rfl

namespace Parser

/-- As long as the bytes are undecided, each of them is taken without an answer. -/
theorem feedAll_pending {front part : Bytes} (h : Pending (front ++ part)) :
    (behind front).feedAll part =
      (List.replicate part.length (.ok none), behind (front ++ part)) := by
  induction part generalizing front with
  | nil => rw [List.append_nil, feedAll, List.length_nil, List.replicate_zero]
  | cons byte part ih =>
    rw [List.append_cons] at h ⊢
    have hbyte : Pending (front ++ [byte]) := h.of_append
    have hrejection : rejection front byte = none := by
      cases front with
      | nil => rfl
      | cons start rest =>
        have hread := hbyte.2
        rw [List.append_eq] at hread
        simp only [rejection, hread]
    have hverdict : verdict front byte = .ok none := by
      rw [verdict, hbyte.scan_eq, hrejection]
      rfl
    rw [feedAll, feed_behind hbyte.of_append, hverdict, hbyte.scan_eq]
    simp only [ih h, List.length_cons, List.replicate_succ]

/-- The last byte of a frame whose bytes show no other start byte has it rejected for good. -/
theorem feedAll_invalid {quiet : Bytes} {byte : UInt8} {e : FrameError}
    (hpending : Pending (frameStart :: quiet)) (hquiet : frameStart ∉ quiet ++ [byte])
    (hread : Opening.read (quiet ++ [byte]) = .invalid e) :
    idle.feedAll (frameStart :: quiet ++ [byte]) =
      (List.replicate (quiet.length + 1) (.ok none) ++ [.error e], idle) := by
  have hscan : scan (frameStart :: quiet ++ [byte]) = ([], []) := by
    rw [List.cons_append, scan_invalid hread, scan_of_quiet hquiet]
  have hfront : idle.feedAll (frameStart :: quiet) =
      (List.replicate (quiet.length + 1) (.ok none), behind (frameStart :: quiet)) :=
    @feedAll_pending [] _ hpending
  have hverdict : verdict (frameStart :: quiet) byte = .error e := by
    rw [verdict, hscan, rejection, hread]
    rfl
  rw [feedAll_append, hfront, feedAll, feed_behind hpending, hverdict, hscan]
  rfl

/-- A start byte has an idle receiver begin anew, whatever it holds. -/
theorem feedAll_start {p : Parser} (hidle : p.isIdle) (rest : Bytes) :
    p.feedAll (frameStart :: rest) = idle.feedAll (frameStart :: rest) := by
  obtain ⟨phase, raw⟩ := p
  cases phase with
  | hunting => rfl
  | _ => cases hidle

theorem feedAll_altered_kind {length kindByte : UInt8} {rest : Bytes}
    (hlength : length.toNat ≤ maxPayloadSize) (hkind : Kind.ofByte? kindByte = none)
    (hquiet : frameStart ∉ length :: kindByte :: rest) :
    idle.feedAll (frameStart :: length :: kindByte :: rest) =
      (List.replicate 2 (.ok none) ++ .error .invalidFrame :: List.replicate rest.length (.ok none),
        idle) := by
  have hopened : Opening.read [length] = .undecided := by
    simp [Opening.read, Nat.not_lt.mpr hlength]
  have hread : Opening.read [length, kindByte] = .invalid .invalidFrame := by
    simp [Opening.read, Nat.not_lt.mpr hlength, hkind]
  have hfront : frameStart ∉ [length] ++ [kindByte] := fun h =>
    hquiet (List.mem_append_left rest h)
  have hrest : frameStart ∉ rest := fun h => hquiet (List.mem_append_right [length, kindByte] h)
  have hrejected := feedAll_invalid ⟨rfl, hopened⟩ hfront hread
  rw [show frameStart :: length :: kindByte :: rest =
    (frameStart :: [length] ++ [kindByte]) ++ rest from rfl, feedAll_append, hrejected,
    feedAll_quiet hrest, List.append_assoc]
  rfl

/-- Altered bytes are rejected once and leave the receiver idle: at the kind if it is none, else at the
checksum, which every single alteration behind the length makes wrong. If both are right, the bytes
are the wire form of one frame, which is given at their end. -/
theorem feedAll_garbled {f : Frame} {bytes : Bytes} (h : f.Garbled bytes) {p : Parser}
    (hidle : p.isIdle) :
    (bytes[2]?.bind Kind.ofByte? = none →
      p.feedAll bytes =
        (List.replicate 2 (.ok none) ++
          .error .invalidFrame :: List.replicate (bytes.length - 3) (.ok none), idle)) ∧
    (bytes[2]?.bind Kind.ofByte? ≠ none → parity bytes.tail ≠ 0 →
      p.feedAll bytes =
        (List.replicate (bytes.length - 1) (.ok none) ++ [.error .invalidChecksum], idle)) ∧
    (bytes[2]?.bind Kind.ofByte? ≠ none → parity bytes.tail = 0 →
      ∃ g : Frame, (∀ g' : Frame, g'.encode = bytes ↔ g' = g) ∧
        p.feedAll bytes =
          (List.replicate (bytes.length - 1) (.ok none) ++ [.ok (some g)], idle)) ∧
    ∀ i byte, 2 ≤ i → bytes = f.encode.set i byte → bytes ≠ f.encode → parity bytes.tail ≠ 0 := by
  obtain ⟨kindByte, id, seq, payload, check, hpayload, rfl⟩ := h.parts
  have hlength : f.lengthByte.toNat ≤ maxPayloadSize := by
    rw [f.toNat_lengthByte]
    exact f.payload.length_le
  have hquiet := h.quiet
  have hkindByte : (frameStart :: f.lengthByte :: kindByte :: id :: seq ::
      (payload ++ [check]))[2]?.bind Kind.ofByte? = Kind.ofByte? kindByte := rfl
  rw [feedAll_start hidle, hkindByte, List.tail_cons]
  rw [List.tail_cons] at hquiet
  refine ⟨fun hnone => ?_, fun hsome hparity => ?_, fun hsome hparity => ?_,
    fun i byte hi hset hne => ?_⟩
  · exact feedAll_altered_kind hlength hnone hquiet
  · obtain ⟨kind, hkind⟩ := Option.ne_none_iff_exists'.mp hsome
    have hpending : Pending
        (frameStart :: f.lengthByte :: kindByte :: id :: seq :: payload) :=
      ⟨rfl, Opening.read_front_undecided hlength hkind hpayload⟩
    have hread := (Opening.read_whole hlength hkind hpayload).1 hparity
    have hrejected := feedAll_invalid hpending hquiet hread
    simpa using hrejected
  · obtain ⟨kind, hkind⟩ := Option.ne_none_iff_exists'.mp hsome
    obtain ⟨g, hread⟩ := (Opening.read_whole hlength hkind hpayload).2 hparity
    have hencode : ∀ g' : Frame, g'.encode =
        frameStart :: f.lengthByte :: kindByte :: id :: seq :: (payload ++ [check]) ↔ g' = g := by
      intro g'
      have hwire : Opening.read (f.lengthByte :: kindByte :: id :: seq :: (payload ++ [check])) =
          .frame g' [] ↔ _ := Opening.read_eq_frame_iff
      rw [hread, List.append_nil, Opening.frame.injEq, and_iff_left rfl] at hwire
      exact eq_comm.trans (hwire.symm.trans eq_comm)
    refine ⟨g, hencode, ?_⟩
    rw [← (hencode g).mpr rfl, feedAll_encode]
  · have hparity := Frame.parity_altered (Nat.le_of_succ_le hi) (hset ▸ hne)
    rwa [← hset, List.tail_cons] at hparity

private def noted : Frame := ⟨.request, ⟨0x21⟩, 1, Buffer.empty.pushAll [0xAA, 0x02, 0x03]⟩

/-- A start byte in the payload is lost on the way, or two alterations make up for each other; the
receiver has rejected a frame before. -/
theorem altered_payload_rejected :
    let p := (idle.feedAll [0xAA, 0xFF]).2
    let bytes := noted.encode.set 5 0xAB
    let bytes' := (noted.encode.set 5 0xAB).set 7 0x02
    (noted.Garbled bytes ∧ p.isIdle ∧
      p.feedAll bytes = (List.replicate 8 (.ok none) ++ [.error .invalidChecksum], idle)) ∧
    (noted.Garbled bytes' ∧ ∃ g : Frame, g.encode = bytes' ∧
      p.feedAll bytes' = (List.replicate 8 (.ok none) ++ [.ok (some g)], idle)) := by
  intro p bytes bytes'
  have hidle : p.isIdle := by decide +kernel
  have hgarbled : noted.Garbled bytes := ⟨by decide, by decide, by decide⟩
  have hgarbled' : noted.Garbled bytes' := ⟨by decide, by decide, by decide⟩
  obtain ⟨-, hrejected, -, haltered⟩ := feedAll_garbled hgarbled hidle
  obtain ⟨-, -, htaken, -⟩ := feedAll_garbled hgarbled' hidle
  obtain ⟨g, hencode, hfeed⟩ := htaken (by decide) (by decide)
  refine ⟨⟨hgarbled, hidle, ?_⟩, hgarbled', g, (hencode g).mpr rfl, hfeed⟩
  exact hrejected (by decide) (haltered 5 0xAB (by decide) rfl (by decide))

end Parser

end HalfLink
