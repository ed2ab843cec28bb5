import HalfLink.Proofs.Frame.Recovery

/-! A frame behind one that lost a byte. The receiver finds it at its last byte, unless what is left of
the other opens a frame that reaches into it. -/
namespace HalfLink

open StateTransition

/-- The exclusive or of all the bytes. -/
def parity (bytes : Bytes) : UInt8 := bytes.foldl (· ^^^ ·) 0

theorem foldl_xor (byte : UInt8) (bytes : Bytes) :
    bytes.foldl (· ^^^ ·) byte = byte ^^^ parity bytes := by
  induction bytes generalizing byte with
  | nil => exact UInt8.xor_zero.symm
  | cons b rest ih =>
    rw [parity, List.foldl_cons, List.foldl_cons, ih, ih (0 ^^^ b), UInt8.zero_xor, UInt8.xor_assoc]

theorem parity_cons (byte : UInt8) (bytes : Bytes) :
    parity (byte :: bytes) = byte ^^^ parity bytes := by
  rw [parity, List.foldl_cons, foldl_xor, UInt8.zero_xor]

theorem parity_append (a b : Bytes) : parity (a ++ b) = parity a ^^^ parity b := by
  rw [parity, List.foldl_append, foldl_xor]
  rfl

theorem parity_middle (a b : Bytes) (byte : UInt8) :
    parity (a ++ byte :: b) = byte ^^^ parity (a ++ b) := by
  rw [parity_append, parity_cons, parity_append]
  ac_rfl

theorem parity_concat (bytes : Bytes) (byte : UInt8) :
    parity (bytes ++ [byte]) = byte ^^^ parity bytes := by
  rw [parity_middle, List.append_nil]

namespace Frame

theorem encode_eq_concat (f : Frame) : f.encode = f.encode.dropLast ++ [f.checksumByte] := by
  have hlast : f.encode = (frameStart :: f.lengthByte :: f.kind.toByte :: f.id.byte :: f.seq ::
      f.payload.toList) ++ [f.checksumByte] := rfl
  rw [hlast, List.dropLast_concat]

/-- The last byte of a frame makes up for the others behind the start byte. -/
theorem parity_encode (f : Frame) : parity f.encode.tail = 0 := by
  have htail : f.encode.tail = (f.lengthByte :: f.kind.toByte :: f.id.byte :: f.seq ::
      f.payload.toList) ++ [f.checksumByte] := rfl
  have hcheck : f.checksumByte =
      f.lengthByte ^^^ f.kind.toByte ^^^ f.id.byte ^^^ f.seq ^^^ parity f.payload.toList :=
    foldl_xor _ _
  rw [htail, parity_concat, UInt8.xor_eq_zero_iff, hcheck]
  simp only [parity_cons]
  ac_rfl

theorem parity_lost {f : Frame} {start lost : UInt8} {front back : Bytes}
    (h : f.encode = start :: front ++ lost :: back) : parity (front ++ back) = lost := by
  have hparity := f.parity_encode
  rw [h, List.cons_append, List.tail_cons, parity_middle, UInt8.xor_eq_zero_iff] at hparity
  exact hparity.symm

end Frame

namespace Opening

theorem length_of_undecided {length : UInt8} {bytes : Bytes}
    (h : read (length :: bytes) = .undecided) : bytes.length ≤ length.toNat + 3 := by
  match bytes with
  | [] | [_] | [_, _] => simp
  | kindByte :: id :: seq :: body =>
    obtain ⟨kind, hkind⟩ := kind_of_undecided h
    rw [read_of_header body (payload_le_of_undecided h) hkind] at h
    have hbody := readBody_undecided_iff.mp h
    simp only [List.length_cons]
    omega

theorem length_encode_of_read {length : UInt8} {bytes behind : Bytes} {g : Frame}
    (h : read (length :: bytes) = .frame g behind) : g.encode.length = length.toNat + 6 := by
  have hwire := (List.cons.inj (eq_encode_of_read h)).2
  have hlength : length = g.lengthByte := (List.cons.inj hwire).1
  rw [g.length_encode, hlength, g.toNat_lengthByte]

/-- A frame that lost a byte behind its length is a byte short, so the start byte of the next frame
stands where its last byte is expected. It makes up for the others only if the lost byte was a start
byte too. -/
theorem read_lost {f : Frame} {lost : UInt8} {header back : Bytes}
    (h : f.encode = frameStart :: f.lengthByte :: header ++ lost :: back) (hlost : lost ≠ frameStart)
    (more : Bytes) :
    ∃ e, read (f.lengthByte :: header ++ back ++ frameStart :: more) = .invalid e := by
  have hlength := congrArg List.length h
  rw [f.length_encode, ← f.toNat_lengthByte] at hlength
  simp only [List.length_append, List.length_cons] at hlength
  cases hread : read (f.lengthByte :: header ++ back ++ frameStart :: more) with
  | invalid e => exact ⟨e, rfl⟩
  | undecided =>
    have hshort : (header ++ back ++ frameStart :: more).length ≤ f.lengthByte.toNat + 3 :=
      length_of_undecided hread
    simp only [List.length_append, List.length_cons] at hshort
    omega
  | frame g behind =>
    have hsize : g.encode.length = f.lengthByte.toNat + 6 := length_encode_of_read hread
    have hsplit : frameStart :: (f.lengthByte :: header ++ back) ++ [frameStart] ++ more =
        g.encode ++ behind := by
      rw [← eq_encode_of_read hread]
      simp
    have hencode : frameStart :: (f.lengthByte :: header ++ back) ++ [frameStart] = g.encode := by
      refine (List.append_inj hsplit ?_).1
      rw [hsize]
      simp only [List.length_append, List.length_cons, List.length_nil]
      omega
    have hparity := g.parity_encode
    rw [← hencode, List.cons_append, List.tail_cons, parity_concat, UInt8.xor_eq_zero_iff,
      Frame.parity_lost h] at hparity
    exact absurd hparity.symm hlost

/-- Without the length, the kind stands where the length is expected, and the id where the kind is. -/
theorem read_without_length {f : Frame} {back : Bytes}
    (h : f.encode = frameStart :: f.lengthByte :: back) (hid : Kind.ofByte? f.id.byte = none)
    (more : Bytes) : read (back ++ more) = .invalid .invalidFrame := by
  have hback : back = f.kind.toByte :: f.id.byte :: f.seq ::
      (f.payload.toList ++ [f.checksumByte]) := (List.cons.inj (List.cons.inj h).2).2.symm
  have hkind : ¬ maxPayloadSize < f.kind.toByte.toNat := by cases f.kind <;> decide
  simp [hback, read, hkind, hid]

end Opening

theorem scan_start_append {quiet rest : Bytes} (hquiet : frameStart ∉ quiet)
    (hinvalid : ∃ e, Opening.read (quiet ++ rest) = .invalid e) :
    scan (frameStart :: quiet ++ rest) = scan rest := by
  obtain ⟨e, hread⟩ := hinvalid
  rw [List.cons_append, scan_invalid hread, scan_quiet_append hquiet]

/-- What is left of a plain frame is over where the next frame begins. -/
theorem scan_lost {f : Frame} {front back : Bytes} {lost : UInt8}
    (h : f.encode = front ++ lost :: back) (hplain : f.Plain)
    (hid : front.length = 1 → Kind.ofByte? f.id.byte = none) (more : Bytes) :
    scan (front ++ back ++ frameStart :: more) = scan (frameStart :: more) := by
  have hquiet : frameStart ∉ f.encode.tail := hplain
  rw [h] at hquiet
  match front with
  | [] => exact scan_quiet_append hquiet _
  | [start] =>
    obtain rfl : start = frameStart := (List.cons.inj h).1.symm
    obtain rfl : lost = f.lengthByte := (List.cons.inj (List.cons.inj h).2).1.symm
    exact scan_start_append (List.not_mem_of_not_mem_cons hquiet)
      ⟨_, Opening.read_without_length h (hid rfl) _⟩
  | start :: length :: header =>
    obtain rfl : start = frameStart := (List.cons.inj h).1.symm
    obtain rfl : length = f.lengthByte := (List.cons.inj (List.cons.inj h).2).1.symm
    have hlost : lost ≠ frameStart := fun heq => hquiet (by simp [heq])
    have hrest : frameStart ∉ f.lengthByte :: header ++ back := by
      intro hmem
      apply hquiet
      rcases List.mem_append.mp hmem with hfront | hback
      · exact List.mem_append_left _ hfront
      · exact List.mem_append_right _ (List.mem_cons_of_mem _ hback)
    exact scan_start_append hrest (Opening.read_lost h hlost more)

namespace Parser

/-- Behind a frame that lost a byte, the next frame is given at its last byte, unless a frame that
opens in what is left of the first reaches into the next one, or the last byte completes another frame
as well. A plain first frame opens none, whichever byte it lost, unless that byte is its length and its
id reads as a kind. -/
theorem next_found_or_overrun {f : Frame} {i : Nat} (hi : i < f.encode.length) (g : Frame) :
    let left := f.encode.eraseIdx i
    let p := (idle.feedAll (left ++ g.encode.dropLast)).2
    (¬ Overrun (left ++ g.encode) g.encode →
      (settled (left ++ g.encode.dropLast) g.checksumByte).length ≤ 1 →
        p.feed g.checksumByte = (.ok (some g), idle)) ∧
    (Reaches advance (left ++ g.encode) g.encode ↔ ¬ Overrun (left ++ g.encode) g.encode) ∧
    (f.Plain → (i = 1 → Kind.ofByte? f.id.byte = none) →
      p.feed g.checksumByte = (.ok (some g), idle)) := by
  intro left p
  have hwhole := g.encode_eq_concat.symm
  have hreach := reaches_iff_not_overrun (List.suffix_append left g.encode)
  refine ⟨fun hover halone => feed_of_reaches hwhole (hreach.mpr hover) halone, hreach,
    fun hplain hid => ?_⟩
  have hsplit : f.encode = f.encode.take i ++ f.encode[i] :: f.encode.drop (i + 1) := by
    rw [List.getElem_cons_drop, List.take_append_drop]
  have hlength : (f.encode.take i).length = i := List.length_take_of_le hi.le
  have hleft : left = f.encode.take i ++ f.encode.drop (i + 1) :=
    List.eraseIdx_eq_take_drop_succ _ _
  have hstart : g.encode.dropLast = frameStart :: g.encode.dropLast.tail := rfl
  have hpending : Pending g.encode.dropLast := pending_of_encode hwhole (List.cons_ne_nil _ _)
  have hscan : scan (left ++ g.encode.dropLast) = ([], g.encode.dropLast) := by
    rw [hleft, hstart, scan_lost hsplit hplain (by rwa [hlength]), ← hstart, hpending.scan_eq]
  have hp : p = behind g.encode.dropLast := (feedAll_idle _).trans (by rw [hscan])
  rw [hp, feed_encode hwhole, if_pos rfl]

private def asking (seq : UInt8) (payload : Bytes) : Frame :=
  ⟨.request, ⟨0x21⟩, seq, Buffer.empty.pushAll payload⟩

/-- A byte of the payload is lost, or the start byte of a frame that has another in its payload. -/
theorem next_found_behind_lost :
    let f := asking 1 [1, 2, 3]
    let f' := asking 1 [0xAA, 0xFF]
    let g := asking 2 [4, 5]
    (6 < f.encode.length ∧ f.Plain ∧
      (idle.feedAll (f.encode.eraseIdx 6 ++ g.encode.dropLast)).2.feed g.checksumByte =
        (.ok (some g), idle)) ∧
    (0 < f'.encode.length ∧ ¬ Overrun (f'.encode.eraseIdx 0 ++ g.encode) g.encode ∧
      (settled (f'.encode.eraseIdx 0 ++ g.encode.dropLast) g.checksumByte).length ≤ 1 ∧
      (idle.feedAll (f'.encode.eraseIdx 0 ++ g.encode.dropLast)).2.feed g.checksumByte =
        (.ok (some g), idle)) := by
  intro f f' g
  have hplain : f.Plain := by decide +kernel
  have hdecided : (scan (f'.encode.eraseIdx 0)).2 = [] := by decide +kernel
  have hreach := reaches_undecided (f'.encode.eraseIdx 0) g.encode
  rw [hdecided, List.nil_append] at hreach
  have hover : ¬ Overrun (f'.encode.eraseIdx 0 ++ g.encode) g.encode := fun h =>
    not_reaches_of_overrun h hreach
  have halone : (settled (f'.encode.eraseIdx 0 ++ g.encode.dropLast) g.checksumByte).length ≤ 1 := by
    decide +kernel
  exact ⟨⟨by decide, hplain, (next_found_or_overrun (by decide) g).2.2 hplain (by decide)⟩,
    ⟨by decide, hover, halone, (next_found_or_overrun (by decide) g).1 hover halone⟩⟩

/-- The payload opens a frame of ten bytes when the start byte in front of it is lost. -/
def decoy : Frame := ⟨.request, ⟨0x10⟩, 1, Buffer.empty.pushAll [0xAA, 0x0A, 0x01]⟩

/-- When the payload is lost, the start byte of the next frame makes up for it. -/
def lure : Frame := ⟨.request, ⟨0x10⟩, 1, Buffer.empty.pushAll [0xAA]⟩

def missed : Frame := ⟨.request, ⟨0x10⟩, 2, .empty⟩

/-- One lost byte can hide the next frame beyond its last byte, and can cost it as well. -/
theorem next_missed :
    (0 < decoy.encode.length ∧
      missed ∉ delivered (decoy.encode.eraseIdx 0 ++ missed.encode)) ∧
    (5 < lure.encode.length ∧
      missed ∉ delivered (lure.encode.eraseIdx 5 ++ missed.encode)) := by
  decide +kernel

end Parser

end HalfLink
