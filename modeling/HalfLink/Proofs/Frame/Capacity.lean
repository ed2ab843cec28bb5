import HalfLink.Proofs.Frame.Receiver

/-! The room that a receiver needs. No byte that it puts away finds its buffer full, and the search of
rejected bytes ends, since each pass of it has fewer bytes to read than the pass before. -/
namespace HalfLink.Receiver

open HalfLink.Parser (fromStart opened behind afterPayload)

/-- The payload keeps to the length that was announced, which keeps to the largest. -/
structure Fits (r : Receiver) : Prop where
  expected_le : r.expectedLength.toNat ≤ maxPayloadSize
  buffer_le : r.buffer.size ≤ r.expectedLength.toNat
  lacking : r.stage = .payload → r.buffer.size < r.expectedLength.toNat

/-- What a receiver holds that has taken `taken`, and the room it has for the next byte. -/
structure Roomy (r : Receiver) (taken : Bytes) : Prop where
  fits : r.Fits
  raw_le : r.raw.size ≤ 255
  /-- Within a frame, the bytes kept are those that were taken behind its start byte. -/
  kept : r.stage ≠ .start → ∃ front, taken = front ++ frameStart :: r.raw.toList ∧
    r = (fresh.feedAll (frameStart :: r.raw.toList)).2
  push_raw : r.stage ≠ .start → ∀ byte, (r.raw.push byte).toList = r.raw.toList ++ [byte]
  push_buffer : r.stage = .payload →
    ∀ byte, (r.buffer.push byte).toList = r.buffer.toList ++ [byte]

theorem fits_afterPayload {h : Header} {received : Payload} (raw : Buffer maxFrameSize)
    (hlength : h.length.toNat ≤ maxPayloadSize) (hle : received.size ≤ h.length.toNat) :
    (Parser.receiver ⟨afterPayload h received, raw⟩).Fits := by
  unfold afterPayload
  split
  · exact ⟨hlength, hle, fun hstage => by cases hstage⟩
  · rename_i hne
    exact ⟨hlength, hle, fun _ => Nat.lt_of_le_of_ne hle hne⟩

theorem fits_opened {bytes : Bytes} (raw : Buffer maxFrameSize)
    (hu : Opening.read bytes = .undecided) : (Parser.receiver ⟨opened bytes, raw⟩).Fits := by
  match bytes with
  | [] => exact ⟨Nat.zero_le _, Nat.zero_le _, fun hstage => by cases hstage⟩
  | [_] | [_, _] | [_, _, _] =>
    exact ⟨Opening.payload_le_of_undecided hu, Nat.zero_le _, fun hstage => by cases hstage⟩
  | length :: kindByte :: id :: seq :: body =>
    have hlength := Opening.payload_le_of_undecided hu
    obtain ⟨kind, hkind⟩ := Opening.kind_of_undecided hu
    rw [Opening.read_of_header body hlength hkind] at hu
    have hbody := Opening.readBody_undecided_iff.mp hu
    have hlist : (Buffer.empty.pushAll body : Payload).toList = body :=
      Buffer.toList_pushAll _ _ (by simp only [Buffer.size_empty]; omega)
    refine fits_afterPayload raw hlength ?_
    rw [Buffer.size, hlist]
    exact hbody

theorem roomy_hunting {raw : Buffer maxFrameSize} (h : raw.size ≤ 255) (taken : Bytes) :
    (Parser.receiver ⟨.hunting, raw⟩).Roomy taken where
  fits := ⟨Nat.zero_le _, Nat.zero_le _, fun hstage => by cases hstage⟩
  raw_le := h
  kept hstage := absurd rfl hstage
  push_raw hstage := absurd rfl hstage
  push_buffer hstage := by cases hstage

/-- A receiver has the room it needs while the bytes of its frame are undecided. -/
theorem roomy_behind {u taken : Bytes} (hu : Pending u) (h : u <:+ taken) :
    (behind u).receiver.Roomy taken := by
  cases u with
  | nil => exact roomy_hunting (Nat.zero_le _) taken
  | cons start rest =>
    obtain ⟨rfl, hread⟩ := hu
    have hlength := Opening.length_le_of_undecided hread
    have hraw : (behind (frameStart :: rest)).receiver.raw.toList = rest := by
      rw [Parser.raw_receiver]
      exact Buffer.toList_pushAll _ _ (by
        simp only [Buffer.size_empty, maxFrameSize, frameOverhead, maxPayloadSize]
        omega)
    have hsize : (behind (frameStart :: rest)).receiver.raw.size = rest.length := by
      rw [Buffer.size, hraw]
    have hfits : (behind (frameStart :: rest)).receiver.Fits := fits_opened _ hread
    refine ⟨hfits, by omega, fun _ => ?_, fun _ byte => ?_, fun hstage byte => ?_⟩
    · obtain ⟨front, hfront⟩ := h
      rw [hraw, feedAll_fresh, scan_undecided hread]
      exact ⟨front, hfront.symm, rfl⟩
    · have hroom : 255 < maxFrameSize := by decide
      exact Buffer.toList_push _ _ (by omega)
    · exact Buffer.toList_push _ _ ((hfits.lacking hstage).trans_le hfits.expected_le)

/-- A second look has the room it needs at each byte, also where it ends at an invalid frame. -/
theorem roomy_replay {u : Bytes} (hu : Pending u) (found : Option Frame) (part : Bytes) :
    ((behind u).receiver.replay found part).receiver.Roomy (u ++ part) := by
  rw [Parser.receiver_replay, Parser.Replay.receiver]
  obtain ⟨frames, left, -, hscan, hend⟩ := Parser.replay_behind hu found part
  cases hunread : (Parser.replay (behind u) found part).unread with
  | none =>
    rw [hunread] at hend
    obtain ⟨hleft, hparser⟩ := hend
    rw [hleft.scan_eq] at hscan
    rw [hparser]
    exact roomy_behind hleft (undecided_of_scan hscan).2
  | some rest =>
    obtain ⟨-, kept, hparser, -, hle, -⟩ := Parser.replay_rejected hu found hunread
    rw [hparser]
    exact roomy_hunting hle _

/-- A byte that makes a frame invalid is kept with the bytes of that frame. -/
theorem roomy_rejected {u taken : Bytes} (hu : Pending u) (h : u <:+ taken) {byte : UInt8}
    {e : FrameError} {q : Receiver} (hstep : (behind u).receiver.step byte = (.error e, q)) :
    q.Roomy (taken ++ [byte]) ∧ ∃ front, taken ++ [byte] = front ++ frameStart :: q.raw.toList := by
  rw [Parser.receiver_step] at hstep
  obtain ⟨hanswer, rfl⟩ := Prod.mk.inj hstep
  -- A single byte that fails is a second look that ends at its first byte.
  have hreplay : Parser.replay (behind u) none [byte] =
      ⟨((behind u).step byte).2, none, some []⟩ := by
    rw [Parser.replay, ← Prod.eta ((behind u).step byte), hanswer]
  obtain ⟨front, kept, hparser, -, hle, hbytes⟩ :=
    Parser.replay_rejected hu none (congrArg Parser.Replay.unread hreplay)
  have hkept : ((behind u).step byte).2 = ⟨.hunting, kept⟩ := by rw [← hparser, hreplay]
  rw [List.append_nil] at hbytes
  rw [hkept]
  obtain ⟨before, rfl⟩ := h
  refine ⟨roomy_hunting hle _, before ++ front, ?_⟩
  rw [List.append_assoc, hbytes, List.append_assoc]
  rfl

/-! ### The passes of a search -/

/-- What is pending behind a pass, if the pass comes to an invalid frame. -/
def remainder (pending : Buffer maxFrameSize) : Option (Buffer maxFrameSize) :=
  (fresh.look none pending).unread.map (fresh.look none pending).receiver.raw.append

/-- What a second look finds does not bear on how it goes. -/
theorem replay_found (r : Receiver) (found found' : Option Frame) (bytes : Bytes) :
    (r.replay found bytes).receiver = (r.replay found' bytes).receiver ∧
      (r.replay found bytes).unread = (r.replay found' bytes).unread := by
  induction bytes generalizing r found found' with
  | nil => exact ⟨rfl, rfl⟩
  | cons byte rest ih =>
    rw [replay, replay]
    split
    · exact ih _ _ _
    · exact ⟨rfl, rfl⟩

/-- A pass goes the same way from any fields and whatever was found before. -/
theorem remainder_eq (r : Receiver) (found : Option Frame) (pending : Buffer maxFrameSize) :
    remainder pending =
      (r.look found pending).unread.map (r.look found pending).receiver.raw.append := by
  obtain ⟨hreceiver, hunread⟩ := replay_found fresh none found (fromStart pending)
  rw [remainder, look, look, reset_eq, reset_eq, hreceiver, hunread]

/-- A pass that comes to an invalid frame leaves the bytes behind that frame's start byte. -/
theorem suffix_of_look {r : Receiver} {found : Option Frame} {pending : Buffer maxFrameSize}
    {rest : Bytes} (h : (r.look found pending).unread = some rest) :
    0 < (r.look found pending).receiver.raw.size ∧
      frameStart :: ((r.look found pending).receiver.raw.toList ++ rest) <:+ pending.toList := by
  rw [look_eq, Parser.Replay.receiver] at h ⊢
  obtain ⟨front, kept, hparser, hpos, -, hbytes⟩ := Parser.replay_rejected (u := []) trivial found h
  have hparser' : (Parser.look found pending).parser = ⟨.hunting, kept⟩ := hparser
  have hread : fromStart pending <:+ pending.toList := List.dropWhile_suffix _
  rw [List.nil_append] at hbytes
  rw [hbytes] at hread
  rw [hparser']
  exact ⟨hpos, (List.suffix_append front _).trans hread⟩

/-- Nothing is dropped where the bytes behind an invalid frame are joined to those of the frame. -/
theorem toList_rejoined {r : Receiver} {found : Option Frame} {pending : Buffer maxFrameSize}
    {rest : Bytes} (h : (r.look found pending).unread = some rest) :
    ((r.look found pending).receiver.raw.append rest).toList =
      (r.look found pending).receiver.raw.toList ++ rest := by
  rw [look_eq, Parser.Replay.receiver, Parser.raw_receiver] at *
  exact Parser.toList_rejoined h

theorem remainder_some {pending next : Buffer maxFrameSize} (h : remainder pending = some next) :
    0 < next.size ∧ frameStart :: next.toList <:+ pending.toList := by
  obtain ⟨rest, hunread, rfl⟩ := Option.map_eq_some_iff.mp h
  obtain ⟨hpos, hsuffix⟩ := suffix_of_look hunread
  have hlist := toList_rejoined hunread
  rw [hlist]
  refine ⟨?_, hsuffix⟩
  rw [Buffer.size, hlist, List.length_append]
  exact Nat.add_pos_left hpos _

theorem size_remainder_lt {pending next : Buffer maxFrameSize}
    (h : remainder pending = some next) : next.size < pending.size := by
  have hlength := (remainder_some h).2.length_le
  rwa [List.length_cons] at hlength

/-- What is pending at each pass of a search, from the first pass on. -/
def passes (pending : Buffer maxFrameSize) : List (Buffer maxFrameSize) :=
  match _h : remainder pending with
  | none => [pending]
  | some next => pending :: passes next
termination_by pending.size
decreasing_by exact size_remainder_lt _h

theorem passes_of_none {pending : Buffer maxFrameSize} (h : remainder pending = none) :
    passes pending = [pending] := by
  rw [passes]
  split <;> simp_all

theorem passes_of_some {pending next : Buffer maxFrameSize} (h : remainder pending = some next) :
    passes pending = pending :: passes next := by
  rw [passes]
  split <;> simp_all

theorem length_passes_le (pending : Buffer maxFrameSize) :
    (passes pending).length ≤ max 1 pending.size := by
  induction pending using passes.induct with
  | case1 pending hnone => rw [passes_of_none hnone]; exact Nat.le_max_left _ _
  | case2 pending next hsome ih =>
    have hpos := (remainder_some hsome).1
    have hlt := size_remainder_lt hsome
    rw [passes_of_some hsome, List.length_cons]
    omega

theorem suffix_of_mem_passes {pending b : Buffer maxFrameSize} (h : b ∈ passes pending) :
    b.toList <:+ pending.toList := by
  induction pending using passes.induct with
  | case1 pending hnone =>
    rw [passes_of_none hnone] at h
    rw [List.mem_singleton.mp h]
  | case2 pending next hsome ih =>
    rw [passes_of_some hsome] at h
    rcases List.mem_cons.mp h with rfl | hnext
    · exact List.suffix_rfl
    · exact (ih hnext).trans ((List.suffix_cons _ _).trans (remainder_some hsome).2)

/-- Each pass has fewer bytes to read than all the passes before it. -/
theorem pairwise_passes (pending : Buffer maxFrameSize) :
    (passes pending).Pairwise fun before b => b.size < before.size := by
  induction pending using passes.induct with
  | case1 pending hnone => rw [passes_of_none hnone]; exact List.pairwise_singleton _ _
  | case2 pending next hsome ih =>
    rw [passes_of_some hsome, List.pairwise_cons]
    refine ⟨fun b hb => ?_, ih⟩
    have hle := (suffix_of_mem_passes hb).length_le
    exact hle.trans_lt (size_remainder_lt hsome)

/-- One more pass, behind what the passes before it have found. -/
def lookOn (state : Option Frame × Receiver) (pending : Buffer maxFrameSize) :
    Option Frame × Receiver :=
  ((state.2.look state.1 pending).found, (state.2.look state.1 pending).receiver)

/-- A search is its passes, whatever the fields it begins with. -/
theorem search_eq_foldl (r r' : Receiver) (pending : Buffer maxFrameSize) (found : Option Frame) :
    r.search pending found = (passes pending).foldl lookOn (found, r') := by
  induction pending using passes.induct generalizing r r' found with
  | case1 pending hnone =>
    have hunread : (r.look found pending).unread = none := by
      rwa [remainder_eq r found, Option.map_eq_none_iff] at hnone
    rw [search_of_none hunread, passes_of_none hnone]
    rfl
  | case2 pending next hsome ih =>
    have hnext := hsome
    rw [remainder_eq r found] at hnext
    obtain ⟨rest, hunread, rfl⟩ := Option.map_eq_some_iff.mp hnext
    rw [search_of_some hunread, passes_of_some hsome]
    exact ih _ _ _

/-- A search of the bytes kept that is made of passes, at most 255 of them and each over fewer bytes
than the one before, and that has the room it needs at every byte of a pass and between the passes. -/
structure Searched (r : Receiver) : Prop where
  result : r.rescan = (passes r.raw).foldl lookOn (none, r)
  fewer : (passes r.raw).Pairwise fun before b => b.size < before.size
  few : (passes r.raw).length ≤ 255
  suffix : ∀ b ∈ passes r.raw, b.toList <:+ r.raw.toList
  roomy : ∀ b ∈ passes r.raw, ∀ (q : Receiver) found part, part <+: fromStart b →
    (q.reset.replay found part).receiver.Roomy part
  joined : ∀ b ∈ passes r.raw, ∀ (q : Receiver) found rest, (q.look found b).unread = some rest →
    ((q.look found b).receiver.raw.append rest).toList = (q.look found b).receiver.raw.toList ++ rest

theorem searched {r : Receiver} (h : r.raw.size ≤ 255) : r.Searched where
  result := search_eq_foldl _ r r.raw none
  fewer := pairwise_passes r.raw
  few := (length_passes_le r.raw).trans (max_le (by decide) h)
  suffix b hb := suffix_of_mem_passes hb
  roomy _ _ _ found part _ := roomy_replay (u := []) trivial found part
  joined _ _ _ _ _ hrest := toList_rejoined hrest

/-- Whatever a receiver is fed and whenever it is reset, it has the room it needs at every byte, also
while it searches the bytes of a rejected frame; and whatever its fields hold then, the search drops no
byte and ends after at most 255 passes. -/
theorem Fed.roomy_and_searched {taken : Bytes} {r : Receiver} (h : Fed taken r) :
    r.Roomy taken ∧
    (∀ byte e q, r.step byte = (.error e, q) → q.Roomy (taken ++ [byte]) ∧
      ∃ front, taken ++ [byte] = front ++ frameStart :: q.raw.toList) ∧
    ∀ q : Receiver, q.raw.size ≤ 255 → q.Searched := by
  have hu := pending_scan taken
  obtain rfl := h.eq_behind
  exact ⟨roomy_behind hu (scan_suffix taken),
    fun byte e q hstep => roomy_rejected hu (scan_suffix taken) hstep, fun q => searched⟩

/-- A frame that fails at its checksum and whose bytes hold three more start bytes. -/
theorem nested_starts_searched :
    let taken : Bytes := [0xAA, 0x03, 0x01, 0xAA, 0x07, 0xAA, 0xAA, 0x09]
    let r := (fresh.feedAll taken).2
    let q := (r.step 0x00).2
    Fed taken r ∧ r.Roomy taken ∧
      r.step 0x00 = (.error .invalidChecksum, q) ∧ q.Roomy (taken ++ [0x00]) ∧
      q.raw.size ≤ 255 ∧ q.Searched ∧
      (passes q.raw).map (·.toList) = [[0x03, 0x01, 0xAA, 0x07, 0xAA, 0xAA, 0x09, 0x00],
        [0x07, 0xAA, 0xAA, 0x09, 0x00], [0xAA, 0x09, 0x00], [0x09, 0x00]] := by
  intro taken r q
  have hfed : Fed taken r := Fed.fresh.feedAll taken
  have hstep : r.step 0x00 = (.error .invalidChecksum, q) := by decide +kernel
  have hsize : q.raw.size ≤ 255 := by decide +kernel
  obtain ⟨hroomy, hrejected, hsearched⟩ := hfed.roomy_and_searched
  exact ⟨hfed, hroomy, hstep, (hrejected 0x00 _ q hstep).1, hsize, hsearched q hsize,
    by decide +kernel⟩

end HalfLink.Receiver
