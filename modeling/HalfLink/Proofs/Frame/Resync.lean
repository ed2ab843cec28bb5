import HalfLink.Frame.Parser
import HalfLink.Proofs.Frame.Scan

/-! The receiver against the plain reading. After any bytes the receiver is the one that has taken
only what the reading of these bytes leaves undecided, also where it had to search rejected bytes
again. -/
namespace HalfLink.Parser

/-- What the next byte means behind a start byte and the given bytes, while these are undecided. -/
def opened : Bytes → Phase
  | [] => .length
  | [length] => .kind length
  | [length, kind] => .id length ((Kind.ofByte? kind).getD .request)
  | [length, kind, id] => .seq length ((Kind.ofByte? kind).getD .request) id
  | length :: kind :: id :: seq :: body =>
    afterPayload ⟨length, (Kind.ofByte? kind).getD .request, id, seq⟩ (Buffer.empty.pushAll body)

/-- The parser whose frame in progress is made of the given bytes. -/
def behind : Bytes → Parser
  | [] => idle
  | _ :: rest => ⟨opened rest, Buffer.empty.pushAll rest⟩

theorem afterHeader_eq (h : Header) : afterHeader h = afterPayload h .empty := by
  unfold afterHeader afterPayload
  by_cases hzero : h.length = 0
  · rw [if_pos hzero, if_pos (by rw [hzero]; rfl)]
  · rw [if_neg hzero, if_neg fun hsize => hzero (UInt8.toNat_inj.mp hsize.symm)]

private theorem step_body {length : UInt8} {kind : Kind} {id seq : UInt8} {body : Bytes}
    {raw : Buffer maxFrameSize} (hlength : length.toNat ≤ maxPayloadSize)
    (hbody : body.length ≤ length.toNat) (byte : UInt8) :
    step ⟨afterPayload ⟨length, kind, id, seq⟩ (Buffer.empty.pushAll body), raw⟩ byte =
      match Opening.readBody length kind id seq (body ++ [byte]) with
      | .undecided => await (raw.push byte)
          (afterPayload ⟨length, kind, id, seq⟩ (Buffer.empty.pushAll (body ++ [byte])))
      | .frame f _ => (.ok (some f), idle)
      | .invalid e => reject (raw.push byte) e := by
  have hlist : (Buffer.empty.pushAll body : Payload).toList = body :=
    Buffer.toList_pushAll _ _ (by simp only [Buffer.size_empty]; omega)
  unfold afterPayload
  rw [Buffer.size, hlist]
  by_cases hfull : body.length = length.toNat
  · have hbuffer : (Buffer.ofList? body : Option Payload) = some (Buffer.empty.pushAll body) := by
      rw [Buffer.ofList?, dif_pos (by omega)]
      exact congrArg some (Buffer.ext hlist.symm)
    rw [if_pos hfull]
    simp only [step, Opening.readBody, ← hfull, List.drop_left, List.take_left, hbuffer, hlist]
    split
    · rfl
    · rfl
  · have hmore : Opening.readBody length kind id seq (body ++ [byte]) = .undecided :=
      Opening.readBody_undecided_iff.mpr (by simp only [List.length_append, List.length_singleton]; omega)
    rw [if_neg hfull, hmore, Buffer.pushAll_concat]
    rfl

private theorem step_opened {bytes : Bytes} (hu : Opening.read bytes = .undecided) (byte : UInt8) :
    (behind (frameStart :: bytes)).step byte =
      match Opening.read (bytes ++ [byte]) with
      | .undecided => (.ok none, behind (frameStart :: (bytes ++ [byte])))
      | .frame f _ => (.ok (some f), idle)
      | .invalid e => reject (Buffer.empty.pushAll (bytes ++ [byte])) e := by
  match bytes with
  | [] =>
    by_cases hlength : maxPayloadSize < byte.toNat <;>
      simp [behind, opened, step, Opening.read, hlength, await, Buffer.pushAll]
  | [length] =>
    have hlength := Nat.not_lt.mpr (Opening.payload_le_of_undecided hu)
    cases hkind : Kind.ofByte? byte <;>
      simp [behind, opened, step, Opening.read, hlength, hkind, await, Buffer.pushAll]
  | [length, kindByte] =>
    have hlength := Nat.not_lt.mpr (Opening.payload_le_of_undecided hu)
    obtain ⟨kind, hkind⟩ := Opening.kind_of_undecided hu
    simp [behind, opened, step, Opening.read, hlength, hkind, await, Buffer.pushAll]
  | [length, kindByte, id] =>
    have hlength := Opening.payload_le_of_undecided hu
    obtain ⟨kind, hkind⟩ := Opening.kind_of_undecided hu
    have hnil : Opening.readBody length kind id byte [] = .undecided :=
      Opening.readBody_undecided_iff.mpr (Nat.zero_le _)
    simp [behind, opened, step, Opening.read_of_header _ hlength hkind, hnil, hkind, await,
      Buffer.pushAll, afterHeader_eq]
  | length :: kindByte :: id :: seq :: body =>
    have hlength := Opening.payload_le_of_undecided hu
    obtain ⟨kind, hkind⟩ := Opening.kind_of_undecided hu
    rw [Opening.read_of_header body hlength hkind] at hu
    have hbody := Opening.readBody_undecided_iff.mp hu
    simp only [List.cons_append, Opening.read_of_header _ hlength hkind, behind, opened, hkind,
      Option.getD_some]
    rw [step_body hlength hbody byte, ← Buffer.pushAll_concat]
    rfl

/-- The error of the frame in progress when the byte makes it invalid. -/
def rejection (u : Bytes) (byte : UInt8) : Option FrameError :=
  match u with
  | [] => none
  | _ :: rest =>
    match Opening.read (rest ++ [byte]) with
    | .invalid e => some e
    | _ => none

/-- All that a step can do. Either the plain reading goes on, by one frame at most, or the byte makes
the frame in progress invalid and its bytes are kept. -/
theorem step_cases {u : Bytes} (hu : Pending u) (byte : UInt8) :
    (∃ frame? u', rejection u byte = none ∧ scan (u ++ [byte]) = (Option.toList frame?, u') ∧
      (behind u).step byte = (.ok frame?, behind u')) ∨
    (∃ e rest, rejection u byte = some e ∧ u = frameStart :: rest ∧
      Opening.read (rest ++ [byte]) = .invalid e ∧
      (behind u).step byte = reject (Buffer.empty.pushAll (rest ++ [byte])) e) := by
  cases u with
  | nil =>
    left
    by_cases hbyte : byte = frameStart
    · subst hbyte
      exact ⟨none, [frameStart], rfl, scan_undecided rfl, rfl⟩
    · refine ⟨none, [], rfl, scan_of_quiet (by simpa using Ne.symm hbyte), ?_⟩
      simp [behind, step, idle, hbyte]
  | cons start rest =>
    obtain ⟨rfl, hread⟩ := hu
    have hstep := step_opened hread byte
    cases hmore : Opening.read (rest ++ [byte]) with
    | undecided =>
      rw [hmore] at hstep
      exact .inl ⟨none, _, by simp [rejection, hmore], scan_undecided hmore, hstep⟩
    | frame f behind =>
      rw [hmore] at hstep
      obtain rfl := Opening.rest_eq_nil hread hmore
      have hscan := scan_frame hmore
      rw [scan] at hscan
      exact .inl ⟨some f, [], by simp [rejection, hmore], hscan, hstep⟩
    | invalid e =>
      rw [hmore] at hstep
      exact .inr ⟨e, rest, by simp [rejection, hmore], rfl, hmore, hstep⟩

private theorem toList_rejected {rest : Bytes} (h : Opening.read rest = .undecided) (byte : UInt8) :
    (Buffer.empty.pushAll (rest ++ [byte]) : Buffer maxFrameSize).toList = rest ++ [byte] := by
  have hlength := Opening.length_le_of_undecided h
  rw [Buffer.toList_pushAll _ _ (by
    simp only [Buffer.size_empty, List.length_append, List.length_singleton, maxFrameSize,
      frameOverhead, maxPayloadSize]
    omega)]
  rfl

/-- A second look reads on as the plain reading does. It ends at the end of the bytes, or at a byte
that makes a frame invalid: the kept bytes of that frame and those behind it are then still to be
read. -/
theorem replay_behind {u : Bytes} (hu : Pending u) (found : Option Frame) (bytes : Bytes) :
    ∃ frames left, (replay (behind u) found bytes).found = (found <|> frames.head?) ∧
      scan (u ++ bytes) = (frames ++ (scan left).1, (scan left).2) ∧
      match (replay (behind u) found bytes).unread with
      | none => Pending left ∧ (replay (behind u) found bytes).parser = behind left
      | some rest => left = (replay (behind u) found bytes).parser.raw.toList ++ rest := by
  induction bytes generalizing u found with
  | nil => exact ⟨[], u, by simp [replay], by simp, hu, rfl⟩
  | cons byte tail ih =>
    have happend : u ++ byte :: tail = (u ++ [byte]) ++ tail := by simp
    rcases step_cases hu byte with ⟨frame?, u', -, hscan, hstep⟩ | ⟨e, rest, -, rfl, hread, hstep⟩
    · obtain ⟨hu', -⟩ := undecided_of_scan hscan
      obtain ⟨frames, left, hfound, htail, hend⟩ := ih hu' (found <|> frame?)
      have hreplay : replay (behind u) found (byte :: tail) =
          replay (behind u') (found <|> frame?) tail := by
        rw [replay, hstep]
      refine ⟨frame?.toList ++ frames, left, ?_, ?_, ?_⟩
      · rw [hreplay, hfound]
        cases frame? <;> cases found <;> rfl
      · rw [happend, scan_append, hscan, htail, List.append_assoc]
      · rw [hreplay]
        exact hend
    · have hreplay : replay (behind (frameStart :: rest)) found (byte :: tail) =
          ⟨⟨.hunting, Buffer.empty.pushAll (rest ++ [byte])⟩, found, some tail⟩ := by
        rw [replay, hstep]
        rfl
      have hmore := Opening.read_append (rest ++ [byte]) tail (by simp [hread])
      rw [hread, ← List.append_cons] at hmore
      refine ⟨[], rest ++ byte :: tail, ?_, ?_, ?_⟩
      · rw [hreplay]
        simp
      · exact scan_invalid hmore
      · rw [hreplay]
        dsimp only
        rw [toList_rejected hu.2, ← List.append_cons]

/-- A second look that comes to an invalid frame keeps the bytes behind that frame's start byte, of
which there is at least one. -/
theorem replay_rejected {u : Bytes} (hu : Pending u) (found : Option Frame) {bytes rest : Bytes}
    (h : (replay (behind u) found bytes).unread = some rest) :
    ∃ front kept, (replay (behind u) found bytes).parser = ⟨.hunting, kept⟩ ∧
      0 < kept.size ∧ kept.size ≤ 255 ∧
      u ++ bytes = front ++ frameStart :: (kept.toList ++ rest) := by
  induction bytes generalizing u found with
  | nil => cases h
  | cons byte tail ih =>
    rcases step_cases hu byte with ⟨frame?, u', -, hscan, hstep⟩ | ⟨e, bytes, -, rfl, -, hstep⟩
    · obtain ⟨hu', before, hbefore⟩ := undecided_of_scan hscan
      rw [replay, hstep] at h ⊢
      obtain ⟨front, kept, hparser, hpos, hle, hbytes⟩ := ih hu' _ h
      refine ⟨before ++ front, kept, hparser, hpos, hle, ?_⟩
      rw [List.append_cons, ← hbefore, List.append_assoc, hbytes, List.append_assoc]
    · have hlength := Opening.length_le_of_undecided hu.2
      have hkept := toList_rejected hu.2 byte
      have hsize : (Buffer.empty.pushAll (bytes ++ [byte]) : Buffer maxFrameSize).size =
          bytes.length + 1 := by
        rw [Buffer.size, hkept, List.length_append, List.length_singleton]
      rw [replay, hstep] at h ⊢
      obtain rfl : tail = rest := Option.some.inj h
      refine ⟨[], _, rfl, by omega, by omega, ?_⟩
      rw [hkept, ← List.append_cons]
      rfl

/-- The bytes that a pass reads of the pending ones. -/
def fromStart (pending : Buffer maxFrameSize) : Bytes := pending.toList.dropWhile (· != frameStart)

/-- One pass over pending bytes, which begins anew. -/
def look (found : Option Frame) (pending : Buffer maxFrameSize) : Replay :=
  replay idle found (fromStart pending)

/-- A pass leaves less than it started with, so nothing is dropped where the bytes behind an invalid
frame are joined to those of the frame. -/
theorem toList_rejoined {found : Option Frame} {pending : Buffer maxFrameSize} {rest : Bytes}
    (h : (look found pending).unread = some rest) :
    ((look found pending).parser.raw.append rest).toList =
      (look found pending).parser.raw.toList ++ rest := by
  have hlt : (look found pending).parser.raw.size + rest.length < (fromStart pending).length :=
    replay_idle_lt _ _ rest h
  have hdrop : (fromStart pending).length ≤ pending.toList.length :=
    (List.dropWhile_suffix _).length_le
  have hpending := pending.length_le
  exact Buffer.toList_append _ _ (by omega)

/-- Searching rejected bytes again gives the first frame that the plain reading finds in them, and
leaves the parser with what is undecided at their end. -/
theorem rescan_eq (pending : Buffer maxFrameSize) (found : Option Frame) :
    rescan pending found =
      (found <|> (scan pending.toList).1.head?, behind (scan pending.toList).2) := by
  fun_induction rescan pending found with
  | case1 pending found p found' hreplay =>
    have hlook := replay_behind (u := []) trivial found (pending.toList.dropWhile (· != frameStart))
    rw [behind, hreplay, List.nil_append, scan_dropWhile] at hlook
    obtain ⟨frames, left, rfl, hscan, hleft, rfl⟩ := hlook
    rw [hscan, hleft.scan_eq, List.append_nil]
  | case2 pending found p found' rest hreplay ih =>
    have hlook := replay_behind (u := []) trivial found (pending.toList.dropWhile (· != frameStart))
    rw [behind, hreplay, List.nil_append, scan_dropWhile] at hlook
    obtain ⟨frames, left, rfl, hscan, rfl⟩ := hlook
    have hlist : (p.raw.append rest).toList = p.raw.toList ++ rest := by
      have hunread : (look found pending).unread = some rest := congrArg Replay.unread hreplay
      have hjoined := toList_rejoined hunread
      rwa [look, fromStart, hreplay] at hjoined
    rw [ih, hlist, hscan]
    cases frames <;> cases found <;> rfl

/-- What feeding a byte answers behind the bytes `u`: the first frame that the plain reading finds in
them, or else the error of the frame in progress. -/
def verdict (u : Bytes) (byte : UInt8) : Except FrameError (Option Frame) :=
  match (scan (u ++ [byte])).1.head?, rejection u byte with
  | some f, _ => .ok (some f)
  | none, some e => .error e
  | none, none => .ok none

theorem verdict_eq_error_iff {u : Bytes} (hu : Pending u) {byte : UInt8} {e : FrameError} :
    verdict u byte = .error e ↔ ∃ rest, u = frameStart :: rest ∧
      Opening.read (rest ++ [byte]) = .invalid e ∧ (scan (rest ++ [byte])).1 = [] := by
  rcases step_cases hu byte with
    ⟨frame?, u', hrejection, hscan, hstep⟩ | ⟨e', rest, hrejection, rfl, hread, hstep⟩
  · constructor
    · intro h
      rw [verdict, hscan, hrejection] at h
      cases frame? <;> cases h
    · rintro ⟨rest, rfl, hread, -⟩
      simp [rejection, hread] at hrejection
  · rw [verdict, hrejection, List.cons_append, scan_invalid hread]
    cases hframes : (scan (rest ++ [byte])).1 with
    | nil => simp [hread, hframes, eq_comm]
    | cons f frames => simp [hframes]

theorem feed_behind {u : Bytes} (hu : Pending u) (byte : UInt8) :
    (behind u).feed byte = (verdict u byte, behind (scan (u ++ [byte])).2) := by
  rcases step_cases hu byte with
    ⟨frame?, u', hrejection, hscan, hstep⟩ | ⟨e, rest, hrejection, rfl, hread, hstep⟩
  · rw [feed, hstep, verdict, hscan, hrejection]
    cases frame? <;> rfl
  · rw [feed, hstep, reject]
    dsimp only
    rw [rescan_eq, toList_rejected hu.2, verdict, hrejection, List.cons_append, scan_invalid hread]
    cases (scan (rest ++ [byte])).1.head? <;> rfl

theorem feedAll_append (p : Parser) (a b : Bytes) :
    p.feedAll (a ++ b) = ((p.feedAll a).1 ++ ((p.feedAll a).2.feedAll b).1,
      ((p.feedAll a).2.feedAll b).2) := by
  induction a generalizing p with
  | nil => rfl
  | cons byte rest ih => simp only [List.cons_append, feedAll, ih]

theorem feedAll_behind {u : Bytes} (hu : Pending u) (bytes : Bytes) :
    ((behind u).feedAll bytes).2 = behind (scan (u ++ bytes)).2 := by
  induction bytes generalizing u with
  | nil => rw [List.append_nil, hu.scan_eq, feedAll]
  | cons byte rest ih =>
    rw [List.append_cons, scan_append, ← ih (pending_scan _), feedAll, feed_behind hu]

theorem feedAll_idle (bytes : Bytes) : (idle.feedAll bytes).2 = behind (scan bytes).2 :=
  feedAll_behind (u := []) trivial bytes

theorem isIdle_behind (u : Bytes) : (behind u).isIdle ↔ u = [] := by
  match u with
  | [] => simp [behind, isIdle, idle]
  | [_] | [_, _] | [_, _, _] | [_, _, _, _] => simp [behind, isIdle, opened]
  | _ :: length :: _ :: _ :: _ :: body =>
    simp only [behind, isIdle, opened, afterPayload]
    by_cases hfull : (Buffer.empty.pushAll body : Payload).size = length.toNat <;> simp [hfull]

end HalfLink.Parser
