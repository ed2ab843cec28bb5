import HalfLink.Proofs.Call.Starting
import HalfLink.Proofs.Relay.Answering

/-! The caller at its end of the line. It may go on with a new report in the middle of an earlier
acknowledgement, whose rest is then read as if a frame began there; but the rest of an acknowledgement
never passes for one, and the next one ends the confusion. -/
namespace HalfLink

namespace Report

theorem encode_acknowledgement (n : Nat) :
    (acknowledgement n).encode =
      [frameStart, 0x00, 0x02, 0x01, UInt8.ofNat n, 0x03 ^^^ UInt8.ofNat n] := by
  have hcheck : (acknowledgement n).checksumByte = 0x03 ^^^ UInt8.ofNat n :=
    congrArg (· ^^^ UInt8.ofNat n) (show (0x00 : UInt8) ^^^ 0x02 ^^^ 0x01 = 0x03 from rfl)
  rw [Frame.encode, hcheck]
  rfl

/-- What is left of an acknowledgement when some of its bytes have been read. -/
def Stump (back : Bytes) : Prop :=
  ∃ n front, front ≠ [] ∧ (acknowledgement n).encode = front ++ back

theorem Stump.nil : Stump [] :=
  ⟨0, (acknowledgement 0).encode, List.cons_ne_nil _ _, (List.append_nil _).symm⟩

/-- A start byte in a stump can only be its number or the checksum, and what it opens then fails at the
beginning of the next frame. -/
theorem Stump.scan_eq {back : Bytes} (h : Stump back) :
    scan (back ++ [frameStart, 0x00]) = ([], [frameStart, 0x00]) := by
  obtain ⟨n, front, hne, hsplit⟩ := h
  rw [encode_acknowledgement] at hsplit
  have hsuffix : back <:+ [0x00, 0x02, 0x01, UInt8.ofNat n, 0x03 ^^^ UInt8.ofNat n] := by
    cases front with
    | nil => exact absurd rfl hne
    | cons byte front => exact ⟨front, (List.cons.inj hsplit).2.symm⟩
  have hstart : scan [frameStart, 0x00] = ([], [frameStart, 0x00]) := scan_undecided rfl
  have hcheck (check : UInt8) : scan [check, frameStart, 0x00] = ([], [frameStart, 0x00]) := by
    by_cases h : check = frameStart
    · subst h
      decide +kernel
    · rw [scan_cons_of_ne h, hstart]
  have hnumber (seq : UInt8) :
      scan [seq, 0x03 ^^^ seq, frameStart, 0x00] = ([], [frameStart, 0x00]) := by
    by_cases h : seq = frameStart
    · subst h
      decide +kernel
    · rw [scan_cons_of_ne h, hcheck]
  have hid : scan ([0x01, UInt8.ofNat n, 0x03 ^^^ UInt8.ofNat n] ++ [frameStart, 0x00]) =
      ([], [frameStart, 0x00]) := by
    rw [List.cons_append, scan_cons_of_ne (by decide)]
    exact hnumber _
  simp only [List.suffix_cons_iff, List.suffix_nil] at hsuffix
  rcases hsuffix with rfl | rfl | rfl | rfl | rfl | rfl
  · rw [List.cons_append, scan_cons_of_ne (by decide), List.cons_append,
      scan_cons_of_ne (by decide)]
    exact hid
  · rw [List.cons_append, scan_cons_of_ne (by decide)]
    exact hid
  · exact hid
  · exact hnumber _
  · exact hcheck _
  · exact hstart

end Report

namespace Parser

variable {id : TransactionId} {seq : UInt8}

theorem answerIn_none_of_scan {bytes : Bytes} (h : (scan bytes).1 = []) :
    answerIn id seq idle bytes = none := by
  by_contra hsome
  obtain ⟨⟨f, rest⟩, hanswer⟩ := Option.ne_none_iff_exists'.mp hsome
  have hmem := (delivered_sublist bytes).subset (mem_frames_of_answerIn hanswer).1
  rw [h] at hmem
  cases hmem

/-- Behind a stump only a whole acknowledgement is taken for an answer. -/
theorem answerIn_stump {back rest : Bytes} {ms : List Nat} {f : Frame} (hback : Report.Stump back)
    (hanswer : answerIn id seq idle (back ++ wire (ms.map Report.acknowledgement)) =
      some (f, rest)) :
    ∃ m ∈ ms, f = Report.acknowledgement m ∧ f.answers id seq := by
  have hnone : answerIn id seq idle (back ++ [frameStart, 0x00]) = none :=
    answerIn_none_of_scan (by rw [hback.scan_eq])
  cases ms with
  | nil =>
    rw [List.map_nil, wire_nil, List.append_nil] at hanswer
    rw [answerIn_append_some hanswer] at hnone
    cases hnone
  | cons m ms =>
    obtain ⟨tail, htail⟩ : ∃ tail, wire ((m :: ms).map Report.acknowledgement) =
        [frameStart, 0x00] ++ tail := ⟨_, rfl⟩
    have hopen : scan [frameStart, 0x00] = ([], [frameStart, 0x00]) := Report.Stump.nil.scan_eq
    -- The parser is where the first bytes of the next frame alone would have brought it.
    have hparser : (idle.feedAll (back ++ [frameStart, 0x00])).2 =
        (idle.feedAll [frameStart, 0x00]).2 := by
      rw [feedAll_idle, feedAll_idle, hback.scan_eq, hopen]
    have hstart : answerIn id seq idle [frameStart, 0x00] = none :=
      answerIn_none_of_scan (by rw [hopen])
    rw [htail, ← List.append_assoc, answerIn_append_none hnone, hparser,
      ← answerIn_append_none hstart, ← htail] at hanswer
    obtain ⟨hmem, hanswers⟩ := mem_frames_of_answerIn hanswer
    have hwire := delivered_wire_append ((m :: ms).map Report.acknowledgement) []
    rw [List.append_nil] at hwire
    replace hmem : f ∈ delivered (wire ((m :: ms).map Report.acknowledgement)) := hmem
    rw [hwire, show delivered [] = [] from rfl, List.append_nil] at hmem
    obtain ⟨m', hm', rfl⟩ := List.mem_map.mp hmem
    exact ⟨m', hm', rfl, hanswers⟩

end Parser

namespace Relay

variable {τ : Type} {d : Directory τ} {ingest : Bytes → τ → τ} {device : τ}

/-- What goes by between two moments in which the caller writes nothing and reads the given bytes. -/
structure Later (bytes : Bytes) (r r' : Relay τ) : Prop where
  posts : r'.requests.posts = r.requests.posts
  overdue : r'.overdue = r.overdue
  read : r'.responses.read = r.responses.read ++ bytes

theorem Later.refl (r : Relay τ) : Later [] r r := ⟨rfl, rfl, (List.append_nil _).symm⟩

theorem Later.trans {a b : Bytes} {r r' r'' : Relay τ} (h : Later a r r') (h' : Later b r' r'') :
    Later (a ++ b) r r'' :=
  ⟨h'.posts.trans h.posts, h'.overdue.trans h.overdue,
    by rw [h'.read, h.read, List.append_assoc]⟩

variable (d ingest device) in
/-- What holds of the line and the half at its other end when the given reports have been sent, of
which some have been served. Before the last of them was sent, `mark` bytes of acknowledgements had
been read. -/
structure Sound (sent : List RawReport) (mark : Nat) (served : List (RawReport × Nat))
    (r : Relay τ) : Prop where
  length : r.requests.posts.length = sent.length
  kept : Callee.Kept d ingest device (Report.arriving r.requests.loses sent) served r.callee
    r.requests r.responses
  mark_le : mark ≤ r.responses.taken
  /-- What is still to be served is not late. -/
  waiting : r.overdue = false →
    ∀ x ∈ (Report.arriving r.requests.loses sent).drop served.length, sent.length ≤ x.2 + 256
  /-- Behind the mark there are a stump and acknowledgements that are not late. -/
  ahead : r.overdue = false → ∃ (back : Bytes) (ms : List Nat),
    r.responses.content.drop mark = back ++ wire (ms.map Report.acknowledgement) ∧
      Report.Stump back ∧ ∀ m ∈ ms, sent.length ≤ m + 256 ∧ m ∈ served.map Prod.snd

variable {sent : List RawReport} {mark : Nat} {served : List (RawReport × Nat)} {r : Relay τ}

theorem sound_fresh (d : Directory τ) (ingest : Bytes → τ → τ) (device : τ)
    (losesRequest losesResponse : Nat → Bool) :
    (fresh d device losesRequest losesResponse).Sound d ingest device [] 0 [] where
  length := rfl
  kept := ⟨rfl, List.prefix_rfl, rfl, rfl, rfl, fun _ hp => absurd hp List.not_mem_nil⟩
  mark_le := le_rfl
  waiting _ _ hx := absurd hx List.not_mem_nil
  ahead _ := ⟨[], [], rfl, .nil, fun _ hm => absurd hm List.not_mem_nil⟩

theorem Sound.plan (sound : r.Sound d ingest device sent mark served) (plan : List (Lull × Nat)) :
    { r with plan }.Sound d ingest device sent mark served :=
  ⟨sound.length, sound.kept, sound.mark_le, sound.waiting, sound.ahead⟩

theorem Sound.clock (sound : r.Sound d ingest device sent mark served) (clock : Ticks 32) :
    { r with clock }.Sound d ingest device sent mark served :=
  ⟨sound.length, sound.kept, sound.mark_le, sound.waiting, sound.ahead⟩

theorem Sound.number_lt (sound : r.Sound d ingest device sent mark served) {n : Nat}
    (hn : n ∈ served.map Prod.snd) : n < sent.length := by
  obtain ⟨x, hx, rfl⟩ := List.mem_map.mp hn
  have harriving : x ∈ Report.arriving r.requests.loses sent :=
    sound.kept.served_prefix.subset hx
  have hplace := List.snd_lt_of_mem_zipIdx (List.mem_of_mem_filter harriving)
  omega

/-- What the callee serves next is not late, as long as the line is not. -/
theorem Sound.near_of_more (sound : r.Sound d ingest device sent mark served)
    (htimely : r.overdue = false) {more : List (RawReport × Nat)}
    (hmore : served ++ more <+: Report.arriving r.requests.loses sent) {m : Nat}
    (hm : m ∈ more.map Prod.snd) : sent.length ≤ m + 256 := by
  obtain ⟨x, hx, rfl⟩ := List.mem_map.mp hm
  obtain ⟨rest, hrest⟩ := hmore
  have hwaits : x ∈ (Report.arriving r.requests.loses sent).drop served.length := by
    rw [← hrest, List.append_assoc, List.drop_left]
    exact List.mem_append_left _ hx
  exact sound.waiting htimely x hwaits

theorem Sound.look (hd : d.lookup .hidSync = some (Report.ingesting ingest))
    (sound : r.Sound d ingest device sent mark served) (l : Look) :
    ∃ served', served <+: served' ∧ (r.look l).Sound d ingest device sent mark served' ∧
      Later [] r (r.look l) := by
  obtain ⟨more, answered, callee, w, hpoll, hposts, hloses, hkept, hgains⟩ :=
    sound.kept.poll hd l.grants l.reads
  have hlook : r.look l = { r with callee, requests := w.requests, responses := w.responses } := by
    simp only [Relay.look, road, hpoll]
  have hlater : Later [] r (r.look l) := by
    rw [hlook]
    exact ⟨hposts, rfl, hgains.read.trans (List.append_nil _).symm⟩
  refine ⟨served ++ more, List.prefix_append _ _, ?_, hlater⟩
  rw [hlook]
  constructor
  case length => exact (congrArg List.length hposts).trans sound.length
  case kept =>
    rw [hloses]
    exact hkept
  case mark_le => exact sound.mark_le.trans_eq hgains.taken.symm
  case waiting =>
    intro htimely x hx
    have hfewer : (Report.arriving r.requests.loses sent).drop (served ++ more).length ⊆
        (Report.arriving r.requests.loses sent).drop served.length := by
      rw [List.length_append]
      exact (List.drop_sublist_drop_left _ (Nat.le_add_right _ _)).subset
    rw [hloses] at hx
    exact sound.waiting htimely x (hfewer hx)
  case ahead =>
    intro htimely
    obtain ⟨back, ms, hdrop, hback, hms⟩ := sound.ahead htimely
    obtain ⟨ms', hms', hcontent⟩ := hgains.content
    have hmark : mark ≤ r.responses.content.length := sound.mark_le.trans r.responses.taken_le
    refine ⟨back, ms ++ ms', ?_, hback, fun m hm => ?_⟩
    · rw [hcontent, List.drop_append_of_le_length hmark, hdrop, List.map_append, wire_append,
        List.append_assoc]
    · rw [List.map_append]
      rcases List.mem_append.mp hm with hm | hm
      · exact ⟨(hms m hm).1, List.mem_append_left _ (hms m hm).2⟩
      · exact ⟨sound.near_of_more htimely hkept.served_prefix (hms' hm),
          List.mem_append_right _ (hms' hm)⟩

theorem Sound.pass (hd : d.lookup .hidSync = some (Report.ingesting ingest))
    (sound : r.Sound d ingest device sent mark served) (lull : Lull) :
    ∃ served', served <+: served' ∧ (r.pass lull).Sound d ingest device sent mark served' ∧
      Later [] r (r.pass lull) := by
  obtain ⟨looks, clock⟩ := lull
  obtain ⟨served', hgrows, hsound, hlater⟩ : ∃ served', served <+: served' ∧
      (looks.foldl Relay.look r).Sound d ingest device sent mark served' ∧
      Later [] r (looks.foldl Relay.look r) := by
    induction looks generalizing r served with
    | nil => exact ⟨served, List.prefix_rfl, sound, .refl r⟩
    | cons l looks ih =>
      obtain ⟨served', hgrows, hsound, hlater⟩ := sound.look hd l
      obtain ⟨served'', hgrows', hsound', hlater'⟩ := ih hsound
      exact ⟨served'', hgrows.trans hgrows', hsound', hlater.trans hlater'⟩
  exact ⟨served', hgrows, hsound.clock clock, hlater.posts, hlater.overdue, hlater.read⟩

/-- A read never fails, and meanwhile the callee may serve more. -/
theorem Sound.read (hd : d.lookup .hidSync = some (Report.ingesting ingest))
    (sound : r.Sound d ingest device sent mark served) (limit : Nat) :
    ∃ bytes r' served', Link.read limit r = (.ok bytes, r') ∧ served <+: served' ∧
      r'.Sound d ingest device sent mark served' ∧ Later bytes r r' := by
  rcases hplan : r.plan with _ | ⟨⟨lull, grant⟩, plan⟩
  · exact ⟨[], r, served, by simp only [Link.read, Relay.read, hplan], List.prefix_rfl, sound,
      .refl r⟩
  · obtain ⟨served', hgrows, hsound, hlater⟩ := (sound.plan plan).pass hd lull
    have hread : Link.read limit r = Relay.read limit r := rfl
    rw [Relay.read, hplan] at hread
    dsimp only at hread
    generalize { r with plan }.pass lull = r' at hsound hlater hread
    refine ⟨r'.responses.pending.take (min limit grant),
      { r' with responses := r'.responses.take (min limit grant) }, served', hread, hgrows,
      ⟨hsound.length, ?_, hsound.mark_le.trans (Nat.le_add_right _ _), hsound.waiting, hsound.ahead⟩,
      hlater.posts, hlater.overdue, ?_⟩
    · exact ⟨hsound.kept.carried, hsound.kept.served_prefix, hsound.kept.callee,
        hsound.kept.delivered, hsound.kept.answers.length, hsound.kept.answers.posts⟩
    · rw [Lane.read_take, hlater.read, List.append_nil]

theorem Sound.reads (hd : d.lookup .hidSync = some (Report.ingesting ingest))
    (sound : r.Sound d ingest device sent mark served) {bytes : Bytes} {r' : Relay τ}
    (hreads : Reads r bytes r') :
    ∃ served', served <+: served' ∧ r'.Sound d ingest device sent mark served' ∧
      Later bytes r r' := by
  induction hreads generalizing served with
  | refl r => exact ⟨served, List.prefix_rfl, sound, .refl r⟩
  | more hread _ ih =>
    obtain ⟨bytes', r', served', hread', hgrows, hsound, hlater⟩ := sound.read hd readSize
    obtain ⟨hbytes, rfl⟩ := Prod.mk.inj (hread'.symm.trans hread)
    obtain rfl := Except.ok.inj hbytes
    obtain ⟨served'', hgrows', hsound', hlater'⟩ := ih hsound
    exact ⟨served'', hgrows.trans hgrows', hsound', hlater.trans hlater'⟩

theorem of_write_timely {bytes : Bytes} (h : (Link.write bytes r).2.overdue = false) :
    r.overdue = false ∧
      (∀ p ∈ (r.requests.put r.requests.posts.length bytes).undelivered,
        r.requests.posts.length + 1 ≤ p.number + 256) ∧
      ∀ p ∈ r.responses.undelivered, r.requests.posts.length + 1 ≤ p.number + 256 := by
  simpa [Link.write, Relay.write, Lane.timely, Lane.put] using h

/-- What stands on the line behind the bytes that have been read is a stump and acknowledgements that
are still undelivered. -/
theorem Sound.drop_content (sound : r.Sound d ingest device sent mark served) :
    ∃ (back : Bytes) (ms : List Nat), r.responses.content.drop r.responses.taken =
        back ++ wire (ms.map Report.acknowledgement) ∧ Report.Stump back ∧
      ∀ m ∈ ms, m ∈ served.map Prod.snd ∧ ∃ p ∈ r.responses.undelivered, p.number = m := by
  have hanswers := sound.kept.answers.posts
  obtain ⟨back, rest, hdrop, hrest, hback⟩ :=
    Post.drop_flatMap r.responses.taken (Post.carried r.responses.posts)
  have hposts (p : Post) (hp : p ∈ Post.carried r.responses.posts) : p ∈ r.responses.posts :=
    List.mem_of_mem_filter hp
  obtain ⟨front, hfront, -⟩ :=
    Post.exists_append_beyond r.responses.taken (Post.carried r.responses.posts)
  have hundelivered (p : Post) (hp : p ∈ r.responses.undelivered) : p ∈ r.responses.posts :=
    hposts p (by rw [hfront]; exact List.mem_append_right _ hp)
  refine ⟨back, rest.map Post.number, ?_, ?_, fun m hm => ?_⟩
  · rw [Lane.content, Post.content, hdrop, wire, List.map_map, List.flatMap_map]
    congr 1
    exact List.flatMap_congr fun p hp => (hanswers p (hundelivered p (hrest.subset hp))).1
  · rcases hback with rfl | ⟨p, hp, cut, hcut, hsplit⟩
    · exact .nil
    · exact ⟨p.number, cut, hcut, (hanswers p (hposts p hp)).1.symm.trans hsplit⟩
  · obtain ⟨p, hp, rfl⟩ := List.mem_map.mp hm
    have hmem := hrest.subset hp
    exact ⟨(hanswers p (hundelivered p hmem)).2, p, hmem, rfl⟩

/-- When a report goes out, the mark comes to where the caller has read. -/
theorem Sound.write (sound : r.Sound d ingest device sent mark served) (report : RawReport) :
    (Link.write (Report.request (report, sent.length)).encode r).2.Sound d ingest device
      (sent ++ [report]) r.responses.taken served := by
  have hlength : (sent ++ [report]).length = r.requests.posts.length + 1 := by
    rw [List.length_append, sound.length, List.length_singleton]
  have harriving := Report.arriving_concat r.requests.loses sent report
  have hkept : Callee.Kept d ingest device (Report.arriving r.requests.loses (sent ++ [report]))
      served r.callee
      (r.requests.put r.requests.posts.length (Report.request (report, sent.length)).encode)
      r.responses := by
    refine ⟨?_, ?_, ?_, ?_, sound.kept.answers⟩
    · rw [Lane.put, Post.carried_concat, sound.kept.carried, harriving, List.map_append,
        sound.length]
      cases r.requests.loses sent.length <;> rfl
    · rw [harriving]
      exact sound.kept.served_prefix.trans (List.prefix_append _ _)
    · rw [Lane.read_put]
      exact sound.kept.callee
    · rw [Lane.read_put]
      exact sound.kept.delivered
  constructor
  case length =>
    rw [hlength]
    exact List.length_append
  case kept => exact hkept
  case mark_le => exact le_rfl
  case waiting =>
    intro htimely x hx
    obtain ⟨-, hrequests, -⟩ := of_write_timely htimely
    rw [hlength]
    exact hrequests (Report.post x) (hkept.mem_undelivered hx)
  case ahead =>
    intro htimely
    obtain ⟨-, -, hresponses⟩ := of_write_timely htimely
    obtain ⟨back, ms, hdrop, hback, hms⟩ := sound.drop_content
    refine ⟨back, ms, hdrop, hback, fun m hm => ?_⟩
    obtain ⟨hserved, p, hp, rfl⟩ := hms m hm
    rw [hlength]
    exact ⟨hresponses p hp, hserved⟩

/-- An answer in what has been read since the last report was sent is its own acknowledgement, unless
the line is late. -/
theorem Sound.served_of_answerIn (sound : r.Sound d ingest device sent mark served)
    (htimely : r.overdue = false) {n : Nat} (hn : sent.length = n + 1) {id : TransactionId}
    {f : Frame} {rest : Bytes}
    (hanswer : Parser.answerIn id (UInt8.ofNat n) .idle (r.responses.read.drop mark) =
      some (f, rest)) : n ∈ served.map Prod.snd := by
  obtain ⟨back, ms, hdrop, hback, hms⟩ := sound.ahead htimely
  have hahead : r.responses.content.drop mark =
      r.responses.read.drop mark ++ r.responses.pending := by
    rw [← r.responses.read_append_pending,
      List.drop_append_of_le_length (sound.mark_le.trans_eq r.responses.length_read.symm)]
  have hwhole := Parser.answerIn_append_some hanswer r.responses.pending
  rw [← hahead, hdrop] at hwhole
  obtain ⟨m, hm, rfl, hanswers⟩ := Parser.answerIn_stump hback hwhole
  obtain ⟨hnear, hserved⟩ := hms m hm
  have hlt := sound.number_lt hserved
  have hseq : UInt8.ofNat m = UInt8.ofNat n := (of_decide_eq_true hanswers).2.2
  obtain rfl : m = n := by
    by_contra hne
    exact ofNat_ne_of_near (by omega) (by omega) hseq
  exact hserved

/-- A caller that waits, waits for the acknowledgement of the last report, and what it has read since
that went out holds no answer. -/
def Awaits (sent : List RawReport) (mark : Nat) (c : Caller) (r : Relay τ) : Prop :=
  ∀ id seq deadline, c.state = .awaiting id seq deadline →
    id = .hidSync ∧ (∃ n, sent.length = n + 1 ∧ seq = UInt8.ofNat n) ∧
      Parser.answerIn id seq .idle (r.responses.read.drop mark) = none ∧
      c.parser = (Parser.idle.feedAll (r.responses.read.drop mark)).2

theorem awaits_of_idle {c : Caller} (h : c.state = .idle) : Awaits sent mark c r := by
  intro id seq deadline hstate
  rw [h] at hstate
  cases hstate

variable (d ingest device) in
/-- A caller and the line before it when the given reports have been sent. -/
structure Engaged (sent : List RawReport) (served : List (RawReport × Nat)) (c : Caller)
    (r : Relay τ) : Prop where
  nextSeq : c.nextSeq = UInt8.ofNat sent.length
  sound : ∃ mark, r.Sound d ingest device sent mark served ∧ Awaits sent mark c r

variable (d ingest device) in
/-- What polls of the caller lead to. -/
structure Polled (sent : List RawReport) (served served' : List (RawReport × Nat)) (r : Relay τ)
    (p : Caller.Polled (Relay τ)) : Prop where
  grows : served <+: served'
  engaged : Engaged d ingest device sent served' p.caller p.world
  posts : p.world.requests.posts = r.requests.posts
  overdue : p.world.overdue = r.overdue
  answered : r.overdue = false → ∀ len n, p.outcome = some (.ok len) → sent.length = n + 1 →
    n ∈ served'.map Prod.snd

variable {c : Caller} {served' : List (RawReport × Nat)} {bytes : Bytes} {r' : Relay τ}

/-- A poll that ends with the frame it took for the answer. -/
theorem polled_complete (hnext : c.nextSeq = UInt8.ofNat sent.length)
    (sound : r'.Sound d ingest device sent mark served') (hgrows : served <+: served')
    (hlater : Later bytes r r')
    (hserved : r.overdue = false → ∀ n, sent.length = n + 1 → n ∈ served'.map Prod.snd)
    (f : Frame) (response : Bytes) :
    Polled d ingest device sent served served' r (c.complete f response r') := by
  unfold Caller.complete
  dsimp only
  split
  · exact ⟨hgrows, ⟨hnext, mark, sound, awaits_of_idle rfl⟩, hlater.posts, hlater.overdue,
      fun htimely _ n _ => hserved htimely n⟩
  · exact ⟨hgrows, ⟨hnext, mark, sound, awaits_of_idle rfl⟩, hlater.posts, hlater.overdue,
      fun htimely _ n _ => hserved htimely n⟩

/-- A poll that ends without an answer. -/
theorem polled_checkDeadline (hnext : c.nextSeq = UInt8.ofNat sent.length)
    (sound : r'.Sound d ingest device sent mark served') (hgrows : served <+: served')
    (hlater : Later bytes r r') (hawaits : Awaits sent mark c r') (deadline : Ticks 32)
    (response : Bytes) :
    Polled d ingest device sent served served' r (c.checkDeadline deadline response r') := by
  unfold Caller.checkDeadline
  dsimp only
  split
  · exact ⟨hgrows, ⟨hnext, mark, sound, awaits_of_idle rfl⟩, hlater.posts, hlater.overdue,
      fun _ _ _ hok => by cases hok⟩
  · exact ⟨hgrows, ⟨hnext, mark, sound, hawaits⟩, hlater.posts, hlater.overdue,
      fun _ _ _ hok => by cases hok⟩

theorem Engaged.poll (hd : d.lookup .hidSync = some (Report.ingesting ingest))
    (engaged : Engaged d ingest device sent served c r) (response : Bytes) :
    ∃ served', Polled d ingest device sent served served' r (c.poll response r) := by
  obtain ⟨hnext, mark, sound, hawaits⟩ := engaged
  cases hstate : c.state with
  | idle =>
    have hpoll : c.poll response r = ⟨some (.error .idle), response, c, r⟩ := by
      rw [Caller.poll, hstate]
    rw [hpoll]
    exact ⟨served, List.prefix_rfl, ⟨hnext, mark, sound, hawaits⟩, rfl, rfl,
      fun _ _ _ hok => by cases hok⟩
  | awaiting id seq deadline =>
    obtain ⟨rfl, ⟨n, hn, rfl⟩, hnone, hparser⟩ := hawaits id seq deadline hstate
    obtain ⟨bytes, r', hreads, hend⟩ := Caller.poll_awaiting hstate response r
    obtain ⟨served', hgrows, sound', hlater⟩ := sound.reads hd hreads
    have hmark : mark ≤ r.responses.read.length :=
      sound.mark_le.trans_eq r.responses.length_read.symm
    have hread : r'.responses.read.drop mark = r.responses.read.drop mark ++ bytes := by
      rw [hlater.read, List.drop_append_of_le_length hmark]
    have hall : Parser.answerIn .hidSync (UInt8.ofNat n) .idle (r'.responses.read.drop mark) =
        Parser.answerIn .hidSync (UInt8.ofNat n) c.parser bytes := by
      rw [hread, Parser.answerIn_append_none hnone, ← hparser]
    cases hanswer : Parser.answerIn .hidSync (UInt8.ofNat n) c.parser bytes with
    | some found =>
      rw [hanswer] at hend hall
      obtain ⟨parser, hpoll⟩ := hend
      rw [hpoll]
      refine ⟨served', polled_complete (c := { c with parser }) hnext sound' hgrows hlater
        (fun htimely n' hn' => ?_) _ _⟩
      obtain rfl : n' = n := by omega
      exact sound'.served_of_answerIn (hlater.overdue.trans htimely) hn hall
    | none =>
      rw [hanswer] at hend hall
      obtain ⟨hpoll, hnothing⟩ := hend
      -- The read that ends the poll gives nothing, but the callee may serve more before it.
      obtain ⟨chunk, r'', served'', hlast, hgrows', sound'', hlater'⟩ := sound'.read hd readSize
      rw [hlast] at hpoll hnothing
      obtain rfl : chunk = [] := by
        cases chunk with
        | nil => rfl
        | cons byte chunk => exact absurd rfl (hnothing byte chunk)
      rw [← List.append_nil r'.responses.read, ← hlater'.read] at hread hall
      rw [hpoll]
      refine ⟨served'', polled_checkDeadline (c := { c with parser := (c.parser.feedAll bytes).2 })
        hnext sound'' (hgrows.trans hgrows') (hlater.trans hlater')
        (fun id' seq' deadline' hstill => ?_) _ _⟩
      obtain ⟨rfl, rfl, rfl⟩ := Caller.State.awaiting.inj (hstate.symm.trans hstill)
      refine ⟨rfl, ⟨n, hn, rfl⟩, hall, ?_⟩
      rw [hread, Parser.feedAll_append, ← hparser]

theorem Engaged.wait (hd : d.lookup .hidSync = some (Report.ingesting ingest))
    (engaged : Engaged d ingest device sent served c r) (response : Bytes) (polls : Nat) :
    ∃ served', Polled d ingest device sent served served' r (c.wait response r polls) := by
  induction polls generalizing served c r response with
  | zero => exact ⟨served, List.prefix_rfl, engaged, rfl, rfl, fun _ _ _ hok => by cases hok⟩
  | succ polls ih =>
    obtain ⟨served', polled⟩ := engaged.poll hd response
    rw [Caller.wait]
    cases houtcome : (c.poll response r).outcome with
    | some outcome => exact ⟨served', polled⟩
    | none =>
      obtain ⟨served'', polled'⟩ := ih polled.engaged (c.poll response r).response
      exact ⟨served'', polled.grows.trans polled'.grows, polled'.engaged,
        polled'.posts.trans polled.posts, polled'.overdue.trans polled.overdue,
        fun htimely => polled'.answered (polled.overdue.trans htimely)⟩

end Relay

end HalfLink
