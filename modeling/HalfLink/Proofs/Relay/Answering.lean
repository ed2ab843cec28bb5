import HalfLink.Proofs.Call.Handling
import HalfLink.Proofs.Relay.Basic

/-! The answering half at its end of the line: it takes in the reports that arrive, in their order and
each once, and acknowledges each of them. -/
namespace HalfLink

namespace Report

variable {τ : Type}

def payload (report : RawReport) : Payload := ⟨report.toList, report.length_le.trans (by decide)⟩

/-- The request that forwards a report under its number. -/
def request (x : RawReport × Nat) : Frame := requestFrame x.2 (.hidSync, payload x.1)

def acknowledgement (n : Nat) : Frame := .response .hidSync (UInt8.ofNat n) .empty

/-- The request on the line when it is not lost. -/
def post (x : RawReport × Nat) : Post := { number := x.2, bytes := (request x).encode }

/-- The reports whose requests are not lost, with their numbers. -/
def arriving (loses : Nat → Bool) (sent : List RawReport) : List (RawReport × Nat) :=
  sent.zipIdx.filter fun x => !loses x.2

/-- The device after it has taken in reports one after the other. -/
def ingestAll (ingest : Bytes → τ → τ) (device : τ) (reports : List Bytes) : τ :=
  reports.foldl (fun device report => ingest report device) device

theorem arriving_concat (loses : Nat → Bool) (sent : List RawReport) (report : RawReport) :
    arriving loses (sent ++ [report]) =
      arriving loses sent ++ if loses sent.length then [] else [(report, sent.length)] := by
  cases h : loses sent.length <;> simp [arriving, List.zipIdx_append, h]

theorem flatMap_post (xs : List (RawReport × Nat)) :
    (xs.map post).flatMap Post.bytes = wire (xs.map request) := by
  simp [wire, List.flatMap_map, post]

theorem ingestAll_append (ingest : Bytes → τ → τ) (device : τ) (a b : List Bytes) :
    ingestAll ingest device (a ++ b) = ingestAll ingest (ingestAll ingest device a) b :=
  List.foldl_append

end Report

namespace Lane

/-- The lane carries the acknowledgements of the given reports. -/
structure Answers (served : List (RawReport × Nat)) (l : Lane) : Prop where
  length : l.posts.length = served.length
  posts : ∀ p ∈ l.posts,
    p.bytes = (Report.acknowledgement p.number).encode ∧ p.number ∈ served.map Prod.snd

/-- The lane has got the acknowledgements of more reports, of which some may be lost. -/
structure Gains (more : List (RawReport × Nat)) (l l' : Lane) : Prop where
  taken : l'.taken = l.taken
  content : ∃ ms, ms ⊆ more.map Prod.snd ∧
    l'.content = l.content ++ wire (ms.map Report.acknowledgement)

theorem Gains.refl (l : Lane) : l.Gains [] l := ⟨rfl, [], by simp⟩

theorem Gains.trans {a b : List (RawReport × Nat)} {l l' l'' : Lane} (h : l.Gains a l')
    (h' : l'.Gains b l'') : l.Gains (a ++ b) l'' := by
  obtain ⟨ms, hms, hcontent⟩ := h.content
  obtain ⟨ms', hms', hcontent'⟩ := h'.content
  refine ⟨h'.taken.trans h.taken, ms ++ ms', ?_, ?_⟩
  · rw [List.map_append]
    exact List.append_subset.mpr ⟨List.Subset.trans hms (List.subset_append_left _ _),
      List.Subset.trans hms' (List.subset_append_right _ _)⟩
  · rw [hcontent', hcontent, List.append_assoc, List.map_append, wire_append]

theorem Gains.read {more : List (RawReport × Nat)} {l l' : Lane} (h : l.Gains more l') :
    l'.read = l.read := by
  obtain ⟨ms, -, hcontent⟩ := h.content
  rw [Lane.read, hcontent, h.taken]
  exact List.take_append_of_le_length l.taken_le

theorem Answers.put {served : List (RawReport × Nat)} {l : Lane} (h : l.Answers served)
    (x : RawReport × Nat) :
    (l.put x.2 (Report.acknowledgement x.2).encode).Answers (served ++ [x]) ∧
      l.Gains [x] (l.put x.2 (Report.acknowledgement x.2).encode) := by
  refine ⟨⟨?_, ?_⟩, rfl, ?_⟩
  · simp [Lane.put, h.length]
  · intro p hp
    rw [List.map_append]
    rcases List.mem_append.mp hp with hp | hp
    · obtain ⟨hbytes, hnumber⟩ := h.posts p hp
      exact ⟨hbytes, List.mem_append_left _ hnumber⟩
    · obtain rfl := List.mem_singleton.mp hp
      exact ⟨rfl, List.mem_append_right _ (by simp)⟩
  · rw [content_put]
    by_cases hlost : l.loses l.posts.length
    · exact ⟨[], by simp [hlost]⟩
    · exact ⟨[x.2], by simp [hlost]⟩

end Lane

section

variable {τ : Type} {d : Directory τ} {ingest : Bytes → τ → τ} {device : τ}

/-- A report that arrives is taken in and acknowledged. -/
theorem Directory.respond_report (hd : d.lookup .hidSync = some (Report.ingesting ingest))
    (x : RawReport × Nat) (device : τ) :
    d.respond (Report.request x) device =
      (some (Report.acknowledgement x.2), ingest x.1.toList device) := by
  have hhandler : Report.ingesting ingest x.1.toList .empty device =
      (.empty, ingest x.1.toList device) := if_neg (Nat.not_lt.mpr x.1.length_le)
  simp only [Directory.respond, Report.request, requestFrame, Report.payload, hd, hhandler]
  rfl

/-- Report by report the callee takes in what it has found and writes the acknowledgement. -/
theorem Callee.answerAll_reports {c : Callee τ}
    (hd : c.directory.lookup .hidSync = some (Report.ingesting ingest))
    {arriving served more : List (RawReport × Nat)} (hmore : served ++ more <+: arriving) {w : Road}
    (hcarried : Post.carried w.requests.posts = arriving.map Report.post)
    (hserved : w.responses.Answers served) :
    ∃ answered responses, c.answerAll w (more.map Report.request) =
        (answered, { c with device := Report.ingestAll ingest c.device (more.map (·.1.toList)) },
          { w with responses }) ∧
      responses.Answers (served ++ more) ∧ w.responses.Gains more responses := by
  induction more generalizing c served w with
  | nil =>
    refine ⟨0, w.responses, rfl, ?_, .refl _⟩
    rwa [List.append_nil]
  | cons x more ih =>
    have hnumber : ((Post.carried w.requests.posts)[w.responses.posts.length]?).elim 0 Post.number =
        x.2 := by
      obtain ⟨rest, rfl⟩ := hmore
      rw [hcarried, hserved.length]
      simp [Report.post]
    have hanswer : c.answer (Report.request x) w =
        (true, { c with device := ingest x.1.toList c.device },
          { w with responses := w.responses.put x.2 (Report.acknowledgement x.2).encode }) := by
      simp only [Callee.answer, Directory.respond_report hd, Frame.toBuffer_eq, Link.write,
        Road.write, hnumber]
    obtain ⟨hput, hgains⟩ := hserved.put x
    rw [List.append_cons] at hmore
    obtain ⟨answered, responses, hall, hanswers, hrest⟩ :=
      ih (c := { c with device := ingest x.1.toList c.device }) hd hmore
        (w := { w with responses := w.responses.put x.2 (Report.acknowledgement x.2).encode })
        hcarried hput
    refine ⟨1 + answered, responses, ?_, ?_, hgains.trans hrest⟩
    · simp only [List.map_cons, Callee.answerAll, hanswer, hall]
      rfl
    · rwa [List.append_cons]

variable (d ingest device) in
/-- What holds at the callee's end when it has served some of the reports that arrive there. -/
structure Callee.Kept (arriving served : List (RawReport × Nat)) (callee : Callee τ)
    (requests responses : Lane) : Prop where
  carried : Post.carried requests.posts = arriving.map Report.post
  served_prefix : served <+: arriving
  callee : callee =
    { directory := d
      device := Report.ingestAll ingest device (served.map (·.1.toList))
      parser := (Parser.idle.feedAll requests.read).2 }
  delivered : Parser.delivered requests.read = served.map Report.request
  answers : responses.Answers served

namespace Callee

variable {arriving served : List (RawReport × Nat)} {callee : Callee τ} {requests responses : Lane}

theorem Kept.content (kept : Kept d ingest device arriving served callee requests responses) :
    requests.content = wire (arriving.map Report.request) := by
  rw [Lane.content, Post.content, kept.carried, Report.flatMap_post]

/-- What has been read to its end has been served. -/
theorem Kept.mem_undelivered (kept : Kept d ingest device arriving served callee requests responses)
    {x : RawReport × Nat} (hx : x ∈ arriving.drop served.length) :
    Report.post x ∈ requests.undelivered := by
  obtain ⟨front, hfront, hlength⟩ :=
    Post.exists_append_beyond requests.taken (Post.carried requests.posts)
  obtain ⟨first, rest, rfl, hfirst, hrest⟩ := List.map_eq_append_iff.mp (kept.carried.symm.trans hfront)
  rw [← hfirst, Report.flatMap_post] at hlength
  have hread : requests.read = wire (first.map Report.request) ++
      (wire (rest.map Report.request)).take
        (requests.taken - (wire (first.map Report.request)).length) := by
    rw [Lane.read, kept.content, List.map_append, wire_append, List.take_append,
      List.take_of_length_le hlength]
  have hserved : first.length ≤ served.length := by
    have hcount := congrArg List.length kept.delivered
    rw [hread, Parser.delivered_wire_append, List.length_append, List.length_map,
      List.length_map] at hcount
    omega
  have hmem : x ∈ rest := by
    rw [List.drop_append, List.drop_eq_nil_of_le hserved, List.nil_append] at hx
    exact List.mem_of_mem_drop hx
  rw [Lane.undelivered, ← hrest]
  exact List.mem_map_of_mem hmem

theorem Kept.serve (hd : d.lookup .hidSync = some (Report.ingesting ingest))
    (kept : Kept d ingest device arriving served callee requests responses) (n : Nat)
    (grants : List Nat) :
    ∃ more answered callee' responses',
      callee.serve (⟨requests.take n, responses, grants⟩ : Road) (requests.pending.take n) =
        (answered, callee', ⟨requests.take n, responses', grants⟩) ∧
      Kept d ingest device arriving (served ++ more) callee' (requests.take n) responses' ∧
      responses.Gains more responses' := by
  have hread := requests.read_take n
  generalize requests.pending.take n = bytes at hread ⊢
  -- What has been read is a first part of the line, so the frames in it are the first ones.
  obtain ⟨k, hk⟩ : ∃ k, Parser.delivered (requests.take n).read =
      (arriving.take k).map Report.request := by
    have hprefix : (requests.take n).read <+: wire (arriving.map Report.request) := by
      rw [← kept.content]
      exact ⟨(requests.take n).pending, (requests.take n).read_append_pending⟩
    obtain ⟨k, hk⟩ := Parser.delivered_of_prefix hprefix
    exact ⟨k, by rw [hk, List.map_take]⟩
  have hframes : Parser.delivered (requests.take n).read =
      served.map Report.request ++ Parser.frames (callee.parser.feedAll bytes).1 := by
    rw [← kept.delivered, kept.callee, hread, Parser.delivered, Parser.feedAll_append,
      Parser.frames_append]
    rfl
  have hlength : served.length ≤ (arriving.take k).length := by
    have hcount := congrArg List.length (hk.symm.trans hframes)
    rw [List.length_append, List.length_map, List.length_map] at hcount
    omega
  obtain ⟨more, hmore⟩ :=
    List.prefix_of_prefix_length_le kept.served_prefix (List.take_prefix k arriving) hlength
  have hnew : Parser.frames (callee.parser.feedAll bytes).1 = more.map Report.request := by
    rw [hk, ← hmore, List.map_append] at hframes
    exact (List.append_cancel_left hframes).symm
  have hprefix : served ++ more <+: arriving := hmore ▸ List.take_prefix k arriving
  have hdirectory : callee.directory.lookup .hidSync = some (Report.ingesting ingest) := by
    rw [kept.callee]
    exact hd
  obtain ⟨answered, responses', hall, hanswers, hgains⟩ :=
    answerAll_reports hdirectory hprefix (w := ⟨requests.take n, responses, grants⟩) kept.carried
      kept.answers
  let callee' : Callee τ :=
    { callee with
      device := Report.ingestAll ingest callee.device (more.map (·.1.toList))
      parser := (callee.parser.feedAll bytes).2 }
  refine ⟨more, answered, callee', responses', ?_, ⟨kept.carried, hprefix, ?_, ?_, hanswers⟩, hgains⟩
  · rw [serve_eq, hnew, hall]
  · rw [List.map_append, Report.ingestAll_append, hread, Parser.feedAll_append]
    dsimp only [callee']
    rw [kept.callee]
  · rw [hk, ← hmore]

/-- A poll of the callee serves some more of what arrives. -/
theorem Kept.poll (hd : d.lookup .hidSync = some (Report.ingesting ingest))
    (kept : Kept d ingest device arriving served callee requests responses) (grants : List Nat)
    (reads : Nat) :
    ∃ more answered callee' w', callee.poll (⟨requests, responses, grants⟩ : Road) reads =
        (answered, callee', w') ∧
      w'.requests.posts = requests.posts ∧ w'.requests.loses = requests.loses ∧
      Kept d ingest device arriving (served ++ more) callee' w'.requests w'.responses ∧
      responses.Gains more w'.responses := by
  induction reads generalizing served callee requests responses grants with
  | zero =>
    refine ⟨[], 0, callee, ⟨requests, responses, grants⟩, rfl, rfl, rfl, ?_, .refl _⟩
    rwa [List.append_nil]
  | succ reads ih =>
    cases grants with
    | nil =>
      refine ⟨[], 0, callee, ⟨requests, responses, []⟩, rfl, rfl, rfl, ?_, .refl _⟩
      rwa [List.append_nil]
    | cons grant grants =>
      have hread : Link.read readSize (⟨requests, responses, grant :: grants⟩ : Road) =
          (.ok (requests.pending.take (min readSize grant)),
            ⟨requests.take (min readSize grant), responses, grants⟩) := rfl
      obtain ⟨more, answered, callee', responses', hserve, hkept, hgains⟩ :=
        kept.serve hd (min readSize grant) grants
      cases hbytes : requests.pending.take (min readSize grant) with
      | nil =>
        rw [hbytes] at hread hserve
        have hnothing : callee' = callee ∧ responses' = responses := by
          cases hserve
          exact ⟨rfl, rfl⟩
        obtain ⟨rfl, rfl⟩ := hnothing
        exact ⟨more, 0, callee', ⟨requests.take (min readSize grant), responses', grants⟩,
          by simp only [Callee.poll, hread], rfl, rfl, hkept, hgains⟩
      | cons byte rest =>
        rw [hbytes] at hread hserve
        obtain ⟨more', answered', callee'', w', hpoll, hposts, hloses, hkept', hgains'⟩ :=
          ih hkept grants
        refine ⟨more ++ more', answered + answered', callee'', w', ?_, hposts, hloses, ?_,
          hgains.trans hgains'⟩
        · simp only [Callee.poll, hread, hserve, hpoll]
        · rwa [← List.append_assoc]

end Callee

end

end HalfLink
