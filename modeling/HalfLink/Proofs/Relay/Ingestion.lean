import HalfLink.Proofs.Relay.Waiting

/-! What becomes of forwarded reports. The device takes in some of those that went out, each at most
once and in their order, and a forward that succeeds tells that its report is among them. -/
namespace HalfLink

namespace Relay

variable {τ : Type} {d : Directory τ} {ingest : Bytes → τ → τ} {device : τ}
  {sent : List RawReport} {served : List (RawReport × Nat)} {c : Caller} {r : Relay τ}

theorem engaged_fresh {s : Settings} (hc : Caller.ofSettings s = .ok c) (d : Directory τ)
    (ingest : Bytes → τ → τ) (device : τ) (losesRequest losesResponse : Nat → Bool) :
    Engaged d ingest device [] [] c (fresh d device losesRequest losesResponse) := by
  unfold Caller.ofSettings at hc
  split at hc
  · cases hc
  · cases hc
    exact ⟨rfl, 0, sound_fresh d ingest device losesRequest losesResponse, awaits_of_idle rfl⟩

theorem Engaged.plan (engaged : Engaged d ingest device sent served c r)
    (plan : List (Lull × Nat)) : Engaged d ingest device sent served c { r with plan } := by
  obtain ⟨hnext, mark, sound, hawaits⟩ := engaged
  exact ⟨hnext, mark, sound.plan plan, hawaits⟩

variable (d ingest device) in
/-- How a forward of a report comes out. Either nothing was written, and the forward did not succeed;
or one request was, and if the forward succeeded in time then its report was served. -/
inductive Forwarded (sent : List RawReport) (served : List (RawReport × Nat)) (report : RawReport)
    (r : Relay τ) (p : Caller.Polled (Relay τ)) : Prop
  | unsent (served' : List (RawReport × Nat)) (grows : served <+: served')
      (engaged : Engaged d ingest device sent served' p.caller p.world)
      (posts : p.world.requests.posts = r.requests.posts)
      (overdue : p.world.overdue = r.overdue)
      (failed : ∀ len, p.outcome ≠ some (.ok len))
  | sent (served' : List (RawReport × Nat)) (grows : served <+: served')
      (engaged : Engaged d ingest device (sent ++ [report]) served' p.caller p.world)
      (lost : Bool)
      (posts : p.world.requests.posts = r.requests.posts ++
        [⟨sent.length, (Report.request (report, sent.length)).encode, lost⟩])
      (overdue : p.world.overdue = false → r.overdue = false)
      (answered : p.world.overdue = false → ∀ len, p.outcome = some (.ok len) →
        sent.length ∈ served'.map Prod.snd)

theorem Forwarded.of_polled {served' : List (RawReport × Nat)} {report : RawReport}
    {p q : Caller.Polled (Relay τ)}
    (forwarded : Forwarded d ingest device sent served' report p.world q)
    (polled : Polled d ingest device sent served served' r p) :
    Forwarded d ingest device sent served report r q := by
  cases forwarded with
  | unsent served'' grows engaged posts overdue failed =>
    exact .unsent served'' (polled.grows.trans grows) engaged (posts.trans polled.posts)
      (overdue.trans polled.overdue) failed
  | sent served'' grows engaged lost posts overdue answered =>
    refine .sent served'' (polled.grows.trans grows) engaged lost ?_ (fun h => ?_) answered
    · rw [posts, polled.posts]
    · exact polled.overdue.symm.trans (overdue h)

/-- A caller that has written a report's request, and now waits for its acknowledgement. -/
theorem Engaged.write (engaged : Engaged d ingest device sent served c r) (report : RawReport)
    {c' : Caller} (hnext : c'.nextSeq = c.nextSeq + 1) (hparser : c'.parser = .idle)
    {deadline : Ticks 32} (hstate : c'.state = .awaiting .hidSync c.nextSeq deadline) :
    Engaged d ingest device (sent ++ [report]) served c'
      (Link.write (Report.request (report, sent.length)).encode r).2 := by
  obtain ⟨hseq, mark, sound, -⟩ := engaged
  have hlength : (sent ++ [report]).length = sent.length + 1 := by simp
  have hnothing :
      (Link.write (Report.request (report, sent.length)).encode r).2.responses.read.drop
        r.responses.taken = [] := List.drop_eq_nil_of_le r.responses.length_read.le
  refine ⟨?_, r.responses.taken, sound.write report, fun id seq deadline' hawaiting => ?_⟩
  · rw [hlength, UInt8.ofNat_add, ← hseq, hnext]
    rfl
  · obtain ⟨rfl, rfl, -⟩ := Caller.State.awaiting.inj (hstate.symm.trans hawaiting)
    rw [hnothing]
    exact ⟨rfl, ⟨sent.length, hlength, hseq⟩, rfl, hparser⟩

theorem Engaged.exchange (hd : d.lookup .hidSync = some (Report.ingesting ingest))
    (engaged : Engaged d ingest device sent served c r) (polls : Nat) (report : RawReport)
    (response : Bytes) :
    Forwarded d ingest device sent served report r
      (c.exchange polls .hidSync report.toList response r) := by
  have hfailed (e : Failure)
      (hstart : c.start .hidSync report.toList r = (.error e, c, r)) :
      Forwarded d ingest device sent served report r
        (c.exchange polls .hidSync report.toList response r) := by
    have hexchange : c.exchange polls .hidSync report.toList response r =
        ⟨some (.error e), response, c, r⟩ := by
      rw [Caller.exchange, hstart]
    rw [hexchange]
    exact .unsent served List.prefix_rfl engaged rfl rfl fun _ hok => by cases hok
  rcases c.start_cases .hidSync report.toList r with
    ⟨-, hstart⟩ | ⟨-, -, hstart⟩ | ⟨-, -, -, hstart⟩ | ⟨-, payload, hpayload, health, -, hstart⟩
  · exact hfailed _ hstart
  · exact hfailed _ hstart
  · exact hfailed _ hstart
  · have hframe : (⟨.request, .hidSync, c.nextSeq, payload⟩ : Frame) =
        Report.request (report, sent.length) := by
      rw [engaged.nextSeq, show payload = Report.payload report from Buffer.ext hpayload]
      rfl
    rw [hframe] at hstart
    let written := (Link.write (Report.request (report, sent.length)).encode r).2
    let waiting : Caller :=
      { c with
        health
        nextSeq := c.nextSeq + 1
        parser := .idle
        state := .awaiting .hidSync c.nextSeq
          (Ticks.offset (readTicks r) c.settings.responseTimeout) }
    have hexchange : c.exchange polls .hidSync report.toList response r =
        waiting.wait response written polls := by
      have hwrite : Link.write (Report.request (report, sent.length)).encode r =
          (.ok (), written) := rfl
      rw [Caller.exchange, hstart, Caller.transmit, hwrite]
    have hposts : written.requests.posts = r.requests.posts ++ [⟨sent.length,
        (Report.request (report, sent.length)).encode, r.requests.loses sent.length⟩] := by
      obtain ⟨mark, sound, -⟩ := engaged.sound
      dsimp only [written]
      rw [← sound.length]
      rfl
    have hwaiting : Engaged d ingest device (sent ++ [report]) served waiting written :=
      engaged.write report rfl rfl rfl
    obtain ⟨served', polled⟩ := hwaiting.wait hd response polls
    rw [hexchange]
    refine .sent served' polled.grows polled.engaged _ (polled.posts.trans hposts)
      (fun h => ?_) fun h len hok => ?_
    · exact (of_write_timely (polled.overdue.symm.trans h)).1
    · exact polled.answered (polled.overdue.symm.trans h) len sent.length hok (by simp)

theorem Engaged.send (hd : d.lookup .hidSync = some (Report.ingesting ingest))
    (engaged : Engaged d ingest device sent served c r) (polls : Nat) (report : RawReport)
    (response : Bytes) :
    Forwarded d ingest device sent served report r
      (c.send polls .hidSync report.toList response r) := by
  cases hbusy : c.isBusy with
  | false =>
    rw [Caller.send, hbusy]
    exact engaged.exchange hd polls report response
  | true =>
    obtain ⟨served', polled⟩ := engaged.wait hd Caller.scratch polls
    rw [Caller.send, hbusy, if_pos rfl]
    dsimp only
    split
    · exact .unsent served' polled.grows polled.engaged polled.posts polled.overdue
        fun _ hok => by cases hok
    · exact (polled.engaged.exchange hd polls report response).of_polled polled

end Relay

namespace Station

variable {τ : Type} {d : Directory τ} {ingest : Bytes → τ → τ} {device : τ}
  {sent : List RawReport} {served : List (RawReport × Nat)} {s : Station τ}

variable (d ingest device) in
/-- What holds at a station that has sent the given reports. -/
structure Sound (sent : List RawReport) (served : List (RawReport × Nat)) (s : Station τ) : Prop where
  engaged : Relay.Engaged d ingest device sent served s.caller s.relay
  reports : s.posted.map Errand.report = sent.map Buffer.toList
  written : ∀ (n : Nat) e, s.posted[n]? = some e →
    ∃ report, sent[n]? = some report ∧ e.written = [(Report.request (report, n)).encode]
  accepted : ∀ e ∈ s.errands, e.outcome = some (.ok ()) → e.written ≠ []
  refused : ∀ e ∈ s.errands, rawReportSize < e.report.length →
    e.outcome = some (.error .payloadTooLarge) ∧ e.written = []
  ingested : s.relay.overdue = false → ∀ (n : Nat) e, s.posted[n]? = some e →
    e.outcome = some (.ok ()) → n ∈ served.map Prod.snd

theorem sound_fresh {settings : Settings} {c : Caller} (hc : Caller.ofSettings settings = .ok c)
    (d : Directory τ) (ingest : Bytes → τ → τ) (device : τ) (losesRequest losesResponse : Nat → Bool) :
    (fresh c d device losesRequest losesResponse).Sound d ingest device [] [] where
  engaged := Relay.engaged_fresh hc d ingest device losesRequest losesResponse
  reports := rfl
  written _ _ he := by cases he
  accepted _ he := absurd he List.not_mem_nil
  refused _ he := absurd he List.not_mem_nil
  ingested _ _ _ he := by cases he

/-- A time in which no forward ends. -/
theorem Sound.go (sound : s.Sound d ingest device sent served) {served' : List (RawReport × Nat)}
    {caller : Caller} {relay : Relay τ} (hgrows : served <+: served')
    (engaged : Relay.Engaged d ingest device sent served' caller relay)
    (hoverdue : relay.overdue = s.relay.overdue) :
    { s with caller, relay }.Sound d ingest device sent served' where
  engaged := engaged
  reports := sound.reports
  written := sound.written
  accepted := sound.accepted
  refused := sound.refused
  ingested htimely n e he hok :=
    (hgrows.map Prod.snd).subset (sound.ingested (hoverdue.symm.trans htimely) n e he hok)

/-- A forward that wrote nothing. -/
theorem Sound.unsent (sound : s.Sound d ingest device sent served) {e : Errand}
    (hwritten : e.written = []) (hfailed : e.outcome ≠ some (.ok ()))
    (hlarge : rawReportSize < e.report.length → e.outcome = some (.error .payloadTooLarge)) :
    { s with errands := s.errands ++ [e] }.Sound d ingest device sent served := by
  have hposted : { s with errands := s.errands ++ [e] }.posted = s.posted := by
    simp [posted, hwritten]
  constructor
  case engaged => exact sound.engaged
  case reports =>
    rw [hposted]
    exact sound.reports
  case written =>
    rw [hposted]
    exact sound.written
  case accepted =>
    intro e' he' hok
    rcases List.mem_append.mp he' with he' | he'
    · exact sound.accepted e' he' hok
    · obtain rfl := List.mem_singleton.mp he'
      exact absurd hok hfailed
  case refused =>
    intro e' he' hsize
    rcases List.mem_append.mp he' with he' | he'
    · exact sound.refused e' he' hsize
    · obtain rfl := List.mem_singleton.mp he'
      exact ⟨hlarge hsize, hwritten⟩
  case ingested =>
    rw [hposted]
    exact sound.ingested

/-- A forward that wrote the report's request. -/
theorem Sound.post (sound : s.Sound d ingest device sent served) {served' : List (RawReport × Nat)}
    {caller : Caller} {relay : Relay τ} {report : RawReport} (hgrows : served <+: served')
    (engaged : Relay.Engaged d ingest device (sent ++ [report]) served' caller relay)
    (hoverdue : relay.overdue = false → s.relay.overdue = false) {e : Errand}
    (hreport : e.report = report.toList)
    (hwritten : e.written = [(Report.request (report, sent.length)).encode])
    (hserved : relay.overdue = false → e.outcome = some (.ok ()) →
      sent.length ∈ served'.map Prod.snd) :
    Sound d ingest device (sent ++ [report]) served'
      { caller, relay, errands := s.errands ++ [e] } := by
  have hposted : ({ caller, relay, errands := s.errands ++ [e] } : Station τ).posted =
      s.posted ++ [e] := by
    simp [posted, hwritten]
  have hlength : s.posted.length = sent.length := by
    simpa using congrArg List.length sound.reports
  -- The errand of a request is the new one or was there before.
  have hcases (n : Nat) (e' : Errand) (he' : (s.posted ++ [e])[n]? = some e') :
      s.posted[n]? = some e' ∨ (n = sent.length ∧ e' = e) := by
    have hmem : (e', n) ∈ (s.posted ++ [e]).zipIdx := List.mk_mem_zipIdx_iff_getElem?.mpr he'
    rw [List.zipIdx_append] at hmem
    rcases List.mem_append.mp hmem with hmem | hmem
    · exact .inl (List.mk_mem_zipIdx_iff_getElem?.mp hmem)
    · simp only [List.zipIdx_singleton, List.mem_singleton, hlength, Nat.zero_add] at hmem
      obtain ⟨rfl, rfl⟩ := Prod.mk.inj hmem
      exact .inr ⟨rfl, rfl⟩
  constructor
  case engaged => exact engaged
  case reports =>
    rw [hposted, List.map_append, List.map_append, sound.reports, List.map_singleton, hreport]
    rfl
  case written =>
    intro n e' he'
    rw [hposted] at he'
    rcases hcases n e' he' with he' | ⟨rfl, rfl⟩
    · obtain ⟨report', hreport', hwritten'⟩ := sound.written n e' he'
      have hn := (List.getElem?_eq_some_iff.mp hreport').1
      exact ⟨report', (List.getElem?_append_left hn).trans hreport', hwritten'⟩
    · exact ⟨report, by simp, hwritten⟩
  case accepted =>
    intro e' he' hok
    rcases List.mem_append.mp he' with he' | he'
    · exact sound.accepted e' he' hok
    · obtain rfl := List.mem_singleton.mp he'
      rw [hwritten]
      exact List.cons_ne_nil _ _
  case refused =>
    intro e' he' hsize
    rcases List.mem_append.mp he' with he' | he'
    · exact sound.refused e' he' hsize
    · obtain rfl := List.mem_singleton.mp he'
      rw [hreport] at hsize
      exact absurd hsize (Nat.not_lt.mpr report.length_le)
  case ingested =>
    intro htimely n e' he' hok
    rw [hposted] at he'
    rcases hcases n e' he' with he' | ⟨rfl, rfl⟩
    · exact (hgrows.map Prod.snd).subset (sound.ingested (hoverdue htimely) n e' he' hok)
    · exact hserved htimely hok

theorem Sound.forward (hd : d.lookup .hidSync = some (Report.ingesting ingest))
    (sound : s.Sound d ingest device sent served) (polls : Nat) (plan : List (Lull × Nat))
    (report : Bytes) :
    ∃ sent' served', (s.step (.forward polls plan report)).Sound d ingest device sent' served' := by
  have hplanned := sound.engaged.plan plan
  by_cases hsize : rawReportSize < report.length
  · have hforward : Report.forward polls s.caller report { s.relay with plan } =
        (some (.error .payloadTooLarge), s.caller, { s.relay with plan }) := by
      rw [Report.forward, Report.check, if_pos hsize]
    refine ⟨sent, served, ?_⟩
    rw [step, hforward]
    exact (sound.go List.prefix_rfl hplanned rfl).unsent (by simp) nofun fun _ => rfl
  · obtain ⟨report, rfl⟩ : ∃ r : RawReport, report = r.toList := ⟨⟨report, Nat.not_lt.mp hsize⟩, rfl⟩
    have hforwarded := hplanned.send hd polls report Caller.scratch
    have hforward : Report.forward polls s.caller report.toList { s.relay with plan } =
        s.caller.notify polls .hidSync report.toList { s.relay with plan } := by
      rw [Report.forward, Report.check, if_neg hsize]
    rw [step, hforward, Caller.notify]
    generalize s.caller.send polls .hidSync report.toList Caller.scratch { s.relay with plan } = p at *
    have hok (h : p.outcome.map (·.map fun _ => ()) = some (.ok ())) :
        ∃ len, p.outcome = some (.ok len) := by
      rcases houtcome : p.outcome with _ | _ | len <;> rw [houtcome] at h
      · cases h
      · cases h
      · exact ⟨len, rfl⟩
    cases hforwarded with
    | unsent served' grows engaged posts overdue failed =>
      refine ⟨sent, served', (sound.go grows engaged overdue).unsent ?_ (fun h => ?_) fun h => ?_⟩
      · simp [posts]
      · obtain ⟨len, hlen⟩ := hok h
        exact failed len hlen
      · exact absurd h hsize
    | sent served' grows engaged lost posts overdue answered =>
      refine ⟨sent ++ [report], served', sound.post grows engaged overdue rfl ?_ fun h hsome => ?_⟩
      · simp [posts]
      · obtain ⟨len, hlen⟩ := hok hsome
        exact answered h len hlen

theorem Sound.step (hd : d.lookup .hidSync = some (Report.ingesting ingest))
    (sound : s.Sound d ingest device sent served) (deed : Deed) :
    ∃ sent' served', (s.step deed).Sound d ingest device sent' served' := by
  cases deed with
  | forward polls plan report => exact sound.forward hd polls plan report
  | poll plan =>
    obtain ⟨served', polled⟩ := (sound.engaged.plan plan).poll hd Caller.scratch
    exact ⟨sent, served', sound.go polled.grows polled.engaged polled.overdue⟩
  | pass lull =>
    obtain ⟨hnext, mark, hsound, hawaits⟩ := sound.engaged
    obtain ⟨served', hgrows, hsound', hlater⟩ := hsound.pass hd lull
    refine ⟨sent, served', sound.go hgrows ⟨hnext, mark, hsound', ?_⟩ hlater.overdue⟩
    intro id seq deadline hstate
    rw [hlater.read, List.append_nil]
    exact hawaits id seq deadline hstate

theorem sound_run (hd : d.lookup .hidSync = some (Report.ingesting ingest))
    (sound : s.Sound d ingest device sent served) (deeds : List Deed) :
    ∃ sent' served', (s.run deeds).Sound d ingest device sent' served' := by
  induction deeds generalizing s sent served with
  | nil => exact ⟨sent, served, sound⟩
  | cons deed deeds ih =>
    obtain ⟨sent', served', sound'⟩ := sound.step hd deed
    exact ih sound'

/-- What the device has taken in are reports that went out, in their order and each at most once. As
long as no frame is 256 requests late, the report of every forward that succeeded is among them, at
its place. A report that is too large is refused, and nothing is written for it. -/
theorem run_ingests {settings : Settings} {c : Caller} (hc : Caller.ofSettings settings = .ok c)
    (hd : d.lookup .hidSync = some (Report.ingesting ingest)) (device : τ)
    (losesRequest losesResponse : Nat → Bool) (deeds : List Deed) :
    let s := (fresh c d device losesRequest losesResponse).run deeds
    ∃ taken : List (Errand × Nat), taken.Sublist s.posted.zipIdx ∧
      s.relay.callee.device = Report.ingestAll ingest device (taken.map (·.1.report)) ∧
      (∀ (n : Nat) e, s.posted[n]? = some e → ∃ report : RawReport, e.report = report.toList ∧
        e.written = [(Report.request (report, n)).encode]) ∧
      (∀ p ∈ s.relay.responses.posts, p.bytes = (Report.acknowledgement p.number).encode) ∧
      (∀ e ∈ s.errands, e.outcome = some (.ok ()) → e ∈ s.posted) ∧
      (s.relay.overdue = false → ∀ (n : Nat) e, s.posted[n]? = some e →
        e.outcome = some (.ok ()) → (e, n) ∈ taken) ∧
      ∀ e ∈ s.errands, rawReportSize < e.report.length →
        e.outcome = some (.error .payloadTooLarge) ∧ e.written = [] := by
  intro s
  obtain ⟨sent, served, sound⟩ :=
    sound_run hd (sound_fresh hc d ingest device losesRequest losesResponse) deeds
  replace sound : s.Sound d ingest device sent served := sound
  obtain ⟨-, mark, hrelay, -⟩ := sound.engaged
  -- The reports that were served are some of those that went out, by their numbers.
  have hserved : (served.map fun x => (x.1.toList, x.2)).Sublist
      (s.posted.zipIdx.map fun x => (x.1.report, x.2)) := by
    have hnumbered : s.posted.zipIdx.map (fun x => (x.1.report, x.2)) =
        sent.zipIdx.map fun x => (x.1.toList, x.2) := by
      have hreports := congrArg List.zipIdx sound.reports
      rw [List.zipIdx_map, List.zipIdx_map] at hreports
      exact hreports
    rw [hnumbered]
    exact (hrelay.kept.served_prefix.sublist.trans List.filter_sublist).map _
  obtain ⟨taken, htaken, hmap⟩ := List.sublist_map_iff.mp hserved
  refine ⟨taken, htaken, ?_, ?_, ?_, ?_, ?_, sound.refused⟩
  · have hreports : taken.map (·.1.report) = served.map (·.1.toList) := by
      have := congrArg (List.map Prod.fst) hmap
      rw [List.map_map, List.map_map] at this
      exact this.symm
    rw [hrelay.kept.callee, hreports]
  · intro n e he
    obtain ⟨report, hreport, hwritten⟩ := sound.written n e he
    have hsame := congrArg (·[n]?) sound.reports
    simp only [List.getElem?_map, he, hreport, Option.map_some, Option.some.injEq] at hsame
    exact ⟨report, hsame, hwritten⟩
  · exact fun p hp => (hrelay.kept.answers.posts p hp).1
  · intro e he hok
    exact List.mem_filter.mpr ⟨he, by simpa using sound.accepted e he hok⟩
  · intro htimely n e he hok
    have hn : n ∈ taken.map Prod.snd := by
      have hnumbers := congrArg (List.map Prod.snd) hmap
      rw [List.map_map, List.map_map] at hnumbers
      exact hnumbers ▸ sound.ingested htimely n e he hok
    obtain ⟨⟨e', n⟩, he', rfl⟩ := List.mem_map.mp hn
    have hplace := List.mk_mem_zipIdx_iff_getElem?.mp (htaken.subset he')
    obtain rfl : e' = e := Option.some.inj (hplace.symm.trans he)
    exact he'

def logging : Directory (List Bytes) :=
  ⟨[⟨.hidSync, Report.ingesting fun report log => log ++ [report]⟩]⟩

/-- The first report is lost, the second one is taken in but acknowledged late, the third one goes out
in the middle of that acknowledgement, and the fourth one is too large. -/
def lossyDeeds : List Deed :=
  let serve : Look := ⟨[64], 1⟩
  [.forward 1 [(⟨[], 20⟩, 0)] [0x0A], .forward 1 [(⟨[serve], 20⟩, 3), (⟨[], 40⟩, 0)] [0x0B],
    .forward 1 [(⟨[serve], 40⟩, 64)] [0x0C], .forward 1 [] (List.replicate 33 0)]

/-- Of reports that are lost or acknowledged late the one whose forward succeeds is taken in. -/
theorem lossy_report_taken :
    let s := (fresh Caller.plain logging [] (· == 0) fun _ => false).run lossyDeeds
    s.errands.map Errand.outcome = [some (.error .timeout), some (.error .timeout), some (.ok ()),
        some (.error .payloadTooLarge)] ∧
      s.relay.callee.device = [[0x0B], [0x0C]] ∧ s.relay.overdue = false ∧
      ∃ taken : List (Errand × Nat), taken.Sublist s.posted.zipIdx ∧
        ∃ e, (e, 2) ∈ taken ∧ e.report = [0x0C] := by
  intro s
  have houtcomes : s.errands.map Errand.outcome = [some (.error .timeout),
      some (.error .timeout), some (.ok ()), some (.error .payloadTooLarge)] := by decide +kernel
  have hdevice : s.relay.callee.device = [[0x0B], [0x0C]] := by decide +kernel
  have htimely : s.relay.overdue = false := by decide +kernel
  have hlast : (s.posted[2]?).map Errand.report = some [0x0C] := by decide +kernel
  have hsucceeds : (s.posted[2]?).map Errand.outcome = some (some (.ok ())) := by decide +kernel
  obtain ⟨taken, htaken, -, -, -, -, hingested, -⟩ :=
    run_ingests Caller.ofSettings_default (d := logging) rfl [] (· == 0) (fun _ => false) lossyDeeds
  obtain ⟨e, he, hreport⟩ := Option.map_eq_some_iff.mp hlast
  have hok : e.outcome = some (.ok ()) := by
    rw [he] at hsucceeds
    exact Option.some.inj hsucceeds
  exact ⟨houtcomes, hdevice, htimely, taken, htaken, e, hingested htimely 2 e he hok, hreport⟩

end Station

end HalfLink
