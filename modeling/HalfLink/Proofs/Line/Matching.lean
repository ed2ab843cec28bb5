import HalfLink.Proofs.Line.Invariant

/-! Which response the caller takes for the answer. The rest of a response that was cut off by a new
request is read as if it began a frame, and what it holds can pass for the answer. -/
namespace HalfLink

namespace Halves

variable {τ : Type}

/-- What the responses to all requests so far hold behind the place where the last request found the
line. -/
def ahead (d : Directory τ) (device : τ) (h : Halves τ) : Bytes :=
  (wire (d.responses device h.asked)).drop h.mark

/-- A request with 256 later ones behind it has its response read, if it gets one. -/
def Timely (d : Directory τ) (device : τ) (h : Halves τ) : Prop :=
  (wire (d.responses device (h.asked.take (h.asked.length - 256)))).length ≤ h.responses.read.length

/-- The last request went out in the middle of an earlier response, with a start byte among the bytes
that were still to come. -/
def Cut (d : Directory τ) (device : τ) (h : Halves τ) : Prop :=
  ∃ before f behind front back, d.responses device h.asked.dropLast = before ++ f :: behind ∧
    f.encode = front ++ back ∧ front ≠ [] ∧ h.mark = (wire before).length + front.length ∧
    frameStart ∈ back

/-- What lies ahead is read as an answer to the last request before its own response. -/
def Misled (d : Directory τ) (device : τ) (h : Halves τ) : Prop :=
  ∃ earlier id request f rest, h.asked = earlier ++ [(id, request)] ∧
    Parser.answerIn id (UInt8.ofNat earlier.length) .idle (h.ahead d device) = some (f, rest) ∧
    d.output device h.asked earlier.length ≠ some f.payload

variable {d : Directory τ} {device : τ} {h : Halves τ}

/-- An answer is the first one in what lies ahead, whatever the reads and however much of it has been
written. -/
theorem Sound.answer_ahead (sound : h.Sound d device) {now : Ticks 32} {grants : List Nat}
    {response : Bytes} {len : Nat} (hok : (h.poll now grants response).outcome = some (.ok len)) :
    ∃ earlier id request deadline f rest, h.asked = earlier ++ [(id, request)] ∧
      h.caller.state = .awaiting id (UInt8.ofNat earlier.length) deadline ∧
      Parser.answerIn id (UInt8.ofNat earlier.length) .idle (h.ahead d device) = some (f, rest) ∧
      (h.poll now grants response).response.take len = f.payload.toList := by
  cases hstate : h.caller.state with
  | idle => simp [Halves.poll, Caller.poll, hstate] at hok
  | awaiting id seq deadline =>
    obtain ⟨⟨earlier, request, hasked, rfl⟩, hnone, hparser⟩ :=
      sound.awaiting id seq deadline hstate
    obtain ⟨bytes, w', hpending, hbytes, hend⟩ :=
      Caller.poll_line hstate response (h.near now grants)
    replace hpending : h.responses.pending = bytes ++ w'.inbound.pending := hpending
    cases hanswer : Parser.answerIn id (UInt8.ofNat earlier.length) h.caller.parser bytes with
    | none =>
      rw [hanswer] at hend
      replace hend : h.poll now grants response = _ := hend
      rw [hend, Caller.checkDeadline] at hok
      dsimp only at hok
      split at hok <;> simp at hok
    | some found =>
      obtain ⟨f, rest⟩ := found
      rw [hanswer] at hend
      obtain ⟨parser, hpoll⟩ := hend
      replace hpoll : h.poll now grants response = _ := hpoll
      have htaken : (h.poll now grants response).response.take len = f.payload.toList := by
        rw [hpoll, Caller.complete] at hok ⊢
        dsimp only at hok ⊢
        split at hok
        · simp at hok
        · rename_i hfits
          obtain rfl : f.payload.size = len := by simpa using hok
          rw [if_neg hfits]
          simp [Bytes.splice, Buffer.size]
      have hwritten : h.responses.read ++ bytes <+: wire (d.responses device h.asked) := by
        refine List.IsPrefix.trans ?_ sound.written_prefix
        rw [Channel.written, hpending, ← List.append_assoc]
        exact List.prefix_append _ _
      obtain ⟨more, hmore⟩ := hwritten
      have hread : Parser.answerIn id (UInt8.ofNat earlier.length) .idle (h.ahead d device) =
          some (f, rest ++ more) := by
        have hmark := sound.mark_le
        rw [ahead, ← hmore, List.drop_append_of_le_length (by simp; omega),
          List.drop_append_of_le_length hmark, List.append_assoc,
          Parser.answerIn_append_none hnone, ← hparser, Parser.answerIn_append_some hanswer]
      exact ⟨earlier, id, request, deadline, f, rest ++ more, hasked, rfl, hread, htaken⟩

theorem step_mark (h : Halves τ) (move : Move) :
    ((h.step move).asked = h.asked ∧ (h.step move).mark = h.mark) ∨
      (h.step move).mark = (h.step move).responses.read.length := by
  cases move with
  | start now id request =>
    simp only [step]
    split
    · exact .inr rfl
    · exact .inl ⟨rfl, rfl⟩
  | poll now grants response => exact .inl ⟨rfl, rfl⟩
  | abandon => exact .inl ⟨rfl, rfl⟩
  | serve grants reads => exact .inl ⟨rfl, rfl⟩

theorem run_concat (h : Halves τ) (moves : List Move) (move : Move) :
    h.run (moves ++ [move]) = (h.run moves).step move := by
  rw [run, run, List.foldl_concat]

theorem le_mark_of_timely (c : Caller) (moves : List Move)
    (htimely : ∀ front, front <+: moves → ((fresh c d device).run front).Timely d device) :
    let h := (fresh c d device).run moves
    (wire (d.responses device (h.asked.take (h.asked.length - 256)))).length ≤ h.mark := by
  induction moves using List.reverseRecOn with
  | nil => simp [run, fresh, Directory.responses]
  | append_singleton moves move ih =>
    have hbefore := ih fun front hfront => htimely front (hfront.trans (List.prefix_append _ _))
    have hnow := htimely _ (List.prefix_refl _)
    rw [run_concat] at hnow ⊢
    rcases step_mark ((fresh c d device).run moves) move with ⟨hasked, hmark⟩ | hmark
    · simpa only [hasked, hmark] using hbefore
    · dsimp only
      rw [hmark]
      exact hnow

/-- Behind frames with other numbers, and bytes that start none, the answer is the response itself. -/
theorem answerIn_response {earlier : List Query} {id : TransactionId} {request : Payload}
    {quiet : Bytes} {fs : List Frame} (hquiet : frameStart ∉ quiet)
    (hfs : ∀ f ∈ fs, f.seq ≠ UInt8.ofNat earlier.length) {f : Frame} {rest : Bytes}
    (hanswer : Parser.answerIn id (UInt8.ofNat earlier.length) .idle (quiet ++ (wire fs ++
      wire (d.response? device (earlier ++ [(id, request)]) earlier.length).toList)) =
        some (f, rest)) :
    d.output device (earlier ++ [(id, request)]) earlier.length = some f.payload := by
  have hpass : ∀ f ∈ fs, ¬ f.answers id (UInt8.ofNat earlier.length) := by
    intro f hf hanswers
    exact hfs f hf (of_decide_eq_true hanswers).2.2
  rw [Parser.answerIn_quiet hquiet, Parser.answerIn_wire_none hpass] at hanswer
  have hasked : (earlier ++ [(id, request)])[earlier.length]? = some (id, request) := by simp
  cases hout : d.output device (earlier ++ [(id, request)]) earlier.length with
  | none => simp [Directory.response?, hout, Parser.answerIn] at hanswer
  | some payload =>
    have hown : (Frame.response id (UInt8.ofNat earlier.length) payload).answers id
        (UInt8.ofNat earlier.length) := by
      simp [Frame.answers, Frame.response]
    simp only [Directory.response?, hasked, hout, Option.map_some, Option.toList_some, wire_cons,
      Parser.answerIn_encode, if_pos hown] at hanswer
    obtain ⟨rfl, -⟩ := Prod.mk.inj (Option.some.inj hanswer)
    rfl

/-- If the numbers do not come round, only a response that was cut off misleads the caller. -/
theorem Sound.cut_of_misled (sound : h.Sound d device)
    (hmark : (wire (d.responses device (h.asked.take (h.asked.length - 256)))).length ≤ h.mark)
    (hmisled : h.Misled d device) : h.Cut d device := by
  obtain ⟨earlier, id, request, f, rest, hasked, hanswer, hother⟩ := hmisled
  have hlast : h.asked.dropLast = earlier := by rw [hasked, List.dropLast_concat]
  have hbound := sound.mark_le_before
  rw [hlast] at hbound
  have hold : h.asked.take (h.asked.length - 256) = earlier.take (earlier.length - 255) := by
    have hlength : (earlier ++ [(id, request)]).length - 256 = earlier.length - 255 := by
      rw [List.length_append, List.length_singleton]
      omega
    rw [hasked, hlength, List.take_append_of_le_length (Nat.sub_le _ _)]
  rw [hold] at hmark
  -- What 255 or more requests stand behind lies before the mark; the numbers of the rest differ.
  obtain ⟨recent, hrecent, hseq⟩ := d.responses_append device
    (earlier.take (earlier.length - 255)) (earlier.drop (earlier.length - 255))
  rw [List.take_append_drop] at hrecent
  have hlength : h.mark - (wire (d.responses device (earlier.take (earlier.length - 255)))).length ≤
      (wire recent).length := by
    rw [hrecent, wire_append, List.length_append] at hbound
    omega
  obtain ⟨before, after, back, hsplit, hdrop, hback⟩ := drop_wire hlength
  have hahead : h.ahead d device = back ++ (wire after ++
      wire (d.response? device (earlier ++ [(id, request)]) earlier.length).toList) := by
    rw [ahead, hasked, d.responses_concat, hrecent, wire_append, wire_append, List.append_assoc,
      List.drop_append, List.drop_eq_nil_of_le hmark, List.nil_append,
      List.drop_append_of_le_length hlength, hdrop, List.append_assoc]
  have hfs : ∀ g ∈ after, g.seq ≠ UInt8.ofNat earlier.length := by
    intro g hg
    obtain ⟨n, hle, hlt, hn⟩ := hseq g (by rw [hsplit]; exact List.mem_append_right _ hg)
    rw [hn]
    simp only [List.length_take, List.length_drop] at hle hlt
    exact ofNat_ne_of_near (by omega) (by omega)
  -- Without a start byte the rest of the cut response would go by unread.
  have hstart : frameStart ∈ back := by
    by_contra hquiet
    rw [hahead] at hanswer
    rw [hasked] at hother
    exact hother (answerIn_response hquiet hfs hanswer)
  rcases hback with rfl | ⟨behind, g, front, hbefore, hg, hfront, hplace⟩
  · cases hstart
  · refine ⟨d.responses device (earlier.take (earlier.length - 255)) ++ behind, g, after, front,
      back, ?_, hg, hfront, ?_, hstart⟩
    · rw [hlast, hrecent, hsplit, hbefore]
      simp
    · rw [wire_append, List.length_append]
      omega

/-- A poll that gives an answer gives the handler's output on the request in flight unless what lies
ahead misleads it; and if no response is 256 requests late, only one that was cut off before a start
byte does so. -/
theorem poll_own_iff {s : Settings} {c : Caller} (hc : Caller.ofSettings s = .ok c)
    (d : Directory τ) (device : τ) (moves : List Move) (now : Ticks 32) (grants : List Nat)
    (response : Bytes) (len : Nat)
    (hok : (((fresh c d device).run moves).poll now grants response).outcome = some (.ok len)) :
    let h := (fresh c d device).run moves
    ∃ earlier id request deadline, h.asked = earlier ++ [(id, request)] ∧
      h.caller.state = .awaiting id (UInt8.ofNat earlier.length) deadline ∧
      ((d.output device h.asked earlier.length).map Buffer.toList =
        some ((h.poll now grants response).response.take len) ↔ ¬ h.Misled d device) ∧
      ((∀ front, front <+: moves → ((fresh c d device).run front).Timely d device) →
        h.Misled d device → h.Cut d device) := by
  intro h
  have sound : h.Sound d device := (sound_fresh hc d device).run moves
  obtain ⟨earlier, id, request, deadline, f, rest, hasked, hstate, hanswer, htaken⟩ :=
    sound.answer_ahead hok
  refine ⟨earlier, id, request, deadline, hasked, hstate, ?_, fun htimely =>
    sound.cut_of_misled (le_mark_of_timely c moves htimely)⟩
  rw [htaken]
  constructor
  · rintro hown ⟨earlier', id', request', f', rest', hasked', hanswer', hother⟩
    obtain ⟨rfl, hq⟩ := List.append_inj' (hasked.symm.trans hasked') rfl
    obtain ⟨rfl, rfl⟩ := Prod.mk.inj (List.cons.inj hq).1
    rw [hanswer] at hanswer'
    obtain ⟨rfl, -⟩ := Prod.mk.inj (Option.some.inj hanswer')
    obtain ⟨payload, hpayload, hbytes⟩ := Option.map_eq_some_iff.mp hown
    exact hother (hpayload.trans (congrArg some (Buffer.ext hbytes)))
  · intro hfair
    have hown : d.output device h.asked earlier.length = some f.payload := by
      by_contra hother
      exact hfair ⟨earlier, id, request, f, rest, hasked, hanswer, hother⟩
    rw [hown, Option.map_some]

def echo : Directory Unit :=
  ⟨[⟨⟨0x10⟩, fun request response device => (response.append request, device)⟩]⟩

/-- The second request goes out when five bytes of the first response have been read, whose payload
is itself a response to request number 1. -/
def cutRun : List Move :=
  let forged : Frame := .response ⟨0x10⟩ 1 ⟨[0x58], by decide⟩
  [.start 0 ⟨0x10⟩ forged.encode, .serve [64] 1, .poll 0 [5] [], .abandon, .start 1 ⟨0x10⟩ [0x00]]

/-- The caller can be misled by a response that it gave up. -/
theorem misled_by_cut_response :
    let h := (fresh Caller.plain echo ()).run cutRun
    (h.poll 1 [64] [0x00]).outcome = some (.ok 1) ∧
      (h.poll 1 [64] [0x00]).response.take 1 = [0x58] ∧
      (echo.output () h.asked 1).map Buffer.toList = some [0x00] ∧
      h.Misled echo () ∧ h.Cut echo () := by
  intro h
  have hok : (h.poll 1 [64] [0x00]).outcome = some (.ok 1) := by decide +kernel
  have hforged : (h.poll 1 [64] [0x00]).response.take 1 = [0x58] := by decide +kernel
  have houtput : (echo.output () h.asked 1).map Buffer.toList = some [0x00] := by decide +kernel
  have htimely : ∀ front ∈ cutRun.inits,
      (wire (echo.responses () (((fresh Caller.plain echo ()).run front).asked.take
        (((fresh Caller.plain echo ()).run front).asked.length - 256)))).length ≤
          ((fresh Caller.plain echo ()).run front).responses.read.length := by decide +kernel
  obtain ⟨earlier, id, request, deadline, hasked, -, hown, hcut⟩ :=
    poll_own_iff Caller.ofSettings_default echo () cutRun 1 [64] [0x00] 1 hok
  have hmisled : h.Misled echo () := by
    by_contra hfair
    have hlength : h.asked.length = 2 := by decide +kernel
    have hlast : earlier.length = 1 := by
      rw [hasked, List.length_append, List.length_singleton] at hlength
      omega
    have hsame := hown.mpr hfair
    rw [hlast, houtput, hforged] at hsame
    exact absurd hsame (by decide)
  exact ⟨hok, hforged, houtput, hmisled,
    hcut (fun front hfront => htimely front ((List.mem_inits _ _).mpr hfront)) hmisled⟩

end Halves

end HalfLink
