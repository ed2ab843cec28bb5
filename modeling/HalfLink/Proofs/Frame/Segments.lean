import HalfLink.Proofs.Frame.Delivery

/-! Where the frames that a receiver hands out stand in what it was fed. Each of them is the wire form
at a place of its own, behind those of the frames before it. -/
namespace HalfLink

/-- The bytes hold the frame's wire form from `place` on. -/
def Frame.StandsAt (f : Frame) (bytes : Bytes) (place : Nat) : Prop :=
  ∃ front behind, bytes = front ++ f.encode ++ behind ∧ front.length = place

theorem Frame.StandsAt.append {f : Frame} {bytes : Bytes} {place : Nat} (h : f.StandsAt bytes place)
    (more : Bytes) : f.StandsAt (bytes ++ more) place := by
  obtain ⟨front, behind, rfl, hplace⟩ := h
  exact ⟨front, behind ++ more, by simp only [List.append_assoc], hplace⟩

/-- The first frame of the plain reading stands somewhere, and the reading goes on behind it. -/
theorem scan_eq_cons {bytes u : Bytes} {f : Frame} {fs : List Frame}
    (h : scan bytes = (f :: fs, u)) :
    ∃ gap behind, bytes = gap ++ f.encode ++ behind ∧ scan behind = (fs, u) := by
  fun_induction scan bytes with
  | case1 => cases h
  | case2 rest g behind hread frames undecided hscan _ =>
    cases h
    exact ⟨[], behind, Opening.eq_encode_of_read hread, hscan⟩
  | case3 rest e hread ih =>
    obtain ⟨gap, behind, hrest, hscan⟩ := ih h
    exact ⟨frameStart :: gap, behind, congrArg (frameStart :: ·) hrest, hscan⟩
  | case4 rest hread => cases h
  | case5 byte rest hbyte ih =>
    obtain ⟨gap, behind, hrest, hscan⟩ := ih h
    exact ⟨byte :: gap, behind, congrArg (byte :: ·) hrest, hscan⟩

namespace Parser

theorem length_feedAll (p : Parser) (bytes : Bytes) : (p.feedAll bytes).1.length = bytes.length := by
  induction bytes generalizing p with
  | nil => rfl
  | cons byte rest ih => simp only [feedAll, List.length_cons, ih]

theorem verdict_eq_frame_iff {u : Bytes} {byte : UInt8} {f : Frame} :
    verdict u byte = .ok (some f) ↔ (scan (u ++ [byte])).1.head? = some f := by
  unfold verdict
  cases (scan (u ++ [byte])).1.head? with
  | some g => simp
  | none => cases rejection u byte <;> simp

/-- A frame that a byte completes stands in what was undecided before the byte, and what is undecided
behind the byte stands behind the frame. -/
theorem standsAt_of_verdict {front : Bytes} {byte : UInt8} {f : Frame}
    (h : verdict (scan front).2 byte = .ok (some f)) :
    ∃ place, f.StandsAt (front ++ [byte]) place ∧ front.length ≤ place + (scan front).2.length ∧
      place + f.encode.length + (scan (front ++ [byte])).2.length ≤ front.length + 1 := by
  obtain ⟨before, hfront⟩ := scan_suffix front
  rcases hscan : scan ((scan front).2 ++ [byte]) with ⟨_ | ⟨g, fs⟩, left⟩
  · rw [verdict_eq_frame_iff, hscan] at h
    cases h
  obtain rfl : g = f := by
    rw [verdict_eq_frame_iff, hscan] at h
    exact Option.some.inj h
  obtain ⟨gap, behind, hgap, hbehind⟩ := scan_eq_cons hscan
  have hleft : left.length ≤ behind.length := by
    have := (scan_suffix behind).length_le
    rwa [hbehind] at this
  have hwhole : front ++ [byte] = (before ++ gap) ++ g.encode ++ behind := by
    calc front ++ [byte] = before ++ ((scan front).2 ++ [byte]) := by
          rw [← List.append_assoc, hfront]
      _ = (before ++ gap) ++ g.encode ++ behind := by
          rw [hgap]
          simp only [List.append_assoc]
  have hsize := congrArg List.length hwhole
  have hbefore := congrArg List.length hfront
  simp only [List.length_append, List.length_singleton] at hsize hbefore
  refine ⟨(before ++ gap).length, ⟨before ++ gap, behind, hwhole, rfl⟩, ?_, ?_⟩
  · rw [List.length_append]
    omega
  · rw [scan_append, hscan, List.length_append]
    dsimp only
    omega

/-- The frame that the byte at position `i` of all the bytes completes. -/
def CompletedAt (bytes : Bytes) (i : Nat) (f : Frame) : Prop :=
  (idle.feedAll bytes).1[i]? = some (.ok (some f))

theorem completedAt_concat {front : Bytes} {byte : UInt8} {i : Nat} {f : Frame} :
    CompletedAt (front ++ [byte]) i f ↔
      CompletedAt front i f ∨ i = front.length ∧ verdict (scan front).2 byte = .ok (some f) := by
  have hlength := length_feedAll idle front
  have hlast : ((idle.feedAll front).2.feedAll [byte]).1 = [verdict (scan front).2 byte] := by
    rw [feedAll_idle, feedAll, feed_behind (pending_scan front)]
    rfl
  rw [CompletedAt, CompletedAt, feedAll_append, hlast, List.getElem?_append]
  rcases Nat.lt_trichotomy i front.length with hi | rfl | hi
  · simp [hlength, hi, hi.ne]
  · simp [hlength]
  · simp [hlength, hi.ne', Nat.not_lt.mpr hi.le, Nat.sub_ne_zero_of_lt hi]

/-- Places of the frames handed out so far, of which none reaches into what is undecided. -/
structure Placing (bytes : Bytes) (place : Nat → Nat) : Prop where
  stands : ∀ i f, CompletedAt bytes i f → f.StandsAt bytes (place i)
  ended : ∀ i f, CompletedAt bytes i f → place i + f.encode.length ≤ i + 1
  decided : ∀ i f, CompletedAt bytes i f →
    place i + f.encode.length + (scan bytes).2.length ≤ bytes.length
  apart : ∀ i f j g, i < j → CompletedAt bytes i f → CompletedAt bytes j g →
    place i + f.encode.length ≤ place j

theorem lt_of_completedAt {bytes : Bytes} {i : Nat} {f : Frame} (h : CompletedAt bytes i f) :
    i < bytes.length := by
  obtain ⟨hi, -⟩ := List.getElem?_eq_some_iff.mp h
  rwa [length_feedAll] at hi

/-- Earlier frames keep their places when a byte is added, and what it completes stands behind them. -/
theorem Placing.concat {front : Bytes} {place : Nat → Nat} (h : Placing front place)
    (byte : UInt8) : ∃ place', Placing (front ++ [byte]) place' := by
  have hrest : (scan (front ++ [byte])).2.length ≤ (scan front).2.length + 1 := by
    have := (scan_suffix ((scan front).2 ++ [byte])).length_le
    rwa [List.length_append, List.length_singleton, ← congrArg Prod.snd (scan_append front [byte])]
      at this
  have hlength : (front ++ [byte]).length = front.length + 1 := by
    rw [List.length_append, List.length_singleton]
  obtain ⟨new, hnew⟩ : ∃ new, ∀ f, verdict (scan front).2 byte = .ok (some f) →
      f.StandsAt (front ++ [byte]) new ∧ front.length ≤ new + (scan front).2.length ∧
        new + f.encode.length + (scan (front ++ [byte])).2.length ≤ front.length + 1 := by
    by_cases hframe : ∃ f, verdict (scan front).2 byte = .ok (some f)
    · obtain ⟨f, hf⟩ := hframe
      obtain ⟨new, hstands⟩ := standsAt_of_verdict hf
      refine ⟨new, fun g hg => ?_⟩
      rw [hf] at hg
      cases hg
      exact hstands
    · exact ⟨0, fun f hf => absurd ⟨f, hf⟩ hframe⟩
  -- The byte's position gets the new place, and every earlier position keeps its own.
  let place' : Nat → Nat := fun i => if i = front.length then new else place i
  have hcases : ∀ {i g}, CompletedAt (front ++ [byte]) i g →
      (CompletedAt front i g ∧ place' i = place i) ∨
        (i = front.length ∧ place' i = new ∧ verdict (scan front).2 byte = .ok (some g)) := by
    intro i g hg
    rcases completedAt_concat.mp hg with hearlier | ⟨rfl, hlast⟩
    · exact .inl ⟨hearlier, if_neg (lt_of_completedAt hearlier).ne⟩
    · exact .inr ⟨rfl, if_pos rfl, hlast⟩
  refine ⟨place', ⟨?_, ?_, ?_, ?_⟩⟩
  · intro i g hg
    rcases hcases hg with ⟨hg, hplace⟩ | ⟨-, hplace, hg⟩
    · rw [hplace]
      exact (h.stands i g hg).append [byte]
    · rw [hplace]
      exact (hnew g hg).1
  · intro i g hg
    rcases hcases hg with ⟨hg, hplace⟩ | ⟨rfl, hplace, hg⟩
    · rw [hplace]
      exact h.ended i g hg
    · obtain ⟨-, -, hend⟩ := hnew g hg
      rw [hplace]
      omega
  · intro i g hg
    rw [hlength]
    rcases hcases hg with ⟨hg, hplace⟩ | ⟨-, hplace, hg⟩
    · have := h.decided i g hg
      rw [hplace]
      omega
    · rw [hplace]
      exact (hnew g hg).2.2
  · intro i f j g hij hf hg
    rcases hcases hf with ⟨hf, hplace⟩ | ⟨rfl, -, -⟩
    · rcases hcases hg with ⟨hg, hplace'⟩ | ⟨-, hplace', hg⟩
      · rw [hplace, hplace']
        exact h.apart i f j g hij hf hg
      · have := h.decided i f hf
        obtain ⟨-, hbegin, -⟩ := hnew g hg
        rw [hplace, hplace']
        omega
    · have := lt_of_completedAt hg
      omega

theorem exists_placing (bytes : Bytes) : ∃ place, Placing bytes place := by
  induction bytes using List.reverseRecOn with
  | nil => exact ⟨id, by constructor <;> simp [CompletedAt, feedAll]⟩
  | append_singleton front byte ih =>
    obtain ⟨place, hplacing⟩ := ih
    exact hplacing.concat byte

/-- Each frame that a byte completes is the wire form at a place of the bytes up to this one, and the
places of two frames come in the frames' order and do not overlap. -/
theorem completed_places (bytes : Bytes) :
    ∃ place : Nat → Nat, ∀ i f, (idle.feedAll bytes).1[i]? = some (.ok (some f)) →
      f.StandsAt bytes (place i) ∧ f.lengthByte.toNat = f.payload.size ∧
      f.payload.size ≤ maxPayloadSize ∧ place i + f.encode.length ≤ i + 1 ∧
      ∀ j g, i < j → (idle.feedAll bytes).1[j]? = some (.ok (some g)) →
        place i + f.encode.length ≤ place j := by
  obtain ⟨place, hplacing⟩ := exists_placing bytes
  exact ⟨place, fun i f hf => ⟨hplacing.stands i f hf, f.toNat_lengthByte, f.payload.length_le,
    hplacing.ended i f hf, fun j g hij hg => hplacing.apart i f j g hij hf hg⟩⟩

end Parser

end HalfLink
