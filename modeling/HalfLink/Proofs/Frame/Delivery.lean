import HalfLink.Proofs.Frame.Resync

/-! The frames that feeding hands out, against those of the plain reading. A byte may settle several
frames at once, when it makes a frame invalid that holds them; only the first of them is handed out.
-/
namespace HalfLink.Parser

def frames (answers : List (Except FrameError (Option Frame))) : List Frame :=
  answers.filterMap fun
    | .ok frame? => frame?
    | .error _ => none

/-- The frames that a fresh parser hands out over all the bytes. -/
def delivered (bytes : Bytes) : List Frame := frames (idle.feedAll bytes).1

/-- The frames that the plain reading finds with the byte and not before it. -/
def settled (front : Bytes) (byte : UInt8) : List Frame :=
  (scan (front ++ [byte])).1.drop (scan front).1.length

theorem scan_concat (front : Bytes) (byte : UInt8) :
    (scan (front ++ [byte])).1 = (scan front).1 ++ settled front byte := by
  rw [settled, scan_append, List.drop_left]

theorem settled_eq (front : Bytes) (byte : UInt8) :
    settled front byte = (scan ((scan front).2 ++ [byte])).1 := by
  rw [settled, scan_append, List.drop_left]

theorem frames_verdict (front : Bytes) (byte : UInt8) :
    frames [verdict (scan front).2 byte] = (settled front byte).head?.toList := by
  rw [settled_eq, verdict]
  cases (scan ((scan front).2 ++ [byte])).1.head? with
  | some f => rfl
  | none => cases rejection (scan front).2 byte <;> rfl

theorem frames_append (a b : List (Except FrameError (Option Frame))) :
    frames (a ++ b) = frames a ++ frames b := List.filterMap_append

theorem frames_feed (front : Bytes) (byte : UInt8) :
    frames [((idle.feedAll front).2.feed byte).1] = (settled front byte).head?.toList := by
  rw [feedAll_idle, feed_behind (pending_scan front), frames_verdict]

theorem delivered_concat (front : Bytes) (byte : UInt8) :
    delivered (front ++ [byte]) = delivered front ++ (settled front byte).head?.toList := by
  rw [delivered, feedAll_append, frames_append, ← frames_feed]
  rfl

theorem delivered_sublist (bytes : Bytes) : (delivered bytes).Sublist (scan bytes).1 := by
  induction bytes using List.reverseRecOn with
  | nil => exact List.nil_sublist _
  | append_singleton front byte ih =>
    rw [delivered_concat, scan_concat]
    refine ih.append ?_
    cases settled front byte <;> simp

theorem settled_eq_head_iff (front : Bytes) (byte : UInt8) :
    (settled front byte).head?.toList = settled front byte ↔ (settled front byte).length ≤ 1 := by
  match settled front byte with
  | [] | [_] => simp
  | _ :: _ :: _ => simp

theorem delivered_concat_eq_iff (front : Bytes) (byte : UInt8) :
    delivered (front ++ [byte]) = (scan (front ++ [byte])).1 ↔
      delivered front = (scan front).1 ∧ (settled front byte).length ≤ 1 := by
  rw [delivered_concat, scan_concat, ← settled_eq_head_iff]
  constructor
  · intro heq
    have hfront := (delivered_sublist front).length_le
    have hhead : (settled front byte).head?.toList.length ≤ (settled front byte).length := by
      cases settled front byte <;> simp
    have hlength := congrArg List.length heq
    simp only [List.length_append] at hlength
    exact List.append_inj heq (by omega)
  · rintro ⟨hfront, hhead⟩
    rw [hfront, hhead]

/-- Each byte hands out the first frame that it settles, so what is handed out lacks the frames that
a byte settles beyond its first. No frame is missing exactly when no byte settles two. -/
theorem delivered_eq_scan_iff (bytes : Bytes) :
    (∀ front byte, frames [((idle.feedAll front).2.feed byte).1] =
        (settled front byte).head?.toList) ∧
      (delivered bytes).Sublist (scan bytes).1 ∧
      (delivered bytes = (scan bytes).1 ↔
        ∀ front byte, front ++ [byte] <+: bytes → (settled front byte).length ≤ 1) := by
  refine ⟨frames_feed, delivered_sublist bytes, ?_⟩
  induction bytes using List.reverseRecOn with
  | nil => simp [delivered, frames, feedAll, scan]
  | append_singleton front byte ih =>
    rw [delivered_concat_eq_iff, ih]
    constructor
    · rintro ⟨hfront, hbyte⟩ front' byte' hbefore
      rcases List.prefix_concat_iff.mp hbefore with heq | hbefore
      · obtain ⟨rfl, hlast⟩ := List.append_inj' heq rfl
        obtain rfl := List.singleton_inj.mp hlast
        exact hbyte
      · exact hfront front' byte' hbefore
    · intro h
      exact ⟨fun front' byte' hbefore => h front' byte' (hbefore.trans (List.prefix_append _ _)),
        h front byte List.prefix_rfl⟩

private def numbered (seq : UInt8) (payload : Bytes) (h : payload.length ≤ maxPayloadSize) : Frame :=
  ⟨.request, ⟨0x10⟩, seq, ⟨payload, h⟩⟩

/-- Four requests, of which the first lost its start byte and has one in its payload. -/
def maimed : Bytes :=
  (numbered 1 [0xAA, 0x0A, 0x01] (by decide)).encode.tail ++
    ((numbered 2 [] (by decide)).encode ++ (numbered 3 [] (by decide)).encode ++
      (numbered 4 [0x01] (by decide)).encode)

/-- One lost byte can cost a frame that it did not fall in. -/
theorem delivered_ne_scan :
    (scan maimed).1.map (·.seq) = [2, 3, 4] ∧ (delivered maimed).map (·.seq) = [2, 4] := by
  decide +kernel

end HalfLink.Parser
