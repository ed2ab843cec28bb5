import HalfLink.Proofs.Frame.Opening

/-! The plain reading of a byte string, read in two parts: what the first part leaves undecided is
all that the second part needs of it. -/
namespace HalfLink

theorem scan_frame {rest behind : Bytes} {f : Frame} (h : Opening.read rest = .frame f behind) :
    scan (frameStart :: rest) = (f :: (scan behind).1, (scan behind).2) := by
  rw [scan, if_pos rfl]
  split <;> simp_all

theorem scan_invalid {rest : Bytes} {e : FrameError} (h : Opening.read rest = .invalid e) :
    scan (frameStart :: rest) = scan rest := by
  rw [scan, if_pos rfl]
  split <;> simp_all

theorem scan_undecided {rest : Bytes} (h : Opening.read rest = .undecided) :
    scan (frameStart :: rest) = ([], frameStart :: rest) := by
  rw [scan, if_pos rfl]
  split <;> simp_all

theorem scan_cons_of_ne {byte : UInt8} (h : byte ≠ frameStart) (rest : Bytes) :
    scan (byte :: rest) = scan rest := by
  rw [scan, if_neg h]

theorem scan_append (a b : Bytes) :
    scan (a ++ b) = ((scan a).1 ++ (scan ((scan a).2 ++ b)).1, (scan ((scan a).2 ++ b)).2) := by
  fun_induction scan a with
  | case1 => simp
  | case2 rest f behind hread frames undecided hscan ih =>
    have hmore := Opening.read_append rest b (by simp [hread])
    rw [hread] at hmore
    simp only [List.cons_append, scan_frame hmore, ih, hscan]
  | case3 rest e hread ih =>
    have hmore := Opening.read_append rest b (by simp [hread])
    rw [hread] at hmore
    rw [List.cons_append, scan_invalid hmore, ih]
  | case4 rest hread => simp
  | case5 byte rest hbyte ih => rw [List.cons_append, scan_cons_of_ne hbyte, ih]

/-- Bytes that could still open a frame, or none. -/
def Pending : Bytes → Prop
  | [] => True
  | byte :: rest => byte = frameStart ∧ Opening.read rest = .undecided

theorem Pending.scan_eq {bytes : Bytes} (h : Pending bytes) : scan bytes = ([], bytes) := by
  cases bytes with
  | nil => rw [scan]
  | cons byte rest =>
    obtain ⟨rfl, hread⟩ := h
    exact scan_undecided hread

theorem Pending.eq_nil_or {bytes : Bytes} (h : Pending bytes) :
    bytes = [] ∨ ∃ rest, bytes = frameStart :: rest ∧ Opening.read rest = .undecided := by
  cases bytes with
  | nil => exact .inl rfl
  | cons byte rest => exact .inr ⟨rest, by rw [h.1], h.2⟩

theorem Pending.length_le {bytes : Bytes} (h : Pending bytes) : bytes.length ≤ 255 := by
  cases bytes with
  | nil => simp
  | cons byte rest => exact Nat.succ_le_succ (Opening.length_le_of_undecided h.2)

theorem pending_scan (bytes : Bytes) : Pending (scan bytes).2 := by
  fun_induction scan bytes with
  | case1 => trivial
  | case2 rest f behind hread frames undecided hscan ih => rwa [hscan] at ih
  | case3 rest e hread ih => exact ih
  | case4 rest hread => exact ⟨rfl, hread⟩
  | case5 byte rest hbyte ih => exact ih

theorem scan_suffix (bytes : Bytes) : (scan bytes).2 <:+ bytes := by
  fun_induction scan bytes with
  | case1 => exact List.suffix_rfl
  | case2 rest f behind hread frames undecided hscan ih =>
    rw [hscan] at ih
    rw [Opening.eq_encode_of_read hread]
    exact ih.trans (List.suffix_append _ _)
  | case3 rest e hread ih => exact ih.trans (List.suffix_cons _ _)
  | case4 rest hread => exact List.suffix_rfl
  | case5 byte rest hbyte ih => exact ih.trans (List.suffix_cons _ _)

/-- What the reading leaves undecided could still open a frame, and the bytes end with it. -/
theorem undecided_of_scan {bytes u : Bytes} {fs : List Frame} (h : scan bytes = (fs, u)) :
    Pending u ∧ u <:+ bytes := by
  have hpending := pending_scan bytes
  have hsuffix := scan_suffix bytes
  rw [h] at hpending hsuffix
  exact ⟨hpending, hsuffix⟩

theorem scan_dropWhile (bytes : Bytes) :
    scan (bytes.dropWhile (· != frameStart)) = scan bytes := by
  induction bytes with
  | nil => rfl
  | cons byte rest ih =>
    by_cases hbyte : byte = frameStart
    · simp [hbyte]
    · rw [List.dropWhile_cons_of_pos (by simpa using hbyte), ih, scan_cons_of_ne hbyte]

theorem scan_of_quiet {bytes : Bytes} (h : frameStart ∉ bytes) : scan bytes = ([], []) := by
  induction bytes with
  | nil => rw [scan]
  | cons byte rest ih =>
    rw [scan_cons_of_ne (Ne.symm (List.ne_of_not_mem_cons h)), ih (List.not_mem_of_not_mem_cons h)]

theorem scan_quiet_append {quiet : Bytes} (h : frameStart ∉ quiet) (rest : Bytes) :
    scan (quiet ++ rest) = scan rest := by
  rw [scan_append, scan_of_quiet h]
  rfl

theorem scan_encode_append (f : Frame) (rest : Bytes) :
    scan (f.encode ++ rest) = (f :: (scan rest).1, (scan rest).2) :=
  scan_frame (Opening.read_encode rfl)

theorem scan_encode (f : Frame) : scan f.encode = ([f], []) := by
  have hscan := scan_encode_append f []
  rwa [List.append_nil, scan] at hscan

/-- The beginning of a frame is undecided until the frame is whole. -/
theorem pending_of_encode {f : Frame} {front back : Bytes} (h : front ++ back = f.encode)
    (hne : back ≠ []) : Pending front := by
  cases front with
  | nil => trivial
  | cons byte rest =>
    have hwire : frameStart :: (rest ++ back) = f.encode ++ [] := by
      obtain ⟨rfl, hrest⟩ := List.cons.inj h
      rw [List.append_nil]
      exact h
    have hread := Opening.read_encode hwire
    refine ⟨(List.cons.inj h).1, ?_⟩
    by_contra hdecided
    rw [Opening.read_append _ _ hdecided] at hread
    cases hrest : Opening.read rest with
    | undecided => exact hdecided hrest
    | invalid e => simp [hrest, Opening.extend] at hread
    | frame f' behind => simp [hrest, Opening.extend, hne] at hread

end HalfLink
