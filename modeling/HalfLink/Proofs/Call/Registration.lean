import HalfLink.Call.Callee
import Mathlib.Data.List.Induction
import Mathlib.Data.List.Nodup

/-! How a directory comes about. A draft keeps the first handler of each id, sixteen of them at most, and
what a registration gives follows from which of those before it succeeded. The closed directory is the
list of these, and an id has one handler in it or none. -/
namespace HalfLink.Directory

variable {τ : Type}

namespace Draft

/-- All that a registration can come to. -/
theorem register_cases (d : Draft τ) (id : TransactionId) (handler : Handler τ) :
    ((∃ e ∈ d.entries, e.id = id) ∧ d.register id handler = (.error (.duplicate id), d)) ∨
    ((∀ e ∈ d.entries, e.id ≠ id) ∧ d.entries.length < maxHandlers ∧
      d.register id handler = (.ok (), ⟨d.entries ++ [⟨id, handler⟩]⟩)) ∨
    ((∀ e ∈ d.entries, e.id ≠ id) ∧ maxHandlers ≤ d.entries.length ∧
      d.register id handler = (.error .full, d)) := by
  have hany : d.entries.any (·.id = id) ↔ ∃ e ∈ d.entries, e.id = id := by simp
  unfold register
  by_cases htaken : ∃ e ∈ d.entries, e.id = id
  · exact .inl ⟨htaken, if_pos (hany.mpr htaken)⟩
  have hnew : ∀ e ∈ d.entries, e.id ≠ id := fun e he heq => htaken ⟨e, he, heq⟩
  rw [if_neg (mt hany.mp htaken)]
  rcases Nat.lt_or_ge d.entries.length maxHandlers with hroom | hfull
  · exact .inr (.inl ⟨hnew, hroom, if_pos hroom⟩)
  · exact .inr (.inr ⟨hnew, hfull, if_neg (Nat.not_lt.mpr hfull)⟩)

/-- No id is taken twice, and there are no more handlers than a directory holds. -/
structure Sound (d : Draft τ) : Prop where
  distinct : (d.entries.map (·.id)).Nodup
  size_le : d.entries.length ≤ maxHandlers

theorem sound_empty : (empty : Draft τ).Sound := ⟨List.nodup_nil, Nat.zero_le _⟩

theorem Sound.register {d : Draft τ} (h : d.Sound) (id : TransactionId) (handler : Handler τ) :
    (d.register id handler).2.Sound := by
  rcases d.register_cases id handler with
    ⟨-, hregister⟩ | ⟨hnew, hroom, hregister⟩ | ⟨-, -, hregister⟩ <;> rw [hregister]
  · exact h
  · have hfresh : id ∉ d.entries.map (·.id) := fun hmem => by
      obtain ⟨e, he, heq⟩ := List.mem_map.mp hmem
      exact hnew e he heq
    refine ⟨?_, ?_⟩
    · rw [List.map_append]
      exact h.distinct.append (List.nodup_singleton id) (List.disjoint_singleton.mpr hfresh)
    · rw [List.length_append, List.length_singleton]
      exact hroom
  · exact h

section

variable {d : Draft τ} {id : TransactionId} {handler : Handler τ}

/-- An id that is taken comes first among the reasons for a failure. -/
theorem register_eq_duplicate_iff :
    (d.register id handler).1 = .error (.duplicate id) ↔ ∃ e ∈ d.entries, e.id = id := by
  rcases d.register_cases id handler with ⟨htaken, h⟩ | ⟨hnew, -, h⟩ | ⟨hnew, -, h⟩ <;> rw [h]
  · exact iff_of_true rfl htaken
  · exact iff_of_false nofun fun ⟨e, he, heq⟩ => hnew e he heq
  · exact iff_of_false nofun fun ⟨e, he, heq⟩ => hnew e he heq

theorem Sound.register_eq_full_iff (hd : d.Sound) (hnew : ∀ e ∈ d.entries, e.id ≠ id) :
    (d.register id handler).1 = .error .full ↔ d.entries.length = maxHandlers := by
  rcases d.register_cases id handler with ⟨⟨e, he, heq⟩, -⟩ | ⟨-, hroom, h⟩ | ⟨-, hfull, h⟩
  · exact absurd heq (hnew e he)
  · rw [h]
    exact iff_of_false nofun (Nat.ne_of_lt hroom)
  · rw [h]
    exact iff_of_true rfl (Nat.le_antisymm hd.size_le hfull)

theorem Sound.register_eq_ok (hd : d.Sound) (hnew : ∀ e ∈ d.entries, e.id ≠ id)
    (hroom : d.entries.length ≠ maxHandlers) : (d.register id handler).1 = .ok () := by
  rcases d.register_cases id handler with ⟨⟨e, he, heq⟩, -⟩ | ⟨-, -, h⟩ | ⟨-, hfull, -⟩
  · exact absurd heq (hnew e he)
  · rw [h]
  · exact absurd (Nat.le_antisymm hd.size_le hfull) hroom

/-- A registration that fails leaves no trace. -/
theorem register_of_ne_ok (hfailed : (d.register id handler).1 ≠ .ok ()) :
    (d.register id handler).2 = d := by
  rcases d.register_cases id handler with ⟨-, h⟩ | ⟨-, -, h⟩ | ⟨-, -, h⟩ <;> rw [h] at hfailed ⊢
  exact absurd rfl hfailed

end

/-- Registers handlers one after the other: what each of the calls gives, and the draft afterwards. -/
def registerAll (d : Draft τ) : List (Entry τ) → List (Except DirectoryError Unit) × Draft τ
  | [] => ([], d)
  | e :: calls =>
    let (result, d) := d.register e.id e.handler
    let (results, d) := registerAll d calls
    (result :: results, d)

/-- What the calls give on a new draft. -/
def results (calls : List (Entry τ)) : List (Except DirectoryError Unit) := (empty.registerAll calls).1

/-- What the calls make of a new draft. -/
def ofCalls (calls : List (Entry τ)) : Draft τ := (empty.registerAll calls).2

/-- The calls that succeed on a new draft, in their order. -/
def granted (calls : List (Entry τ)) : List (Entry τ) :=
  (calls.zip (results calls)).filterMap fun
    | (e, .ok _) => some e
    | (_, .error _) => none

theorem registerAll_concat (d : Draft τ) (calls : List (Entry τ)) (e : Entry τ) :
    d.registerAll (calls ++ [e]) =
      ((d.registerAll calls).1 ++ [((d.registerAll calls).2.register e.id e.handler).1],
        ((d.registerAll calls).2.register e.id e.handler).2) := by
  induction calls generalizing d with
  | nil => rfl
  | cons call calls ih => simp only [List.cons_append, registerAll, ih]

theorem length_registerAll (d : Draft τ) (calls : List (Entry τ)) :
    (d.registerAll calls).1.length = calls.length := by
  induction calls generalizing d with
  | nil => rfl
  | cons call calls ih => simp only [registerAll, List.length_cons, ih]

theorem ofCalls_concat (calls : List (Entry τ)) (e : Entry τ) :
    ofCalls (calls ++ [e]) = ((ofCalls calls).register e.id e.handler).2 := by
  rw [ofCalls, registerAll_concat]
  rfl

theorem granted_concat (calls : List (Entry τ)) (e : Entry τ) :
    granted (calls ++ [e]) =
      match ((ofCalls calls).register e.id e.handler).1 with
      | .ok _ => granted calls ++ [e]
      | .error _ => granted calls := by
  have hresults : results (calls ++ [e]) =
      results calls ++ [((ofCalls calls).register e.id e.handler).1] := by
    rw [results, registerAll_concat]
    rfl
  have hlength : calls.length = (results calls).length := (length_registerAll empty calls).symm
  rw [granted, hresults, List.zip_append hlength, List.filterMap_append]
  cases ((ofCalls calls).register e.id e.handler).1 with
  | ok => rfl
  | error => exact List.append_nil _

/-- A draft holds what was granted. -/
theorem entries_ofCalls (calls : List (Entry τ)) : (ofCalls calls).entries = granted calls := by
  induction calls using List.reverseRecOn with
  | nil => rfl
  | append_singleton calls e ih =>
    rw [ofCalls_concat, granted_concat]
    rcases (ofCalls calls).register_cases e.id e.handler with
      ⟨-, hregister⟩ | ⟨-, -, hregister⟩ | ⟨-, -, hregister⟩ <;> rw [hregister, ← ih]

theorem sound_ofCalls (calls : List (Entry τ)) : (ofCalls calls).Sound := by
  induction calls using List.reverseRecOn with
  | nil => exact sound_empty
  | append_singleton calls e ih =>
    rw [ofCalls_concat]
    exact ih.register e.id e.handler

/-- A chain of additions goes on as the registrations do while these succeed. -/
theorem foldlM_add_ok {d : Draft τ} {calls : List (Entry τ)}
    (h : ∀ result ∈ (d.registerAll calls).1, result = .ok ()) :
    calls.foldlM (fun (d : Draft τ) e => d.add e.id e.handler) d = .ok (d.registerAll calls).2 := by
  induction calls generalizing d with
  | nil => rfl
  | cons e calls ih =>
    simp only [registerAll, List.forall_mem_cons] at h
    obtain ⟨hfirst, hrest⟩ := h
    have hadd : d.add e.id e.handler = .ok (d.register e.id e.handler).2 := by
      rw [add, show d.register e.id e.handler = (.ok (), (d.register e.id e.handler).2) from
        Prod.ext hfirst rfl]
    rw [List.foldlM_cons, hadd]
    exact ih hrest

/-- A chain of additions ends at the first registration that fails. -/
theorem foldlM_add_error {d : Draft τ} {calls : List (Entry τ)} {error : DirectoryError}
    {before after : List (Except DirectoryError Unit)} (hbefore : ∀ result ∈ before, result = .ok ())
    (h : (d.registerAll calls).1 = before ++ .error error :: after) :
    calls.foldlM (fun (d : Draft τ) e => d.add e.id e.handler) d = .error error := by
  induction calls generalizing d before with
  | nil => cases before <;> cases h
  | cons e calls ih =>
    rw [List.foldlM_cons, add]
    rcases hregister : d.register e.id e.handler with ⟨result, d'⟩
    simp only [registerAll, hregister] at h
    cases before with
    | nil =>
      obtain ⟨rfl, -⟩ := List.cons.inj h
      rfl
    | cons first before =>
      obtain ⟨rfl, hrest⟩ := List.cons.inj h
      obtain ⟨hfirst, hbefore⟩ := List.forall_mem_cons.mp hbefore
      rw [hfirst]
      exact ih hbefore hrest

section

variable {d : Draft τ} {id : TransactionId}

theorem Sound.lookup_close (h : d.Sound) {e : Entry τ} (he : e ∈ d.entries) :
    d.close.lookup e.id = some e.handler := by
  rw [lookup, close]
  cases hfind : d.entries.find? (·.id = e.id) with
  | none => simpa using List.find?_eq_none.mp hfind e he
  | some found =>
    have hmem := List.mem_of_find?_eq_some hfind
    have hid : found.id = e.id := by simpa using List.find?_some hfind
    rw [List.inj_on_of_nodup_map h.distinct hmem he hid]
    rfl

theorem lookup_close_of_ne (h : ∀ e ∈ d.entries, e.id ≠ id) : d.close.lookup id = none := by
  rw [lookup, close, Option.map_eq_none_iff, List.find?_eq_none]
  intro e he
  simpa using h e he

end

end Draft

/-- A request whose id has a handler is served by this handler, and by no other. -/
theorem respond_of_lookup {d : Directory τ} {frame : Frame} {handler : Handler τ}
    (hkind : frame.kind = .request) (h : d.lookup frame.id = some handler) (device : τ) :
    d.respond frame device =
      (some ⟨.response, frame.id, frame.seq, (handler frame.payload.toList .empty device).1⟩,
        (handler frame.payload.toList .empty device).2) := by
  rw [respond, hkind, h]
  rfl

/-- Any other frame comes to no handler. -/
theorem respond_of_missing {d : Directory τ} {frame : Frame}
    (h : frame.kind = .request → d.lookup frame.id = none) (device : τ) :
    d.respond frame device = (none, device) := by
  rw [respond]
  cases hkind : frame.kind with
  | response => rfl
  | request => rw [h hkind]

namespace Draft

/-- What calls on a new draft come to, told by those of them that succeeded. -/
structure Faithful (calls : List (Entry τ)) : Prop where
  entries : (ofCalls calls).entries = granted calls
  distinct : ((granted calls).map (·.id)).Nodup
  size_le : (granted calls).length ≤ maxHandlers
  duplicate : ∀ id handler, ((ofCalls calls).register id handler).1 = .error (.duplicate id) ↔
    ∃ e ∈ granted calls, e.id = id
  full : ∀ id handler, (∀ e ∈ granted calls, e.id ≠ id) →
    (((ofCalls calls).register id handler).1 = .error .full ↔
      (granted calls).length = maxHandlers)
  ok : ∀ id handler, (∀ e ∈ granted calls, e.id ≠ id) → (granted calls).length ≠ maxHandlers →
    ((ofCalls calls).register id handler).1 = .ok ()
  failed : ∀ id handler, ((ofCalls calls).register id handler).1 ≠ .ok () →
    ((ofCalls calls).register id handler).2 = ofCalls calls
  found : ∀ e ∈ granted calls, (ofCalls calls).close.lookup e.id = some e.handler ∧
    (ofCalls calls).close.contains e.id = true
  missing : ∀ id, (∀ e ∈ granted calls, e.id ≠ id) → (ofCalls calls).close.lookup id = none ∧
    (ofCalls calls).close.contains id = false
  ids : (ofCalls calls).close.ids = (granted calls).map (·.id)
  size : (ofCalls calls).close.size = (granted calls).length
  served : ∀ e ∈ granted calls, ∀ frame device, frame.kind = .request → frame.id = e.id →
    (ofCalls calls).close.respond frame device =
      (some ⟨.response, e.id, frame.seq, (e.handler frame.payload.toList .empty device).1⟩,
        (e.handler frame.payload.toList .empty device).2)
  ignored : ∀ frame device, (frame.kind = .request → ∀ e ∈ granted calls, e.id ≠ frame.id) →
    (ofCalls calls).close.respond frame device = (none, device)
  chained : (∀ result ∈ results calls, result = .ok ()) →
    ofEntries calls = .ok (ofCalls calls).close
  broken : ∀ before error after, results calls = before ++ .error error :: after →
    (∀ result ∈ before, result = .ok ()) → ofEntries calls = .error error

/-- After any calls, what the next one gives and what the closed directory holds are told by the calls
that succeeded, and a chain of the calls ends with the same directory or with the first failure. -/
theorem calls_recorded (calls : List (Entry τ)) : Faithful calls := by
  have hentries := entries_ofCalls calls
  have hsound := sound_ofCalls calls
  have hlookup : ∀ e ∈ granted calls, (ofCalls calls).close.lookup e.id = some e.handler :=
    fun e he => hsound.lookup_close (hentries ▸ he)
  have hmissing : ∀ id, (∀ e ∈ granted calls, e.id ≠ id) →
      (ofCalls calls).close.lookup id = none :=
    fun id hnew => lookup_close_of_ne (hentries ▸ hnew)
  constructor
  case entries => exact hentries
  case distinct => exact hentries ▸ hsound.distinct
  case size_le => exact hentries ▸ hsound.size_le
  case duplicate => exact fun id handler => hentries ▸ register_eq_duplicate_iff
  case full => exact fun id handler hnew => hentries ▸ hsound.register_eq_full_iff (hentries ▸ hnew)
  case ok =>
    exact fun id handler hnew hroom => hsound.register_eq_ok (hentries ▸ hnew) (hentries ▸ hroom)
  case failed => exact fun id handler => register_of_ne_ok
  case found =>
    intro e he
    refine ⟨hlookup e he, ?_⟩
    rw [contains, hlookup e he]
    rfl
  case missing =>
    intro id hnew
    refine ⟨hmissing id hnew, ?_⟩
    rw [contains, hmissing id hnew]
    rfl
  case ids => exact congrArg (List.map (·.id)) hentries
  case size => exact congrArg List.length hentries
  case served =>
    intro e he frame device hkind hid
    rw [respond_of_lookup hkind (hid ▸ hlookup e he), hid]
  case ignored =>
    exact fun frame device hnew => respond_of_missing (fun hkind => hmissing _ (hnew hkind)) device
  case chained =>
    intro hok
    rw [ofEntries, foldlM_add_ok hok]
    rfl
  case broken =>
    intro before error after hresults hbefore
    rw [ofEntries, foldlM_add_error hbefore hresults]
    rfl

private def silent (n : Nat) : Entry Unit := ⟨⟨UInt8.ofNat n⟩, fun _ response device => (response, device)⟩

/-- Also when there is no room left, a taken id is reported as such. -/
example : (results ((List.range 16 ++ [5, 200]).map silent)).drop 16 =
    [.error (.duplicate ⟨5⟩), .error .full] := rfl

end Draft

end HalfLink.Directory
