import HalfLink.Build.Options
import HalfLink.Call.Caller
import Mathlib.Algebra.Group.Int.Defs

/-! What the check of a configuration lets through, said without the functions that read it, and why
that is enough for the firmware to start. -/
namespace HalfLink.Build

open Toml (Value)

/-- A check is exact if it passes under one condition and fails under another, of which one holds. -/
theorem exact_of_either {ε α : Type} {r : Except ε α} {P : α → Prop} {Q : ε → Prop}
    (hok : ∀ a, P a → r = .ok a) (herror : ∀ e, Q e → r = .error e)
    (h : (∃ a, P a) ∨ ∃ e, Q e) : (∀ a, r = .ok a ↔ P a) ∧ ∀ e, r = .error e ↔ Q e := by
  refine ⟨fun b => ⟨fun hr => ?_, hok b⟩, fun e' => ⟨fun hr => ?_, herror e'⟩⟩ <;>
    rcases h with ⟨a, ha⟩ | ⟨e, he⟩
  · exact Except.ok.inj ((hok a ha).symm.trans hr) ▸ ha
  · cases (herror e he).symm.trans hr
  · cases (hok a ha).symm.trans hr
  · exact Except.error.inj ((herror e he).symm.trans hr) ▸ he

namespace IntegerOption

variable {o : IntegerOption} {config : Value}

/-- The document has a value for the option. -/
inductive Given (o : IntegerOption) (config value : Value) : Prop
  | intro (table : Value) (inDocument : config.get? o.table = some table)
      (inTable : table.get? o.key = some value)

/-- The document has no value for the option. -/
inductive Absent (o : IntegerOption) (config : Value) : Prop
  | noTable (missing : config.get? o.table = none)
  | otherKind (value : Value) (inDocument : config.get? o.table = some value)
      (kind : ∀ entries, value ≠ .table entries)
  | noKey (entries : List (String × Value)) (inDocument : config.get? o.table = some (.table entries))
      (missing : entries.lookup o.key = none)

/-- The value that a document gives the option, in range, or the default. -/
inductive Means (o : IntegerOption) (config : Value) : Int → Prop
  | default (absent : o.Absent config) : Means o config o.default
  | given (i : Int) (given : o.Given config (.integer i)) (range : o.lo ≤ i ∧ i ≤ o.hi) :
      Means o config i

/-- What is wrong with the value that a document gives the option. -/
inductive Offends (o : IntegerOption) (config : Value) : OptionError → Prop
  | notInteger (value : Value) (given : o.Given config value) (kind : ∀ i, value ≠ .integer i) :
      Offends o config (.notInteger o.table o.key)
  | outOfRange (i : Int) (given : o.Given config (.integer i)) (range : i < o.lo ∨ o.hi < i) :
      Offends o config (.outOfRange o.table o.key o.lo o.hi)

/-- The value that is looked up. -/
def value? (o : IntegerOption) (config : Value) : Option Value :=
  (config.get? o.table).bind (·.get? o.key)

theorem given_iff {value : Value} : o.Given config value ↔ o.value? config = some value := by
  rw [value?, Option.bind_eq_some_iff]
  exact ⟨fun ⟨table, inDocument, inTable⟩ => ⟨table, inDocument, inTable⟩,
    fun ⟨table, inDocument, inTable⟩ => ⟨table, inDocument, inTable⟩⟩

theorem absent_iff : o.Absent config ↔ o.value? config = none := by
  rw [value?]
  constructor
  · rintro (missing | ⟨value, inDocument, kind⟩ | ⟨entries, inDocument, missing⟩)
    · rw [missing]
      rfl
    · rw [inDocument]
      cases value with
      | table entries => exact absurd rfl (kind entries)
      | _ => rfl
    · rw [inDocument]
      exact missing
  · intro h
    cases hdocument : config.get? o.table with
    | none => exact .noTable hdocument
    | some value =>
      rw [hdocument] at h
      cases value with
      | table entries => exact .noKey entries hdocument h
      | _ => exact .otherKind _ hdocument (fun _ => Value.noConfusion)

theorem Means.read {i : Int} (h : o.Means config i) : o.read config = .ok i := by
  rw [IntegerOption.read, ← value?]
  rcases h with absent | ⟨i, given, range⟩
  · rw [absent_iff.mp absent]
  · rw [given_iff.mp given]
    exact if_pos range

theorem Offends.read {e : OptionError} (h : o.Offends config e) : o.read config = .error e := by
  rw [IntegerOption.read, ← value?]
  rcases h with ⟨value, given, kind⟩ | ⟨i, given, range⟩
  · rw [given_iff.mp given]
    cases value with
    | integer i => exact absurd rfl (kind i)
    | _ => rfl
  · rw [given_iff.mp given]
    exact if_neg (by omega)

/-- A document means a value for the option, or offends it. -/
theorem means_or_offends (o : IntegerOption) (config : Value) :
    (∃ i, o.Means config i) ∨ ∃ e, o.Offends config e := by
  cases hvalue : o.value? config with
  | none => exact .inl ⟨_, .default (absent_iff.mpr hvalue)⟩
  | some value =>
    have hgiven := given_iff.mpr hvalue
    cases value with
    | integer i =>
      by_cases hrange : o.lo ≤ i ∧ i ≤ o.hi
      · exact .inl ⟨i, .given i hgiven hrange⟩
      · exact .inr ⟨_, .outOfRange i hgiven (by omega)⟩
    | _ => exact .inr ⟨_, .notInteger _ hgiven (fun _ => Value.noConfusion)⟩

theorem read_eq_ok_iff {i : Int} : o.read config = .ok i ↔ o.Means config i :=
  (exact_of_either (fun _ => Means.read) (fun _ => Offends.read) (o.means_or_offends config)).1 i

theorem read_eq_error_iff {e : OptionError} : o.read config = .error e ↔ o.Offends config e :=
  (exact_of_either (fun _ => Means.read) (fun _ => Offends.read) (o.means_or_offends config)).2 e

/-- An option whose default is in range means nothing out of range. -/
theorem Means.range {i : Int} (h : o.Means config i)
    (hdefault : o.lo ≤ o.default ∧ o.default ≤ o.hi) : o.lo ≤ i ∧ i ≤ o.hi := by
  rcases h with absent | ⟨i, given, range⟩
  · exact hdefault
  · exact range

end IntegerOption

/-- The role that a document gives. -/
inductive RoleMeans (config : Value) : Bool → Prop
  | master (given : config.get? "role" = some (.string "master")) : RoleMeans config true
  | slave (given : config.get? "role" = some (.string "slave")) : RoleMeans config false

/-- What is wrong with the role that a document gives. -/
inductive RoleOffends (config : Value) : OptionError → Prop
  | missing (absent : config.get? "role" = none) : RoleOffends config .missingRole
  | unknown (value : Value) (given : config.get? "role" = some value)
      (master : value ≠ .string "master") (slave : value ≠ .string "slave") :
      RoleOffends config .unknownRole

section

variable {config : Value}

theorem RoleMeans.read {isMaster : Bool} (h : RoleMeans config isMaster) :
    readRole config = .ok isMaster := by
  rcases h with given | given <;> rw [readRole, given] <;> rfl

theorem RoleOffends.read {e : OptionError} (h : RoleOffends config e) :
    readRole config = .error e := by
  rcases h with absent | ⟨value, given, master, slave⟩
  · rw [readRole, absent]
  · rw [readRole, given]
    cases value with
    | string role =>
      have hmaster : role ≠ "master" := fun h => master (congrArg Value.string h)
      have hslave : role ≠ "slave" := fun h => slave (congrArg Value.string h)
      simp only [if_neg hmaster, if_neg hslave]
    | _ => rfl

theorem role_means_or_offends (config : Value) :
    (∃ isMaster, RoleMeans config isMaster) ∨ ∃ e, RoleOffends config e := by
  cases hrole : config.get? "role" with
  | none => exact .inr ⟨_, .missing hrole⟩
  | some value =>
    by_cases hmaster : value = .string "master"
    · exact .inl ⟨true, .master (hmaster ▸ hrole)⟩
    · by_cases hslave : value = .string "slave"
      · exact .inl ⟨false, .slave (hslave ▸ hrole)⟩
      · exact .inr ⟨_, .unknown value hrole hmaster hslave⟩

theorem readRole_eq_ok_iff {isMaster : Bool} :
    readRole config = .ok isMaster ↔ RoleMeans config isMaster :=
  (exact_of_either (fun _ => RoleMeans.read) (fun _ => RoleOffends.read)
    (role_means_or_offends config)).1 isMaster

theorem readRole_eq_error_iff {e : OptionError} :
    readRole config = .error e ↔ RoleOffends config e :=
  (exact_of_either (fun _ => RoleMeans.read) (fun _ => RoleOffends.read)
    (role_means_or_offends config)).2 e

theorem errorOf_eq_nil_iff {α : Type} {r : Except OptionError α} :
    errorOf r = [] ↔ ∃ a, r = .ok a := by
  cases r with
  | ok a => exact ⟨fun _ => ⟨a, rfl⟩, fun _ => rfl⟩
  | error e => simp [errorOf]

theorem errorOf_eq_singleton_iff {α : Type} {r : Except OptionError α} {e : OptionError} :
    errorOf r = [e] ↔ r = .error e := by
  cases r <;> simp [errorOf]

end

/-- What is checked of a configuration. -/
inductive Field
  | role
  | integer (o : IntegerOption)

namespace Field

/-- A role must be given; any other field may be left out. -/
def Valid (config : Value) : Field → Prop
  | role => ∃ isMaster, RoleMeans config isMaster
  | integer o => ∃ i, o.Means config i

def Offends (config : Value) : Field → OptionError → Prop
  | role => RoleOffends config
  | integer o => o.Offends config

/-- The errors of the field's check. -/
def errors (config : Value) : Field → List OptionError
  | role => errorOf (readRole config)
  | integer o => errorOf (o.read config)

variable {config : Value} {f : Field}

theorem errors_eq_nil_iff : f.errors config = [] ↔ f.Valid config := by
  cases f with
  | role => simp only [errors, errorOf_eq_nil_iff, readRole_eq_ok_iff, Valid]
  | integer o => simp only [errors, errorOf_eq_nil_iff, IntegerOption.read_eq_ok_iff, Valid]

theorem errors_eq_singleton_iff {e : OptionError} : f.errors config = [e] ↔ f.Offends config e := by
  cases f with
  | role => simp only [errors, errorOf_eq_singleton_iff, readRole_eq_error_iff, Offends]
  | integer o =>
    simp only [errors, errorOf_eq_singleton_iff, IntegerOption.read_eq_error_iff, Offends]

theorem valid_or_offends (config : Value) (f : Field) :
    f.Valid config ∨ ∃ e, f.Offends config e := by
  cases f with
  | role => exact role_means_or_offends config
  | integer o => exact o.means_or_offends config

end Field

/-- One error for each field that offends, in the order of the fields, and none for a valid one. -/
inductive Reports (config : Value) : List Field → List OptionError → Prop
  | nil : Reports config [] []
  | valid {f : Field} {fs : List Field} {es : List OptionError} (valid : f.Valid config)
      (rest : Reports config fs es) : Reports config (f :: fs) es
  | offends {f : Field} {fs : List Field} {e : OptionError} {es : List OptionError}
      (offends : f.Offends config e) (rest : Reports config fs es) :
      Reports config (f :: fs) (e :: es)

theorem reports_iff {config : Value} {fs : List Field} {es : List OptionError} :
    Reports config fs es ↔ es = fs.flatMap (Field.errors config) := by
  constructor
  · intro h
    induction h with
    | nil => rfl
    | valid valid rest ih =>
      rw [List.flatMap_cons, Field.errors_eq_nil_iff.mpr valid, List.nil_append, ih]
    | offends offends rest ih =>
      rw [List.flatMap_cons, Field.errors_eq_singleton_iff.mpr offends, List.singleton_append, ih]
  · rintro rfl
    induction fs with
    | nil => exact .nil
    | cons f fs ih =>
      rw [List.flatMap_cons]
      rcases f.valid_or_offends config with valid | ⟨e, offends⟩
      · rw [Field.errors_eq_nil_iff.mpr valid]
        exact .valid valid ih
      · rw [Field.errors_eq_singleton_iff.mpr offends]
        exact .offends offends ih

/-- The fields in the order in which they are checked. -/
def fields : List Field :=
  [.role, .integer baudRateOption, .integer responseTimeoutOption, .integer maxErrorsOption,
    .integer retryIntervalOption]

/-- The options are those of the document: each is the integer that it gives, or the default. -/
structure Options.Holds (o : Options) (config : Value) : Prop where
  role : RoleMeans config o.isMaster
  baudRate : IntegerOption.Means ⟨"uart", "baud_rate", 57600, 1200, 1000000⟩ config
    o.baudRate.toNat
  responseTimeout : IntegerOption.Means ⟨"link", "response_timeout_ms", 20, 1, 30000⟩ config
    o.responseTimeout.toNat
  maxErrors : IntegerOption.Means ⟨"link", "max_connection_errors", 10, 0, 255⟩ config
    o.maxErrors.toNat
  retryInterval : IntegerOption.Means ⟨"link", "connection_check_ms", 500, 1, 60000⟩ config
    o.retryInterval.toNat

namespace Options

variable {config : Value} {o : Options} {errors : List OptionError}

theorem toNat_ofNat_of_range {o : IntegerOption} {i : Int} (h : o.Means config i)
    (hdefault : o.lo ≤ o.default ∧ o.default ≤ o.hi) (hlo : 0 ≤ o.lo) (hhi : o.hi < 2 ^ 32) :
    ((UInt32.ofNat i.toNat).toNat : Int) = i := by
  have hrange := h.range hdefault
  rw [UInt32.toNat_ofNat']
  omega

theorem toNat_ofNat_of_byte {o : IntegerOption} {i : Int} (h : o.Means config i)
    (hdefault : o.lo ≤ o.default ∧ o.default ≤ o.hi) (hlo : 0 ≤ o.lo) (hhi : o.hi < 2 ^ 8) :
    ((UInt8.ofNat i.toNat).toNat : Int) = i := by
  have hrange := h.range hdefault
  rw [UInt8.toNat_ofNat']
  omega

theorem Holds.read (h : o.Holds config) : Options.read config = .ok o := by
  have hbaud : baudRateOption.read config = .ok _ := h.baudRate.read
  have htimeout : responseTimeoutOption.read config = .ok _ := h.responseTimeout.read
  have herrors : maxErrorsOption.read config = .ok _ := h.maxErrors.read
  have hretry : retryIntervalOption.read config = .ok _ := h.retryInterval.read
  rw [Options.read, h.role.read, hbaud, htimeout, herrors, hretry]
  simp

theorem holds_of_read (h : Options.read config = .ok o) : o.Holds config := by
  unfold Options.read at h
  split at h
  · rename_i hrole hbaud htimeout herrors hretry
    cases h
    rw [IntegerOption.read_eq_ok_iff] at hbaud htimeout herrors hretry
    refine ⟨readRole_eq_ok_iff.mp hrole, ?_, ?_, ?_, ?_⟩
    · rw [toNat_ofNat_of_range hbaud (by decide) (by decide) (by decide)]
      exact hbaud
    · rw [toNat_ofNat_of_range htimeout (by decide) (by decide) (by decide)]
      exact htimeout
    · rw [toNat_ofNat_of_byte herrors (by decide) (by decide) (by decide)]
      exact herrors
    · rw [toNat_ofNat_of_range hretry (by decide) (by decide) (by decide)]
      exact hretry
  · cases h

theorem read_eq_ok_iff : Options.read config = .ok o ↔ o.Holds config := ⟨holds_of_read, Holds.read⟩

theorem read_eq_error_iff :
    Options.read config = .error errors ↔ errors ≠ [] ∧ Reports config fields errors := by
  have hall : fields.flatMap (Field.errors config) = errorOf (readRole config) ++
      errorOf (baudRateOption.read config) ++ errorOf (responseTimeoutOption.read config) ++
      errorOf (maxErrorsOption.read config) ++ errorOf (retryIntervalOption.read config) := by
    simp [fields, Field.errors]
  rw [reports_iff, hall, Options.read]
  split
  · rename_i hrole hbaud htimeout herrors hretry
    rw [hrole, hbaud, htimeout, herrors, hretry]
    refine ⟨fun h => ?_, fun ⟨hne, heq⟩ => absurd heq hne⟩
    cases h
  · rename_i hfails
    have hsome : errorOf (readRole config) ++ errorOf (baudRateOption.read config) ++
        errorOf (responseTimeoutOption.read config) ++ errorOf (maxErrorsOption.read config) ++
        errorOf (retryIntervalOption.read config) ≠ [] := by
      intro hnone
      simp only [List.append_eq_nil_iff, errorOf_eq_nil_iff] at hnone
      obtain ⟨⟨⟨⟨⟨_, hrole⟩, _, hbaud⟩, _, htimeout⟩, _, herrors⟩, _, hretry⟩ := hnone
      exact hfails _ _ _ _ _ hrole hbaud htimeout herrors hretry
    constructor
    · intro h
      obtain rfl := Except.error.inj h
      exact ⟨hsome, rfl⟩
    · rintro ⟨-, rfl⟩
      rfl

theorem exists_read_iff :
    (∃ o, Options.read config = .ok o) ↔ ∀ f ∈ fields, f.Valid config := by
  have hvalid : fields.flatMap (Field.errors config) = [] ↔ ∀ f ∈ fields, f.Valid config := by
    simp only [List.flatMap_eq_nil_iff, Field.errors_eq_nil_iff]
  rw [← hvalid]
  constructor
  · rintro ⟨o, ho⟩
    refine Classical.byContradiction fun hne => ?_
    cases ho.symm.trans (read_eq_error_iff.mpr ⟨hne, reports_iff.mpr rfl⟩)
  · intro hnone
    cases hread : Options.read config with
    | ok o => exact ⟨o, rfl⟩
    | error errors =>
      obtain ⟨hne, hreports⟩ := read_eq_error_iff.mp hread
      exact absurd ((reports_iff.mp hreports).trans hnone) hne

/-- The longest times that a document can give are well below half the range of the ticks. -/
theorem Holds.check (h : o.Holds config) : o.settings.check = .ok () := by
  have htimeout := h.responseTimeout.range (by decide)
  have hretry := h.retryInterval.range (by decide)
  have hhalf : (Ticks.half 32).toNat = 2147483647 := by decide
  have hzero : o.settings.responseTimeout ≠ 0 := by
    intro hzero
    have hnat : o.responseTimeout.toNat = 0 := congrArg BitVec.toNat hzero
    dsimp only at htimeout
    omega
  have hlong : ¬ Ticks.half 32 ≤ o.settings.responseTimeout := by
    rw [BitVec.le_def, hhalf]
    change ¬ 2147483647 ≤ o.responseTimeout.toNat
    dsimp only at htimeout
    omega
  have hlongRetry : ¬ Ticks.half 32 ≤ o.settings.retryInterval := by
    rw [BitVec.le_def, hhalf]
    change ¬ 2147483647 ≤ o.retryInterval.toNat
    dsimp only at hretry
    omega
  rw [Settings.check, if_neg (not_or.mpr ⟨hzero, hlong⟩), if_neg hlongRetry]

/-- For every document: its options are read if each field is valid, they are then those that the
document gives, and a caller can be made with them. Otherwise each field that offends is reported once
and in order, whatever is wrong with the others. -/
theorem read_exact (config : Value) :
    ((∃ o, Options.read config = .ok o) ↔ ∀ f ∈ fields, f.Valid config) ∧
      (∀ o, Options.read config = .ok o ↔ o.Holds config) ∧
      (∀ errors, Options.read config = .error errors ↔
        errors ≠ [] ∧ Reports config fields errors) ∧
      ∀ o, Options.read config = .ok o →
        o.settings.check = .ok () ∧ ∃ c, Caller.ofSettings o.settings = .ok c := by
  refine ⟨exists_read_iff, fun o => read_eq_ok_iff, fun errors => read_eq_error_iff, fun o ho => ?_⟩
  have hcheck := (holds_of_read ho).check
  exact ⟨hcheck, _, by rw [Caller.ofSettings, hcheck]⟩

/-- The largest times and the largest count that are let through. The `uart` of the document is no
table and gives nothing. -/
theorem largest_options_boot :
    let config : Value := .table
      [("role", .string "slave"), ("uart", .integer 0),
        ("link", .table [("connection_check_ms", .integer 60000),
          ("response_timeout_ms", .integer 30000), ("max_connection_errors", .integer 255)])]
    let o : Options := ⟨false, 57600, 30000, 255, 60000⟩
    Options.read config = .ok o ∧ o.Holds config ∧ ∃ c, Caller.ofSettings o.settings = .ok c := by
  intro config o
  have hread : Options.read config = .ok o := rfl
  obtain ⟨-, hholds, -, hboots⟩ := read_exact config
  exact ⟨hread, (hholds o).mp hread, (hboots o hread).2⟩

end Options

end HalfLink.Build
