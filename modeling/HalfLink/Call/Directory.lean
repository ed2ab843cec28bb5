import HalfLink.Frame.Basic

/-! Handlers of the answering half, and the directory of at most sixteen of them that it is built
with. Once closed, a directory does not change. -/
namespace HalfLink

def maxHandlers : Nat := 16

/-- Serves one request: takes the request, the response as it stands and the device's state `τ`, and
gives the response to send and the state afterwards. -/
abbrev Handler (τ : Type) := Bytes → Payload → τ → Payload × τ

inductive DirectoryError
  | duplicate (id : TransactionId)
  | full
deriving DecidableEq, Repr

structure Directory.Entry (τ : Type) where
  id : TransactionId
  handler : Handler τ

structure Directory (τ : Type) where
  entries : List (Directory.Entry τ)

namespace Directory

variable {τ : Type}

def lookup (d : Directory τ) (id : TransactionId) : Option (Handler τ) :=
  (d.entries.find? (·.id = id)).map (·.handler)

def contains (d : Directory τ) (id : TransactionId) : Bool := (d.lookup id).isSome

def ids (d : Directory τ) : List TransactionId := d.entries.map (·.id)

def size (d : Directory τ) : Nat := d.entries.length

def isEmpty (d : Directory τ) : Bool := d.entries.isEmpty

def describe (d : Directory τ) : String :=
  "[" ++ ", ".intercalate (d.ids.map (·.describe)) ++ "]"

/-- How a record with one field is shown. -/
def recordText (name field value : String) : String :=
  (name ++ " ").push '{' ++ " " ++ field ++ ": " ++ (value ++ " ").push '}'

/-- A directory that handlers can still be added to. -/
structure Draft (τ : Type) where
  entries : List (Entry τ) := []

namespace Draft

def empty : Draft τ := ⟨[]⟩

/-- Adds a handler. An id keeps its first handler, and a failed registration changes nothing. -/
def register (d : Draft τ) (id : TransactionId) (handler : Handler τ) :
    Except DirectoryError Unit × Draft τ :=
  if d.entries.any (·.id = id) then (.error (.duplicate id), d)
  else if d.entries.length < maxHandlers then (.ok (), ⟨d.entries ++ [⟨id, handler⟩]⟩)
  else (.error .full, d)

/-- The draft with one handler more, for chains that end at the first failure. -/
def add (d : Draft τ) (id : TransactionId) (handler : Handler τ) :
    Except DirectoryError (Draft τ) :=
  match d.register id handler with
  | (.ok _, d') => .ok d'
  | (.error e, _) => .error e

def size (d : Draft τ) : Nat := d.entries.length

def isEmpty (d : Draft τ) : Bool := d.entries.isEmpty

def close (d : Draft τ) : Directory τ := ⟨d.entries⟩

def describe (d : Draft τ) : String :=
  let entries := d.entries.map fun e => recordText "HandlerEntry" "id" e.id.describe
  recordText "RegistryBuilder" "entries" ("[" ++ ", ".intercalate entries ++ "]")

end Draft

/-- The directory of a list of handlers, or its first failure. -/
def ofEntries (entries : List (Entry τ)) : Except DirectoryError (Directory τ) :=
  (entries.foldlM (fun (d : Draft τ) e => d.add e.id e.handler) .empty).map (·.close)

end Directory

end HalfLink
