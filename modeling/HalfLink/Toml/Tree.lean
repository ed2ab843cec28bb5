import HalfLink.Toml.Value

/-! The document while it is read. A table knows how it came to be, because that decides whether a
later header or dotted key may still add to it. -/
namespace HalfLink.Toml

inductive Origin
  /-- Named on the way to a table that a header declares. -/
  | implied
  /-- Named on the way to the value of a dotted key. -/
  | dotted
  /-- Declared by a header of its own. -/
  | declared
deriving DecidableEq, Repr

inductive Node
  | value (v : Value)
  | table (origin : Origin) (entries : List (String × Node))
  /-- The tables of a repeated header, in order. -/
  | tables (all : List (List (String × Node)))

abbrev Entries := List (String × Node)

mutual

def Node.toValue : Node → Value
  | .value v => v
  | .table _ entries => .table (entryValues entries)
  | .tables all => .array (tableValues all)

def entryValues : List (String × Node) → List (String × Value)
  | [] => []
  | (key, node) :: rest => (key, node.toValue) :: entryValues rest

def tableValues : List (List (String × Node)) → List Value
  | [] => []
  | entries :: rest => .table (entryValues entries) :: tableValues rest

end

structure Table where
  origin : Origin
  entries : Entries

namespace Table

def empty (origin : Origin) : Table := ⟨origin, []⟩

def get? (t : Table) (key : String) : Option Node := t.entries.lookup key

def put (t : Table) (key : String) (node : Node) : Table :=
  if (t.get? key).isSome then
    { t with entries := t.entries.map fun e => if e.1 == key then (key, node) else e }
  else { t with entries := t.entries ++ [(key, node)] }

def erase (t : Table) (key : String) : Table :=
  { t with entries := t.entries.filter (·.1 != key) }

def toValue (t : Table) : Value := .table (entryValues t.entries)

/-- Changes the table at a path, naming the tables on the way that are not there. The path of a
dotted key does not lead through declared tables, and no path leads through a value. A repeated
header stands for the last of its tables. -/
def modifyAt? (origin : Origin) (f : Table → Option Table) : List String → Table → Option Table
  | [], t => f t
  | key :: path, t =>
    match t.get? key with
    | none => do
      let child ← modifyAt? origin f path (.empty origin)
      return t.put key (.table child.origin child.entries)
    | some (.value _) => none
    | some (.table childOrigin entries) =>
      if origin = .dotted ∧ childOrigin = .declared then none
      else do
        let child ← modifyAt? origin f path ⟨childOrigin, entries⟩
        return t.put key (.table child.origin child.entries)
    | some (.tables all) =>
      match all.getLast? with
      | none => none
      | some entries => do
        let child ← modifyAt? origin f path ⟨.declared, entries⟩
        return t.put key (.tables (all.dropLast ++ [child.entries]))

/-- Adds the value of a key, whose path leads to a table that dotted keys made. -/
def insert? (t : Table) (path : List String) (key : String) (v : Value) : Option Table :=
  t.modifyAt? .dotted (fun target =>
    if (target.origin = .dotted ↔ path = []) then none
    else if (target.get? key).isSome then none
    else some (target.put key (.value v))) path

/-- Declares the table of a header: once, unless it was only implied so far. An implied table takes
its place among the others anew, behind them. -/
def declare? (t : Table) (path : List String) (key : String) : Option Table :=
  t.modifyAt? .implied (fun parent =>
    match parent.get? key with
    | none => some (parent.put key (.table .declared []))
    | some (.table .implied entries) =>
      some ((parent.erase key).put key (.table .declared entries))
    | some _ => none) path

/-- Adds one more table of a repeated header. -/
def append? (t : Table) (path : List String) (key : String) : Option Table :=
  t.modifyAt? .implied (fun parent =>
    match parent.get? key with
    | none => some (parent.put key (.tables [[]]))
    | some (.tables all) => some (parent.put key (.tables (all ++ [[]])))
    | some _ => none) path

end Table

end HalfLink.Toml
