/-!
# Values in TOML

A document is a table of values under keys. A table remembers how it came to be, because
that decides what may be added to it later.
-/

namespace MapTables.Toml

/-- A value that is no table. -/
inductive Scalar where
  | text (s : String)
  | integer (n : Int)
  | truth (b : Bool)
  /-- A number with a fraction, a time, or a list. -/
  | different
deriving DecidableEq, Repr

/-- How a table came to be. -/
inductive Form where
  /-- By the header of a table inside it. -/
  | implied
  /-- By its own header, or as the document itself. -/
  | headed
  /-- By a key with dots. -/
  | dotted
  /-- Between braces; nothing can be added to it. -/
  | closed
deriving DecidableEq, Repr

inductive Value where
  | scalar (s : Scalar)
  | table (form : Form) (entries : List (String × Value))
  /-- A list of tables that headers add to, of which only the last one counts. -/
  | tables (last : List (String × Value))

abbrev Entries := List (String × Value)

namespace Entries

def replace (key : String) (v : Value) (es : Entries) : Entries :=
  es.map fun e => if e.1 = key then (key, v) else e

/-- The entries with a value under a new key. -/
def insert? (key : String) (v : Value) (es : Entries) : Option Entries :=
  if (es.lookup key).isSome then none else some (es ++ [(key, v)])

/-- Changes the table at a path of keys, making tables on the way as far as they are
missing. Keys with dots do not reach into tables that have a header. -/
def within (dots : Bool) (change : Form → Entries → Option Entries) :
    List String → Form → Entries → Option Entries
  | [], form, es => change form es
  | key :: keys, _, es =>
    match es.lookup key with
    | none => do
      let form := if dots then Form.dotted else .implied
      return es ++ [(key, .table form (← within dots change keys form []))]
    | some (.table form inner) =>
      if form = .closed ∨ (dots ∧ form = .headed) then none
      else do return es.replace key (.table form (← within dots change keys form inner))
    | some (.tables inner) => do
      return es.replace key (.tables (← within dots change keys .headed inner))
    | some (.scalar _) => none

def put (path : List String) (v : Value) (es : Entries) : Option Entries := do
  let key ← path.getLast?
  let keys := path.dropLast
  -- A key with dots adds only to a table that such keys have made.
  es.within true (fun form es =>
    if decide (form = .dotted) == keys.isEmpty then none else es.insert? key v) keys .headed

def putAt (table path : List String) (v : Value) (es : Entries) : Option Entries :=
  es.within false (fun _ inner => inner.put path v) table .headed

def openTable (path : List String) (es : Entries) : Option Entries := do
  let key ← path.getLast?
  es.within false (fun _ es =>
    match es.lookup key with
    | none => some (es ++ [(key, .table .headed [])])
    | some (.table .implied inner) => some (es.replace key (.table .headed inner))
    | some _ => none) path.dropLast .headed

/-- Adds a table to a list of tables. -/
def addTable (path : List String) (es : Entries) : Option Entries := do
  let key ← path.getLast?
  es.within false (fun _ es =>
    match es.lookup key with
    | none => some (es ++ [(key, .tables [])])
    | some (.tables _) => some (es.replace key (.tables []))
    | some _ => none) path.dropLast .headed

def table? : List String → Entries → Option Entries
  | [], es => some es
  | key :: keys, es =>
    match es.lookup key with
    | some (.table _ inner) => table? keys inner
    | _ => none

end Entries
end MapTables.Toml
