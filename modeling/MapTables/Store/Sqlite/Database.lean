import MapTables.Store.Basic
import MapTables.Store.Catalog
import MapTables.Store.Sqlite.Cell
import MapTables.Store.Sqlite.Fault
import MapTables.Store.Sqlite.Schema
import MapTables.Table.Description

/-!
# SQLite databases

A database holds tables and views under names whose ASCII case does not count. Outside a
transaction each statement is final; a rollback gives back what the database held when
the transaction began. Statements that fill tables are prepared when they are first used
and kept until they are let go, and a kept statement is not looked at again before it
runs.
-/

namespace MapTables.Sqlite

/-- A row of cells with the cells that make up its key. -/
structure Entry where
  key : List Cell
  cells : List Cell
deriving DecidableEq

structure StoredTable where
  /-- The name as it was first written. -/
  name : String
  columns : List String
  key : List String
  rows : Array Entry := #[]

namespace StoredTable

def pick (t : StoredTable) (cells : List Cell) (names : List String) : List Cell :=
  names.filterMap fun n => (t.columns.zip cells).lookup n

def entry (t : StoredTable) (cells : List Cell) : Entry := ⟨t.pick cells t.key, cells⟩

/-- A row of the table has the entry's key. A table without a key takes any row. -/
def hasKey (t : StoredTable) (e : Entry) : Bool :=
  !t.key.isEmpty && t.rows.any fun r => r.key == e.key

def push (t : StoredTable) (e : Entry) : StoredTable := { t with rows := t.rows.push e }

def unknownColumn? (t : StoredTable) (names : List String) : Option String :=
  names.find? fun n => !t.columns.contains n

def keyBelow (a b : Entry) : Bool :=
  match a.key, b.key with
  | [.integer m], [.integer n] => m ≤ n
  | _, _ => true

/-- The rows in the order of the table: by the key where that is one number, else as they
came. -/
def inOrder (t : StoredTable) : List (List Cell) :=
  let rows := t.rows.toList
  (if t.key.length = 1 then rows.mergeSort keyBelow else rows).map Entry.cells

end StoredTable

structure Contents where
  tables : Catalog StoredTable := {}
  /-- The views' names as they were first written. -/
  views : Catalog String := {}

def fold (name : String) : String := String.ofList (name.toList.map Char.toLower)

/-- The tables that list all others, each under the names it goes by. -/
def catalogs : List (String × String) := [
  ("sqlite_master", "sqlite_master"), ("sqlite_schema", "sqlite_master"),
  ("sqlite_temp_master", "sqlite_temp_master"), ("sqlite_temp_schema", "sqlite_temp_master")]

def catalog? (name : String) : Option String := catalogs.lookup (fold name)

/-- Names that only the engine may give. -/
def isReserved (name : String) : Bool := (fold name).startsWith "sqlite_"

namespace Contents

def table? (c : Contents) (name : String) : Option StoredTable := c.tables.get? (fold name)
def view? (c : Contents) (name : String) : Option String := c.views.get? (fold name)

/-- A name that a statement gives behind its first words must be free. -/
def checkName (c : Contents) (words name statement : String) : Except SqlFault Unit :=
  let taken (kind : ObjectKind) := SqlFault.nameTaken kind (quoteName name) statement words.length
  if isReserved name then .error (.reservedName name)
  else if (c.table? name).isSome then .error (taken .table)
  else if (c.view? name).isSome then .error (taken .view)
  else .ok ()

def addTable (c : Contents) (t : StoredTable) : Contents :=
  { c with tables := c.tables.insert (fold t.name) t }

def create (c : Contents) (kind : TableKind) (table : String) : Except SqlFault Contents := do
  c.checkName createTableWords table (createStatement kind table)
  return c.addTable { name := table, columns := columnNames kind, key := key kind }

def drop (c : Contents) (table : String) : Except SqlFault Contents :=
  match catalog? table, c.view? table with
  | some name, _ => .error (.dropsCatalog name)
  | none, some name => .error (.dropsView name)
  | none, none => .ok { c with tables := c.tables.erase (fold table) }

def target (c : Contents) (kind : TableKind) (table : String) : Except SqlFault StoredTable :=
  match catalog? table, c.table? table, c.view? table with
  | some name, _, _ => .error (.writesCatalog name)
  | none, some t, _ =>
    match t.unknownColumn? (columnNames kind) with
    | some column => .error (.noSuchColumn table column)
    | none => .ok t
  | none, none, some name => .error (.writesView name)
  | none, none, none => .error (.noSuchTable table)

end Contents

inductive Statement where
  | lookUp
  | fill (kind : TableKind) (table : String)
deriving DecidableEq, Repr

def keptStatements : Nat := 16

structure Database where
  contents : Contents := {}
  /-- What the database held when the open transaction began. -/
  before : Option Contents := none
  /-- The kept statements, the one used last in front. -/
  prepared : List Statement := []
  /-- The file holds something else than a database. -/
  foreign : Bool := false

namespace Database

def autocommit (d : Database) : Bool := d.before.isNone

def refuse (operation : String) (f : SqlFault) : StoreFault := .engine operation ⟨f.message, [f.code]⟩

def read (d : Database) : Except SqlFault Contents :=
  if d.foreign then .error .notADatabase else .ok d.contents

def keep (d : Database) (s : Statement) : Database :=
  { d with prepared := (s :: d.prepared.filter (· ≠ s)).take keptStatements }

def tableExists (d : Database) (table : String) : Reply Database Bool :=
  match d.read with
  | .error f => (.error (refuse "prepare table lookup" f), d)
  | .ok c => (.ok (c.table? table).isSome, d.keep .lookUp)

def change (d : Database) (operation : String) (f : Contents → Except SqlFault Contents) :
    Reply Database Unit :=
  match d.read >>= f with
  | .error fault => (.error (refuse operation fault), d)
  | .ok c => (.ok (), { d with contents := c })

def dropTable (d : Database) (table : String) : Reply Database Unit :=
  d.change "drop table" fun c => c.drop table

def createTable (d : Database) (kind : TableKind) (table : String) : Reply Database Unit :=
  d.change "create table" fun c => c.create kind table

def beginTransaction (d : Database) : Reply Database Unit :=
  match d.before with
  | some _ => (.error (refuse "begin transaction" .nestedTransaction), d)
  | none => (.ok (), { d with before := some d.contents })

def commit (d : Database) : Reply Database Unit :=
  match d.before with
  | none => (.error (refuse "commit transaction" .noTransaction), d)
  | some _ => (.ok (), { d with before := none })

/-- Goes back to where the transaction began; outside one there is nothing to do. -/
def rollback (d : Database) : Database :=
  match d.before with
  | none => d
  | some c => { d with contents := c, before := none }

def release (d : Database) : Database := { d with prepared := [] }

def pushEntry (d : Database) (table : String) (e : Entry) : Database :=
  match d with
  | ⟨⟨tables, views⟩, before, prepared, foreign⟩ =>
    ⟨⟨tables.alter (fold table) (·.push e) ⟨table, [], [], #[e]⟩, views⟩, before, prepared, foreign⟩

/-- Puts cells into a table; whether they were taken. A tag whose owner has its key is left
out, another row with a key that is taken is refused. -/
def put (d : Database) (kind : TableKind) (table : String) (t : StoredTable) (cells : List Cell) :
    Reply Database Bool :=
  let e := t.entry cells
  if t.hasKey e then
    if kind.holdsTags then (.ok false, d)
    else (.error (refuse "insert row" (.sameKey t.name t.key)), d)
  else (.ok true, d.pushEntry table e)

def insertRow (d : Database) (kind : TableKind) (table : String) (row : Row) :
    Reply Database Bool :=
  let statement := Statement.fill kind table
  let target := d.read >>= fun c => c.target kind table
  -- A kept statement is not prepared again: what it lacks is noticed once it is run.
  match target, d.prepared.contains statement with
  | .error f, false => (.error (refuse "prepare insert statement" f), d)
  | target, _ =>
    let d := d.keep statement
    match cells? kind row, target with
    | none, _ =>
      (.error (.rejected s!"{row.description} does not belong in the {kind.word} table"), d)
    | some _, .error f => (.error (refuse "insert row" f), d)
    | some cells, .ok t => d.put kind table t cells

def insertRows (d : Database) (kind : TableKind) (table : String) (done : Stored) :
    List Row → Reply Database Stored
  | [] => (.ok done, d)
  | row :: rows =>
    match d.insertRow kind table row with
    | (.error f, d) => (.error f, d)
    | (.ok true, d) => d.insertRows kind table { done with written := done.written + 1 } rows
    | (.ok false, d) =>
      d.insertRows kind table { done with duplicateTags := done.duplicateTags + 1 } rows

def ask : (r : Request) → Database → Reply Database r.Answer
  | .tableExists table, d => d.tableExists table
  | .dropTable table, d => d.dropTable table
  | .createTable kind table, d => d.createTable kind table
  | .beginTransaction, d => d.beginTransaction
  | .insert kind table rows, d => d.insertRows kind table {} rows
  | .commit, d => d.commit
  | .rollback, d => (.ok (), d.rollback)
  | .release, d => (.ok (), d.release)

instance : Store Database := ⟨ask⟩

/-- A table with one column of numbers, made by someone else. -/
def makeTable (d : Database) (name : String) : Reply Database Unit :=
  d.change "create table" fun c => do
    c.checkName createTableWords name (createTableWords ++ quoteName name ++ " (id INTEGER)")
    return c.addTable { name, columns := ["id"], key := [] }

def makeView (d : Database) (name : String) : Reply Database Unit :=
  d.change "create view" fun c => do
    c.checkName createViewWords name (createViewWords ++ quoteName name ++ " AS SELECT 1 AS id")
    return { c with views := c.views.insert (fold name) name }

end Database
end MapTables.Sqlite
