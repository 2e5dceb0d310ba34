import MapTables.Store.Basic
import MapTables.Store.Catalog

/-!
# Stores in memory

A store that keeps rows as they come. Rows are staged until a commit moves them into
their tables; a rollback forgets them. Making or dropping a table takes effect at once.
It counts what it was asked, and can be told to refuse writes to a table, or its release.
-/

namespace MapTables

structure Memory where
  /-- The committed rows of each table. -/
  tables : Catalog (Array Row) := {}
  /-- Rows that wait for a commit, each with its table. -/
  staged : Array (String × Row) := #[]
  /-- The sizes of the batches that each table was given. -/
  batchSizes : Catalog (Array Nat) := {}
  inTransaction : Bool := false
  commits : Nat := 0
  rollbacks : Nat := 0
  batches : Nat := 0
  releases : Nat := 0
  /-- Writes to this table are refused. -/
  lockedTable : Option String := none
  refusesRelease : Bool := false

namespace Memory

def rows (m : Memory) (table : String) : Array Row := (m.tables.get? table).getD #[]

/-- A row that gives a key to the owner that the tag gives it to. -/
def givesKey (tag : TagRow) : Row → Bool
  | .tag t => t.owner == tag.owner && t.key == tag.key
  | _ => false

/-- The tag's owner has its key in a table, committed or staged. -/
def hasTag (m : Memory) (table : String) (tag : TagRow) : Bool :=
  (m.rows table).any (givesKey tag) || m.staged.any fun s => s.1 == table && givesKey tag s.2

def leavesOut (m : Memory) (kind : TableKind) (table : String) : Row → Bool
  | .tag tag => kind.holdsTags && m.hasTag table tag
  | _ => false

def stage (kind : TableKind) (table : String) (s : Memory × Stored) (row : Row) : Memory × Stored :=
  if s.1.leavesOut kind table row then
    (s.1, { s.2 with duplicateTags := s.2.duplicateTags + 1 })
  else
    ({ s.1 with staged := s.1.staged.push (table, row) }, { s.2 with written := s.2.written + 1 })

def insert (m : Memory) (kind : TableKind) (table : String) (rows : List Row) :
    Reply Memory Stored :=
  if m.lockedTable = some table then (.error (.rejected s!"writes to {table} are disabled"), m)
  else if !m.tables.contains table then
    (.error (.rejected s!"table {table} does not exist"), m)
  else
    let counted := { m with
      batches := m.batches + 1
      batchSizes := m.batchSizes.alter table (·.push rows.length) #[rows.length] }
    let (next, stored) := rows.foldl (stage kind table) (counted, {})
    (.ok stored, next)

def settle (tables : Catalog (Array Row)) (s : String × Row) : Catalog (Array Row) :=
  tables.alter s.1 (·.push s.2) #[s.2]

def commit (m : Memory) : Memory :=
  { m with
    tables := m.staged.foldl settle m.tables
    staged := #[]
    inTransaction := false
    commits := m.commits + 1 }

def rollback (m : Memory) : Memory :=
  { m with staged := #[], inTransaction := false, rollbacks := m.rollbacks + 1 }

def createTable (m : Memory) (table : String) : Reply Memory Unit :=
  if m.tables.contains table then (.error (.rejected s!"table {table} already exists"), m)
  else (.ok (), { m with tables := m.tables.insert table #[] })

def release (m : Memory) : Reply Memory Unit :=
  if m.refusesRelease then (.error (.rejected "release refused"), m)
  else (.ok (), { m with releases := m.releases + 1 })

def ask : (r : Request) → Memory → Reply Memory r.Answer
  | .tableExists table, m => (.ok (m.tables.contains table), m)
  | .dropTable table, m => (.ok (), { m with tables := m.tables.erase table })
  | .createTable _ table, m => m.createTable table
  | .beginTransaction, m => (.ok (), { m with inTransaction := true })
  | .insert kind table rows, m => m.insert kind table rows
  | .commit, m => (.ok (), m.commit)
  | .rollback, m => (.ok (), m.rollback)
  | .release, m => m.release

instance : Store Memory := ⟨ask⟩

end Memory
end MapTables
