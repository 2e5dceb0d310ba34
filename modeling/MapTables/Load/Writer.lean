import MapTables.Assembly.Dispatch
import MapTables.Load.Fault

/-!
# The writer

Rows are kept back, table by table, until there are enough of them to be stored together.
A flush stores the waiting rows of one table, makes that final and begins the next
transaction. Rows go on waiting until all of that has succeeded.
-/

namespace MapTables

structure Totals where
  flushes : Nat := 0
  written : Nat := 0
  /-- Tags that the store left out. -/
  duplicateTags : Nat := 0
deriving DecidableEq, Repr

def Totals.add (t : Totals) (s : Stored) : Totals :=
  ⟨t.flushes + 1, t.written + s.written, t.duplicateTags + s.duplicateTags⟩

/-- The rows of one table that wait, and what was stored before them. -/
structure Buffer where
  pending : Array Row := #[]
  totals : Totals := {}

namespace Buffer

def push (b : Buffer) (r : Row) : Buffer := { b with pending := b.pending.push r }

def settle (b : Buffer) (s : Stored) : Buffer := ⟨#[], b.totals.add s⟩

def discard (b : Buffer) : Buffer := { b with pending := #[] }

end Buffer

structure Writer where
  dataset : Dataset
  /-- So many waiting rows of a table are stored together. -/
  batchSize : Nat
  buffers : PerTable Buffer := .const {}

namespace Writer

def pending (w : Writer) (k : TableKind) : Array Row := (w.buffers.get k).pending

def enqueue (w : Writer) (r : Placed) : Writer :=
  match w with
  | ⟨dataset, batchSize, buffers⟩ => ⟨dataset, batchSize, buffers.modify r.1 (·.push r.2)⟩

instance : RowSink Writer := ⟨enqueue⟩

def settle (w : Writer) (k : TableKind) (s : Stored) : Writer :=
  { w with buffers := w.buffers.modify k (·.settle s) }

def waiting (w : Writer) : Nat := TableKind.all.foldr (fun k n => (w.pending k).size + n) 0

def discard (w : Writer) : Writer :=
  { w with buffers := TableKind.all.foldl (fun b k => b.modify k Buffer.discard) w.buffers }

/-- The table's waiting rows are enough for a flush. -/
def isDue (w : Writer) (k : TableKind) : Bool := w.batchSize ≤ (w.pending k).size

end Writer

structure Writing (σ : Type) where
  writer : Writer
  store : σ
  lines : Journal := #[]

/-- Something that a writer at work does. A fault leaves what was done before it. -/
abbrev WritingM (σ : Type) := ExceptT LoadFault (StateM (Writing σ))

namespace Writing

variable {σ : Type}

def sayAll (lines : Journal) : WritingM σ Unit :=
  modify fun s => { s with lines := s.lines ++ lines }

def say (line : Line) : WritingM σ Unit := sayAll #[line]

def enqueue (rows : List Placed) : WritingM σ Unit :=
  modify fun
    | ⟨writer, store, lines⟩ => ⟨rows.foldl Writer.enqueue writer, store, lines⟩

/-- Drops the rows that wait; how many they were. -/
def discard : WritingM σ Nat := do
  let w := (← get).writer
  modify fun s => { s with writer := w.discard }
  return w.waiting

variable [Store σ]

def reply (r : Request) : WritingM σ (Except StoreFault r.Answer) := fun
  | ⟨writer, store, lines⟩ =>
    let (answer, store) := Store.ask r store
    (.ok answer, ⟨writer, store, lines⟩)

def ask (r : Request) (fault : StoreFault → LoadFault) : WritingM σ r.Answer := do
  match ← reply r with
  | .ok answer => return answer
  | .error f => throw (fault f)

def flush (k : TableKind) : WritingM σ Unit := do
  let w := (← get).writer
  let table := w.dataset.tableName k
  let rows := (w.pending k).toList
  let stored : Stored ← ask (.insert k table rows) (.notWritten table)
  ask .commit (.notWritten table)
  ask .beginTransaction (.notWritten table)
  -- Only now the rows stop waiting: after any refusal above the next flush has them again.
  say (Journal.debug
    s!"flushed {rows.length} rows into {table} ({stored.duplicateTags} duplicate tags skipped)")
  modify fun s => { s with writer := s.writer.settle k stored }

/-- Stores the waiting rows of a table if they are enough; whether they were. -/
def flushIfDue (k : TableKind) : WritingM σ Bool := do
  if (← get).writer.isDue k then
    flush k
    return true
  else return false

/-- Stores the waiting rows of each table that has enough of them. -/
def poll : WritingM σ Unit :=
  TableKind.all.forM fun k => do
    let _ ← flushIfDue k

def flushAll : WritingM σ Unit :=
  TableKind.all.forM fun k => do
    if (← get).writer.pending k |>.isEmpty then return ()
    else flush k

end Writing
end MapTables
