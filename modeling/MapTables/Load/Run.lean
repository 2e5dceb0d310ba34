import MapTables.Input.Transcoding
import MapTables.Load.Options
import MapTables.Load.Report
import MapTables.Markup.Document
import MapTables.Progress.Monitor

/-!
# Loads

A load makes the ten tables of a dataset, reads a document event by event, and stores
the rows that come of it. Before each feature the watcher may end it. In the end all is
made final, or what is not yet final is taken back, and the store is let go in any case.
-/

namespace MapTables

inductive Phase where
  | unopened
  | reading
  | draining
  | closed
deriving DecidableEq, Repr

def Phase.word : Phase → String
  | .unopened => "unopened"
  | .reading => "parsing"
  | .draining => "draining"
  | .closed => "closed"

structure Load (σ ω : Type) where
  writing : Writing σ
  monitor : Monitor
  watcher : ω
  assembler : Assembler := {}
  phase : Phase := .unopened

/-- Something that a load does. A fault leaves what was done before it. -/
abbrev LoadM (σ ω : Type) := ExceptT LoadFault (StateM (Load σ ω))

namespace Load

variable {σ ω : Type}

def byWriter {α : Type} (x : WritingM σ α) : LoadM σ ω α := fun
  | ⟨writing, monitor, watcher, assembler, phase⟩ =>
    let (result, writing) := x writing
    (result, ⟨writing, monitor, watcher, assembler, phase⟩)

def sayAll (lines : Journal) : LoadM σ ω Unit := byWriter (Writing.sayAll lines)

def say (line : Line) : LoadM σ ω Unit := byWriter (Writing.say line)

def enter (phase : Phase) : LoadM σ ω Unit := do
  say (Journal.debug s!"ingestion {(← get).phase.word} -> {phase.word}")
  modify fun l => { l with phase }

def dataset : LoadM σ ω Dataset := return (← get).writing.writer.dataset

section Reading

/-- The assembler's part of an event: its rows wait from then on. -/
def assemble (e : Event) : LoadM σ ω Change := fun
  | ⟨⟨writer, store, lines⟩, monitor, watcher, assembler, phase⟩ =>
    let (answer, ⟨assembler, writer, lines⟩) := Assembling.dispatch e ⟨assembler, writer, lines⟩
    (answer.mapError .malformed, ⟨⟨writer, store, lines⟩, monitor, watcher, assembler, phase⟩)

variable [Watcher ω]

def isCancelled : LoadM σ ω Bool := modifyGet fun l =>
  let (stop, watcher) := Watcher.poll l.watcher
  (stop, { l with watcher })

def cancel : LoadM σ ω Unit := do
  let discarded ← byWriter Writing.discard
  say (Journal.info s!"ingestion cancelled, {discarded} buffered rows discarded")
  throw .cancelled

def count (gauge : Gauge) (drawn : Nat) : LoadM σ ω Unit := do
  let l ← get
  let sampled := l.monitor.featureClosed gauge drawn l.watcher
  sayAll sampled.lines
  modify fun l => { l with monitor := sampled.monitor, watcher := sampled.watcher }

def countLast : LoadM σ ω Unit := do
  let l ← get
  let (watcher, lines) := l.monitor.finish l.watcher
  sayAll lines
  modify fun l => { l with watcher }

variable [Store σ]

def takeEvent (gauge : Gauge) (drawn : Nat) (e : Event) : LoadM σ ω Unit := do
  if e.opensFeature then
    if ← isCancelled then cancel
  match ← assemble e with
  | .closed _ =>
    byWriter Writing.poll
    count gauge drawn
  | _ => return ()

def take (gauge : Gauge) (i : Item) : LoadM σ ω Unit :=
  match i.what with
  | .error fault => throw (.unreadable fault)
  | .ok e => takeEvent gauge i.drawn e

/-- Stores what still waits once the document is over. -/
def drain : LoadM σ ω Counts := do
  match (← get).assembler.finish with
  | .error fault => throw (.malformed fault)
  | .ok counts =>
    enter .draining
    byWriter Writing.flushAll
    countLast
    return counts

def consume (gauge : Gauge) (items : List Item) : LoadM σ ω Counts := do
  enter .reading
  items.forM (take gauge)
  drain

end Reading

section Storing

variable [Store σ]

def ask (r : Request) (fault : StoreFault → LoadFault) : LoadM σ ω r.Answer :=
  byWriter (Writing.ask r fault)

def reply (r : Request) : LoadM σ ω (Except StoreFault r.Answer) := byWriter (Writing.reply r)

def dropTables : LoadM σ ω Unit := do
  (← dataset).tableNames.forM fun table => ask (.dropTable table) (.refused .dropTable)

def checkTables : LoadM σ ω Unit := do
  (← dataset).tableNames.forM fun table => do
    let found : Bool ← ask (.tableExists table) (.refused .lookUpTables)
    if found then throw (.tableExists table)

def createTables : LoadM σ ω Unit := do
  (← dataset).tables.forM fun t => ask (.createTable t.1 t.2) (.refused .createTable)

def openTables (dropExisting : Bool) : LoadM σ ω Unit := do
  if dropExisting then dropTables
  checkTables
  createTables
  ask .beginTransaction (.refused .beginTransaction)

/-- Takes back what is not final. A refusal is only noted. -/
def rollback : LoadM σ ω Unit := do
  match ← reply .rollback with
  | .ok _ => return ()
  | .error f => say (Journal.warn s!"rollback failed: {f.message}")

/-- Makes all final, or takes it back. -/
def settle (result : Except LoadFault Counts) : LoadM σ ω (Except LoadFault Counts) := do
  match result with
  | .error fault =>
    rollback
    return .error fault
  | .ok counts =>
    match ← reply .commit with
    | .ok _ => return .ok counts
    | .error f =>
      rollback
      return .error (.refused .commit f)

def close (result : Except LoadFault Counts) : LoadM σ ω Report := do
  enter .closed
  let settled ← settle result
  let released ← reply .release
  match settled, released with
  | .ok counts, .ok _ => return .ofWriter (← get).writing.writer counts
  | .ok _, .error f => throw (.notReleased f)
  | .error fault, .ok _ => throw fault
  | .error fault, .error f =>
    -- What ended the load matters more than a store that is not let go.
    say (Journal.warn s!"failed to release destination after an aborted ingestion: {f.message}")
    throw fault

end Storing

/-- The result of something, a fault included. -/
def attempt {α : Type} (x : LoadM σ ω α) : LoadM σ ω (Except LoadFault α) := fun l =>
  let (result, l) := x l
  (.ok result, l)

variable [Store σ] [Watcher ω]

def run (dropExisting : Bool) (gauge : Gauge) (items : List Item) : LoadM σ ω Report := do
  let result ← attempt do
    openTables dropExisting
    consume gauge items
  let report ← close result
  say (Journal.info report.text)
  return report

end Load

/-- An input to load: what it delivers, its size if that is known, how to tell how much of it
was drawn, and what decodes it. -/
structure Input where
  delivery : Delivery
  /-- Octets of the whole input; zero when unknown. -/
  total : Nat := 0
  gauge : Gauge := .ofReader
  codecs : Codecs := {}

structure Outcome (σ ω : Type) where
  result : Except LoadFault Report
  store : σ
  watcher : ω
  lines : Journal := #[]
  /-- How often it was asked how much of the input was drawn. -/
  asked : Nat := 0
  /-- What was assembled by then. -/
  counts : Counts := {}

def load {σ ω : Type} [Store σ] [Watcher ω] (input : Input) (store : σ) (base : String)
    (watcher : ω) (options : Options) : Outcome σ ω :=
  match Dataset.ofBase base with
  | .error f =>
    { result := .error (.refused .validateNames (.invalidName base f)), store, watcher }
  | .ok dataset =>
    match input.delivery.toUtf8 input.codecs options.encoding with
    | .error f => { result := .error (.unreadable f), store, watcher }
    | .ok (encoding, delivery) =>
      let lines := #[
        Journal.debug s!"reading OSM input as {encoding.name}",
        Journal.info s!"ingesting OSM XML into tables {dataset.base}_*"]
      let (result, l) := Load.run options.dropExisting input.gauge
        (Transcript.ofDelivery delivery).items
        { writing := { writer := { dataset, batchSize := options.batchSize }, store, lines }
          monitor := .ofTotal input.total options.averageFeature
          watcher }
      { result, store := l.writing.store, watcher := l.watcher, lines := l.writing.lines
        asked := l.monitor.asked, counts := l.assembler.counts }

end MapTables
