import MapTables.Command.Fault
import MapTables.Command.TableName
import MapTables.Command.Variables
import MapTables.Journal
import MapTables.Load.Options
import MapTables.Toml.Document

/-!
# Settings

What the command is to do, put together from its sources: configuration files, then the
environment, then flags. Of two sources that give a setting the later one counts.
-/

namespace MapTables.Command

inductive Verbosity where
  | off
  | error
  | warn
  | info
  | debug
  | trace
deriving DecidableEq, Repr

namespace Verbosity

def all : List Verbosity := [.off, .error, .warn, .info, .debug, .trace]

def word : Verbosity → String
  | .off => "off"
  | .error => "error"
  | .warn => "warn"
  | .info => "info"
  | .debug => "debug"
  | .trace => "trace"

def ofWord? (s : String) : Option Verbosity :=
  all.find? fun v => s.toList.map Char.toLower == v.word.toList

def lowest : Verbosity → Option Level
  | .off | .error => none
  | .warn => some .warn
  | .info => some .info
  | .debug | .trace => some .debug

def shown (v : Verbosity) (j : Journal) : Journal :=
  match v.lowest with
  | some level => j.atLeast level
  | none => #[]

end Verbosity

structure Settings where
  input : String
  database : String
  dataset : Dataset
  options : Options
  verbosity : Verbosity

namespace Settings

/-- The table of a configuration file that holds the settings. -/
def tablePath : List String := ["cmds", "osmload-cli"]

def ofValue : Toml.Value → Given
  | .scalar (.text s) => .text s
  | .scalar (.integer n) => .number n
  | .scalar (.truth b) => .truth b
  | _ => .different

def ofDocument (es : Toml.Entries) : Layer :=
  let inner := (es.table? tablePath).getD []
  Field.all.filterMap fun f => (inner.lookup f.key).map fun v => (f, ofValue v)

/-- What the last layer that has the setting gives it. -/
def given? (layers : List Layer) (f : Field) : Option Given :=
  layers.reverse.findSome? fun l => l.lookup f

def text (layers : List Layer) (f : Field) : Except CommandFault (Option String) :=
  match given? layers f with
  | none => .ok none
  | some (.text s) => .ok (some s)
  | some _ => .error .configuration

def number (layers : List Layer) (f : Field) : Except CommandFault (Option Nat) :=
  match given? layers f with
  | none => .ok none
  | some (.number (.ofNat n)) => .ok (some n)
  | some _ => .error .configuration

def truth (layers : List Layer) (f : Field) : Except CommandFault (Option Bool) :=
  match given? layers f with
  | none => .ok none
  | some (.truth b) => .ok (some b)
  | some _ => .error .configuration

/-- The settings before they are looked at, each as its source gives it. -/
structure Draft where
  input : Option String
  database : Option String
  tableName : Option String
  encoding : Option String
  batchSize : Option Nat
  dropExisting : Option Bool
  logLevel : Option String

def Draft.ofLayers (layers : List Layer) : Except CommandFault Draft := do
  return {
    input := ← text layers .input
    database := ← text layers .database
    tableName := ← text layers .tableName
    encoding := ← text layers .encoding
    batchSize := ← number layers .batchSize
    dropExisting := ← truth layers .dropExisting
    logLevel := ← text layers .logLevel }

def required (f : Field) : Option String → Except CommandFault String
  | some s => .ok s
  | none => .error (.missing f)

def named (base : String) : Except CommandFault Dataset :=
  match Dataset.ofBase base with
  | .ok d => .ok d
  | .error _ => .error (.invalid .tableName base
      "use ASCII letters, digits and underscores, not starting with a digit")

def withBatchSize (o : Options) : Option Nat → Except CommandFault Options
  | none => .ok o
  | some n =>
    match o.withBatchSize? n with
    | some o => .ok o
    | none => .error (.invalid .batchSize (toString n) "the batch size must be at least 1")

def shownAt (word : String) : Except CommandFault Verbosity :=
  match Verbosity.ofWord? word with
  | some v => .ok v
  | none => .error (.invalid .logLevel word "expected off, error, warn, info, debug or trace")

def defaultVerbosity : Verbosity := .info

/-- The settings of a draft, its first fault in the order of the settings. -/
def ofDraft (d : Draft) : Except CommandFault Settings := do
  let input ← required .input d.input
  let database ← required .database d.database
  let dataset ← named (d.tableName.getD (defaultBase input))
  let options ← withBatchSize { dropExisting := d.dropExisting.getD false } d.batchSize
  let verbosity ← shownAt (d.logLevel.getD defaultVerbosity.word)
  return { input, database, dataset, options := { options with encoding := d.encoding }, verbosity }

/-- The settings that layers give, the later ones first. -/
def ofLayers (layers : List Layer) : Except CommandFault Settings := do
  ofDraft (← Draft.ofLayers layers)

end Settings
end MapTables.Command
