/-!
# Settings and their names

Each setting of the command can be given by a flag, by an environment variable and in
a configuration file.
-/

namespace MapTables.Command

inductive Field where
  | input
  | database
  | tableName
  | encoding
  | batchSize
  | dropExisting
  | logLevel
deriving DecidableEq, Repr

namespace Field

def all : List Field :=
  [.input, .database, .tableName, .encoding, .batchSize, .dropExisting, .logLevel]

def flag : Field → String
  | .input => "input"
  | .database => "database"
  | .tableName => "table-name"
  | .encoding => "encoding"
  | .batchSize => "batch-size"
  | .dropExisting => "drop-existing"
  | .logLevel => "log-level"

/-- What stands for the flag's value where its use is told. -/
def placeholder : Field → String
  | .input | .database => "path"
  | .tableName => "name"
  | .encoding => "label"
  | .batchSize => "rows"
  | .dropExisting => "bool"
  | .logLevel => "level"

def key : Field → String
  | .input => "input"
  | .database => "database"
  | .tableName => "table_name"
  | .encoding => "encoding"
  | .batchSize => "batch_size"
  | .dropExisting => "drop_existing"
  | .logLevel => "log_level"

def ofFlag? (flag : String) : Option Field := all.find? fun f => f.flag == flag

theorem ofFlag?_flag (f : Field) : ofFlag? f.flag = some f := by cases f <;> decide +kernel

end Field

inductive Given where
  | text (s : String)
  | number (n : Int)
  | truth (b : Bool)
  /-- A value that no setting takes. -/
  | different
deriving DecidableEq, Repr

/-- What one source gives. -/
abbrev Layer := List (Field × Given)

end MapTables.Command
