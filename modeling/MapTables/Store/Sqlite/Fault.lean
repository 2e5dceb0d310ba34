/-!
# Faults of the database engine

Why the engine refuses a statement, in its own words.
-/

namespace MapTables.Sqlite

inductive ObjectKind where
  | table
  | view
deriving DecidableEq, Repr

def ObjectKind.word : ObjectKind → String
  | .table => "table"
  | .view => "view"

inductive SqlFault where
  | nestedTransaction
  | noTransaction
  | noSuchTable (name : String)
  | noSuchColumn (table column : String)
  /-- The name, as the statement writes it at an offset, is taken. -/
  | nameTaken (object : ObjectKind) (written statement : String) (offset : Nat)
  | reservedName (name : String)
  | dropsView (name : String)
  | writesView (name : String)
  | dropsCatalog (name : String)
  | writesCatalog (name : String)
  | sameKey (table : String) (columns : List String)
  | notADatabase
deriving DecidableEq, Repr

namespace SqlFault

def message : SqlFault → String
  | .nestedTransaction => "cannot start a transaction within a transaction"
  | .noTransaction => "cannot commit - no transaction is active"
  | .noSuchTable name => s!"no such table: {name}"
  | .noSuchColumn table column => s!"table {table} has no column named {column}"
  | .nameTaken object written statement offset =>
    s!"{object.word} {written} already exists in {statement} at offset {offset}"
  | .reservedName name => s!"object name reserved for internal use: {name}"
  | .dropsView name => s!"use DROP VIEW to delete view {name}"
  | .writesView name => s!"cannot modify {name} because it is a view"
  | .dropsCatalog name => s!"table {name} may not be dropped"
  | .writesCatalog name => s!"table {name} may not be modified"
  | .sameKey table columns =>
    "UNIQUE constraint failed: " ++ ", ".intercalate (columns.map fun c => s!"{table}.{c}")
  | .notADatabase => "file is not a database"

def code : SqlFault → String
  | .sameKey .. => "Error code 1555: A PRIMARY KEY constraint failed"
  | .notADatabase => "Error code 26: File opened that is not a database file"
  | _ => "Error code 1: SQL error or missing database"

end SqlFault
end MapTables.Sqlite
