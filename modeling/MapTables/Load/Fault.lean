import MapTables.Assembly.Fault
import MapTables.Markup.Fault
import MapTables.Store.Basic

/-!
# Faults of a load

Why a load ends early, with the words for it. The first thing that goes wrong is what
ends it.
-/

namespace MapTables

/-- What a load does with its tables besides filling them. -/
inductive Operation where
  | validateNames
  | dropTable
  | lookUpTables
  | createTable
  | beginTransaction
  | commit
deriving DecidableEq, Repr

def Operation.text : Operation → String
  | .validateNames => "validate table names"
  | .dropTable => "drop existing table"
  | .lookUpTables => "look up existing tables"
  | .createTable => "create table"
  | .beginTransaction => "begin transaction"
  | .commit => "commit transaction"

inductive LoadFault where
  /-- The events describe no features. -/
  | malformed (fault : AssemblyFault)
  | unreadable (fault : ReadFault)
  | notWritten (table : String) (fault : StoreFault)
  | cancelled
  | tableExists (table : String)
  | refused (operation : Operation) (fault : StoreFault)
  | notOpened (path reason : String)
  | unsupported (path : String)
  /-- All was stored, but the store could not be let go. -/
  | notReleased (fault : StoreFault)

namespace LoadFault

def message : LoadFault → String
  | .malformed _ => "malformed OSM input"
  | .unreadable f => f.message
  | .notWritten table _ => s!"failed to write batch into table {table}"
  | .cancelled => "ingestion cancelled"
  | .tableExists table => s!"table {table} already exists"
  | .refused operation _ => s!"failed to {operation.text}"
  | .notOpened path _ => s!"failed to open OSM file at {path}"
  | .unsupported path => s!"unsupported OSM file {path}: expected .osm, .osm.gz or .osm.bz2"
  | .notReleased _ => "failed to release destination resources"

def causes : LoadFault → List String
  | .malformed f => [f.message]
  | .unreadable f => f.causes
  | .notWritten _ f | .refused _ f | .notReleased f => f.message :: f.causes
  | .notOpened _ reason => [reason]
  | .cancelled | .tableExists _ | .unsupported _ => []

end LoadFault
end MapTables
