import MapTables.Table.Dataset
import MapTables.Table.Row

/-!
# Stores

A store holds tables. It is asked for one thing at a time, and answers or refuses; a
refusal may leave traces, so the store after it is part of the answer.
-/

namespace MapTables

structure Stored where
  written : Nat := 0
  /-- Tags left out because their owner had the key. -/
  duplicateTags : Nat := 0
deriving DecidableEq, Repr

inductive Request where
  | tableExists (table : String)
  | dropTable (table : String)
  | createTable (kind : TableKind) (table : String)
  | beginTransaction
  | insert (kind : TableKind) (table : String) (rows : List Row)
  | commit
  | rollback
  | release
deriving DecidableEq

abbrev Request.Answer : Request → Type
  | .tableExists _ => Bool
  | .insert .. => Stored
  | _ => Unit

inductive Method where
  | tableExists
  | dropTable
  | createTable
  | beginTransaction
  | insert
  | commit
  | rollback
  | release
deriving DecidableEq, Repr

def Request.method : Request → Method
  | .tableExists _ => .tableExists
  | .dropTable _ => .dropTable
  | .createTable .. => .createTable
  | .beginTransaction => .beginTransaction
  | .insert .. => .insert
  | .commit => .commit
  | .rollback => .rollback
  | .release => .release

/-- A failure of the database engine: what it says, and the texts of its causes. -/
structure EngineFault where
  message : String
  causes : List String := []
deriving DecidableEq, Repr

inductive StoreFault where
  | engine (operation : String) (fault : EngineFault)
  | invalidName (name : String) (fault : NameFault)
  | rejected (reason : String)
deriving DecidableEq, Repr

namespace StoreFault

def message : StoreFault → String
  | .engine operation _ => s!"SQLite failed to {operation}"
  | .invalidName name fault => s!"invalid table name {Text.quote name}: {fault.reason}"
  | .rejected reason => s!"destination rejected the request: {reason}"

def causes : StoreFault → List String
  | .engine _ fault => fault.message :: fault.causes
  | _ => []

end StoreFault

abbrev Reply (σ α : Type) := Except StoreFault α × σ

class Store (σ : Type) where
  ask : (r : Request) → σ → Reply σ r.Answer

end MapTables
