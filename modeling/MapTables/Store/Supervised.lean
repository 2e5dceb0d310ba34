import MapTables.Store.Basic

/-!
# Supervised stores

A store behind one that writes down each request and makes some of them fail. A request
that is made to fail never reaches the store behind.
-/

namespace MapTables

def Method.word : Method → String
  | .tableExists => "table_exists"
  | .dropTable => "drop_table"
  | .createTable => "create_table"
  | .beginTransaction => "begin"
  | .insert => "execute_batch"
  | .commit => "commit"
  | .rollback => "rollback"
  | .release => "release"

def Method.all : List Method :=
  [.tableExists, .dropTable, .createTable, .beginTransaction, .insert, .commit, .rollback, .release]

def Request.text (r : Request) : String :=
  match r with
  | .tableExists table | .dropTable table => s!"{r.method.word} {table}"
  | .createTable kind table => s!"{r.method.word} {kind.word} {table}"
  | .insert kind table rows => s!"{r.method.word} {kind.word} {table} {rows.length}"
  | _ => r.method.word

/-- Which requests fail, given those before. -/
abbrev FailurePlan := Array Request → Request → Bool

/-- The plan under which the n-th request of a kind fails, counted from one. -/
def FailurePlan.nth (due : Method → Option Nat) : FailurePlan := fun earlier r =>
  match due r.method with
  | none => false
  | some n => (earlier.toList.countP fun e => e.method == r.method) + 1 == n

structure Supervised (σ : Type) where
  store : σ
  requests : Array Request := #[]
  fails : FailurePlan := fun _ _ => false

namespace Supervised

variable {σ : Type} [Store σ]

def ask (r : Request) (s : Supervised σ) : Reply (Supervised σ) r.Answer :=
  match s with
  | ⟨store, requests, fails⟩ =>
    if fails requests r then
      (.error (.rejected s!"injected {r.method.word} failure"), ⟨store, requests.push r, fails⟩)
    else
      let (answer, store) := Store.ask r store
      (answer, ⟨store, requests.push r, fails⟩)

instance : Store (Supervised σ) := ⟨ask⟩

end Supervised
end MapTables
