import MapTables.Decimal.Shortest
import MapTables.Table.Row

/-!
# Cells

What a database keeps of a row: one cell for each column. A place is written as text
with its spatial reference, a truth value as one or zero, a timestamp as text. There is
no cell for a number that is none, and no negative zero.
-/

namespace MapTables.Sqlite

inductive Cell where
  | null
  | integer (value : Int)
  | real (value : Float)
  | text (value : String)
deriving DecidableEq

namespace Cell

/-- A double as the database gives it back. -/
def ofFloat (x : Float) : Cell := if x.isNaN then .null else if x == 0 then .real 0 else .real x

def ofBool (b : Bool) : Cell := .integer (if b then 1 else 0)

def ofOption {α : Type} (cell : α → Cell) : Option α → Cell
  | some a => cell a
  | none => .null

end Cell

/-- A place as text, with its spatial reference. -/
def placeText (x y : Float) (srid : Int) : String :=
  s!"SRID={srid};POINT({Decimal.render x} {Decimal.render y})"

def editCells (e : Edit) : List Cell := [
  .ofOption .text e.user, .ofOption .integer e.uid, .ofOption .ofBool e.visible,
  .ofOption .integer e.version, .ofOption .integer e.changeset,
  .ofOption (fun t => .text t.toText) e.timestamp]

/-- The cells of a row in a table of a kind, if rows like it belong there. -/
def cells? (kind : TableKind) (row : Row) : Option (List Cell) :=
  match kind, row with
  | .node, .node r =>
    some ([.integer r.id, .text (placeText r.x r.y r.srid), .ofOption .ofFloat r.elevation] ++
      editCells r.edit ++ [.ofOption .text r.name])
  | .way, .way r => some (.integer r.id :: editCells r.edit ++ [.ofOption .text r.name])
  | .relation, .relation r => some (.integer r.id :: editCells r.edit)
  | .nodeTag, .tag r | .wayTag, .tag r | .relationTag, .tag r =>
    some [.integer r.owner, .text r.key, .text r.value]
  | .wayNode, .wayNode r => some [.integer r.way, .integer r.node, .integer r.position]
  | kind, .member r =>
    if kind = .membersOf r.kind then
      some [.integer r.relation, .integer r.ref, .ofOption .text r.role, .integer r.sequence]
    else none
  | _, _ => none

end MapTables.Sqlite
