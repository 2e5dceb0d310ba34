import MapTables.Feature.Basic
import MapTables.Table.Kind

/-!
# Rows

What the ten tables hold. A finished feature becomes one row of its own table, a row
for each tag, and, for a way, a row for each node it runs through. Nodes of a way and members
of a relation are numbered in 32 bits, and past the largest number they start over at the least.
-/

namespace MapTables

/-- The spatial reference of coordinates in degrees. -/
def worldReference : Int := 4326

structure NodeRow where
  id : Int
  /-- Longitude. -/
  x : Float
  /-- Latitude. -/
  y : Float
  srid : Int := worldReference
  elevation : Option Float := none
  edit : Edit := {}
  name : Option String := none
deriving DecidableEq

structure WayRow where
  id : Int
  edit : Edit := {}
  name : Option String := none
deriving DecidableEq

structure RelationRow where
  id : Int
  edit : Edit := {}
deriving DecidableEq

structure TagRow where
  owner : Int
  key : String
  value : String
deriving DecidableEq

/-- Members and the nodes of a way are numbered in 32 bits, from one on. -/
instance numberOfInt : Coe Int Int32 := ⟨Int32.ofInt⟩

instance intOfNumber : Coe Int32 Int := ⟨Int32.toInt⟩

structure WayNodeRow where
  way : Int
  node : Int
  /-- Place along the way, from one. -/
  position : Int32
deriving DecidableEq

structure MemberRow where
  relation : Int
  ref : Int
  kind : FeatureKind
  role : Option String
  /-- Place in the relation, from one. -/
  sequence : Int32
deriving DecidableEq

inductive Row where
  | node (row : NodeRow)
  | way (row : WayRow)
  | relation (row : RelationRow)
  | tag (row : TagRow)
  | wayNode (row : WayNodeRow)
  | member (row : MemberRow)
deriving DecidableEq

/-- A row with the table it goes to. -/
abbrev Placed := TableKind × Row

namespace Feature

def tagRows (f : Feature) : List Placed :=
  f.tags.entries.map fun (key, value) => (.tagsOf f.kind, .tag ⟨f.id, key, value⟩)

def ownRow (f : Feature) : Row :=
  match f.body with
  | .node p => .node {
      id := f.id, x := p.longitude, y := p.latitude, elevation := f.tags.elevation?,
      edit := f.edit, name := f.tags.name? }
  | .way _ => .way { id := f.id, edit := f.edit, name := f.tags.name? }
  | .relation => .relation { id := f.id, edit := f.edit }

def wayNodeRows (f : Feature) : List Placed :=
  f.refs.toList.zipIdx.map fun (ref, i) => (.wayNode, .wayNode ⟨f.id, ref, .ofNat (i + 1)⟩)

/-- The rows of a finished feature, in the order they are written. -/
def rows (f : Feature) : List Placed :=
  (.ofFeature f.kind, f.ownRow) :: (f.tagRows ++ f.wayNodeRows)

end Feature

def rowsFor (k : TableKind) (rows : List Placed) : List Row :=
  (rows.filter fun r => r.1 == k).map Prod.snd

@[simp] theorem rowsFor_nil (k : TableKind) : rowsFor k [] = [] := rfl

theorem rowsFor_append (k : TableKind) (a b : List Placed) :
    rowsFor k (a ++ b) = rowsFor k a ++ rowsFor k b := by simp [rowsFor]

theorem rowsFor_cons (k : TableKind) (r : Placed) (rows : List Placed) :
    rowsFor k (r :: rows) = if r.1 = k then r.2 :: rowsFor k rows else rowsFor k rows := by
  by_cases h : r.1 = k <;> simp [rowsFor, h]

end MapTables
