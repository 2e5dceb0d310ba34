import MapTables.Decimal.Real
import MapTables.Feature.Kind
import MapTables.Feature.Tags
import MapTables.Text.Blank
import MapTables.Time.Timestamp

/-!
# Features

A feature has an identity, the record of its last edit, its tags, and what its kind
adds: a node has a position, a way the nodes it runs through. The members of a relation
are never kept: they become rows as they come.
-/

namespace MapTables

/-- The last edit of a feature, as far as it is told. -/
structure Edit where
  user : Option String := none
  uid : Option Int := none
  visible : Option Bool := none
  version : Option Int := none
  changeset : Option Int := none
  timestamp : Option Time.Timestamp := none
deriving DecidableEq

/-- A place on the earth, both numbers finite. -/
structure Position where
  latitude : Float
  longitude : Float
  finite : latitude.isFinite = true ∧ longitude.isFinite = true

inductive Body where
  | node (position : Position)
  | way (refs : Array Int)
  | relation

structure Feature where
  id : Int
  edit : Edit
  tags : Tags
  body : Body

def Body.kind : Body → FeatureKind
  | .node _ => .node
  | .way _ => .way
  | .relation => .relation

/-- The place at two coordinates, where both are finite. -/
def Position.ofCoordinates? (latitude longitude : Float) : Option Position :=
  if h : latitude.isFinite = true ∧ longitude.isFinite = true then some ⟨latitude, longitude, h⟩
  else none

namespace Feature

def kind (f : Feature) : FeatureKind := f.body.kind

/-- The references of a way; none for another feature. -/
def refs (f : Feature) : Array Int :=
  match f.body with
  | .way refs => refs
  | _ => #[]

end Feature

/-- The number that the elevation tag gives, where it is a finite one. -/
def Tags.elevation? (t : Tags) : Option Float := do
  let text ← t.get? Tags.elevationKey
  (Decimal.real? (Text.trim text)).filter Float.isFinite

end MapTables
