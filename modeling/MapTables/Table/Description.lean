import MapTables.Decimal.Shortest
import MapTables.Table.Row
import MapTables.Text.Quoted

/-!
# Rows in messages

The text by which a message shows a row: the name of its kind and of each field, with
texts in quotes.
-/

namespace MapTables

namespace Description

def optional {α : Type} (text : α → String) : Option α → String
  | some a => "Some(" ++ text a ++ ")"
  | none => "None"

/-- Named fields in braces behind the name of their kind. -/
def fields (kind : String) (fs : List (String × String)) : String :=
  kind ++ " \x7b " ++ ", ".intercalate (fs.map fun f => f.1 ++ ": " ++ f.2) ++ " \x7d"

def wrapped (kind text : String) : String := kind ++ "(" ++ text ++ ")"

def truth (b : Bool) : String := if b then "true" else "false"

def kindName : FeatureKind → String
  | .node => "Node"
  | .way => "Way"
  | .relation => "Relation"

def point (x y : Float) : String :=
  "POINT(" ++ Decimal.renderMarked x ++ " " ++ Decimal.renderMarked y ++ ")"

def ofEdit (e : Edit) : String :=
  fields "EditInfo" [
    ("user", optional Text.quote e.user),
    ("uid", optional toString e.uid),
    ("visible", optional truth e.visible),
    ("version", optional toString e.version),
    ("changeset", optional toString e.changeset),
    ("timestamp", optional Time.Timestamp.toText e.timestamp)]

end Description

open Description in
def Row.description : Row → String
  | .node r => wrapped "Node" <| fields "NodeRow" [
      ("id", toString r.id),
      ("geometry", point r.x r.y),
      ("srid", toString r.srid),
      ("elevation", optional Decimal.renderMarked r.elevation),
      ("edit", ofEdit r.edit),
      ("name", optional Text.quote r.name)]
  | .way r => wrapped "Way" <| fields "WayRow" [
      ("id", toString r.id),
      ("edit", ofEdit r.edit),
      ("name", optional Text.quote r.name)]
  | .relation r => wrapped "Relation" <| fields "RelationRow" [
      ("id", toString r.id),
      ("edit", ofEdit r.edit)]
  | .tag r => wrapped "Tag" <| fields "TagRow" [
      ("owner_id", toString r.owner),
      ("key", Text.quote r.key),
      ("value", Text.quote r.value)]
  | .wayNode r => wrapped "WayNode" <| fields "WayNodeRow" [
      ("way_id", toString r.way),
      ("node_id", toString r.node),
      ("position", toString r.position)]
  | .member r => wrapped "Member" <| fields "MemberRow" [
      ("relation_id", toString r.relation),
      ("member_ref", toString r.ref),
      ("kind", kindName r.kind),
      ("role", optional Text.quote r.role),
      ("sequence", toString r.sequence)]

end MapTables
