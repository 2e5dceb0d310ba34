import MapTables.Table.Kind

/-!
# Columns of the ten tables

Each kind of table has its columns and the key that no two of its rows share.
-/

namespace MapTables.Sqlite

structure Column where
  name : String
  type : String
deriving DecidableEq, Repr

namespace Column

def number (name : String) : Column := ⟨name, "INTEGER NOT NULL"⟩

def edit : List Column := [
  ⟨"user_name", "TEXT"⟩, ⟨"uid", "INTEGER"⟩, ⟨"visible", "INTEGER"⟩, ⟨"version", "INTEGER"⟩,
  ⟨"changeset", "INTEGER"⟩, ⟨"last_update", "TEXT"⟩]

def tags (owner : String) : List Column :=
  [number owner, ⟨"tag_key", "TEXT NOT NULL"⟩, ⟨"tag_value", "TEXT"⟩]

def members (ref order : String) : List Column :=
  [number "id_relation", number ref, ⟨"role", "TEXT"⟩, number order]

end Column

def columns : TableKind → List Column
  | .node =>
    [.number "id_node", ⟨"the_geom", "TEXT NOT NULL"⟩, ⟨"elevation", "REAL"⟩] ++ Column.edit ++
      [⟨"name", "TEXT"⟩]
  | .nodeTag => Column.tags "id_node"
  | .way => [.number "id_way"] ++ Column.edit ++ [⟨"name", "TEXT"⟩]
  | .wayTag => Column.tags "id_way"
  | .wayNode => [.number "id_way", .number "id_node", .number "node_order"]
  | .relation => [.number "id_relation"] ++ Column.edit
  | .relationTag => Column.tags "id_relation"
  | .nodeMember => Column.members "id_node" "node_order"
  | .wayMember => Column.members "id_way" "way_order"
  | .relationMember => Column.members "id_sub_relation" "relation_order"

def columnNames (kind : TableKind) : List String := (columns kind).map Column.name

def key : TableKind → List String
  | .node => ["id_node"]
  | .nodeTag => ["id_node", "tag_key"]
  | .way => ["id_way"]
  | .wayTag => ["id_way", "tag_key"]
  | .wayNode => ["id_way", "node_order"]
  | .relation => ["id_relation"]
  | .relationTag => ["id_relation", "tag_key"]
  | .nodeMember => ["id_relation", "node_order"]
  | .wayMember => ["id_relation", "way_order"]
  | .relationMember => ["id_relation", "relation_order"]

/-- A name between double quotes, a quote in it written twice. -/
def quoteName (name : String) : String :=
  String.ofList ('"' :: (name.toList.flatMap fun c => if c = '"' then ['"', '"'] else [c]) ++ ['"'])

def createTableWords : String := "CREATE TABLE "

def createViewWords : String := "CREATE VIEW "

def createStatement (kind : TableKind) (table : String) : String :=
  createTableWords ++ quoteName table ++ " (" ++
    ", ".intercalate ((columns kind).map fun c => c.name ++ " " ++ c.type) ++
    ", PRIMARY KEY (" ++ ", ".intercalate (key kind) ++ "))"

theorem key_subset_columnNames (kind : TableKind) : ∀ c ∈ key kind, c ∈ columnNames kind := by
  cases kind <;> decide +kernel

theorem nodup_columnNames (kind : TableKind) : (columnNames kind).Nodup := by
  cases kind <;> decide +kernel

end MapTables.Sqlite
