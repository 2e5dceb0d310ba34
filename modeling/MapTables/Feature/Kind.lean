/-!
# Kinds of features

A map is made of nodes, ways and relations.
-/

namespace MapTables

inductive FeatureKind where
  | node
  | way
  | relation
deriving DecidableEq, Repr

namespace FeatureKind

def all : List FeatureKind := [.node, .way, .relation]

def word : FeatureKind → String
  | .node => "node"
  | .way => "way"
  | .relation => "relation"

def ofWord? (s : String) : Option FeatureKind :=
  all.find? fun k => String.ofList (s.toList.map Char.toLower) == k.word

theorem mem_all (k : FeatureKind) : k ∈ all := by cases k <;> simp [all]

theorem ofWord?_word (k : FeatureKind) : ofWord? k.word = some k := by cases k <;> decide +kernel

end FeatureKind
end MapTables
