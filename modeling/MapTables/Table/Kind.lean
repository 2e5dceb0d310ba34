import MapTables.Feature.Kind

/-!
# The ten kinds of tables

A dataset is stored in ten tables: one for each kind of feature and of tags, one for
the nodes of ways, and one for each kind of relation member.
-/

namespace MapTables

inductive TableKind where
  | node
  | nodeTag
  | way
  | wayTag
  | wayNode
  | relation
  | relationTag
  | nodeMember
  | wayMember
  | relationMember
deriving DecidableEq, Repr

namespace TableKind

/-- The kinds in the order in which tables are made, looked up and flushed. -/
def all : List TableKind :=
  [.node, .nodeTag, .way, .wayTag, .wayNode, .relation, .relationTag, .nodeMember, .wayMember,
    .relationMember]

def word : TableKind → String
  | .node => "node"
  | .nodeTag => "node_tag"
  | .way => "way"
  | .wayTag => "way_tag"
  | .wayNode => "way_node"
  | .relation => "relation"
  | .relationTag => "relation_tag"
  | .nodeMember => "node_member"
  | .wayMember => "way_member"
  | .relationMember => "relation_member"

def tail (k : TableKind) : String := "_" ++ k.word

def index : TableKind → Nat
  | .node => 0
  | .nodeTag => 1
  | .way => 2
  | .wayTag => 3
  | .wayNode => 4
  | .relation => 5
  | .relationTag => 6
  | .nodeMember => 7
  | .wayMember => 8
  | .relationMember => 9

/-- Tables of tags leave out a second value of a key. -/
def holdsTags : TableKind → Bool
  | .nodeTag | .wayTag | .relationTag => true
  | _ => false

def ofFeature : FeatureKind → TableKind
  | .node => .node
  | .way => .way
  | .relation => .relation

def tagsOf : FeatureKind → TableKind
  | .node => .nodeTag
  | .way => .wayTag
  | .relation => .relationTag

def membersOf : FeatureKind → TableKind
  | .node => .nodeMember
  | .way => .wayMember
  | .relation => .relationMember

def ofWord? (s : String) : Option TableKind := all.find? fun k => k.word == s

theorem mem_all (k : TableKind) : k ∈ all := by cases k <;> simp [all]

theorem nodup_all : all.Nodup := by decide

theorem all_getElem?_index (k : TableKind) : all[k.index]? = some k := by cases k <;> rfl

theorem index_inj {j k : TableKind} (h : j.index = k.index) : j = k := by
  cases j <;> cases k <;> first | rfl | simp [index] at h

end TableKind

structure PerTable (α : Type) where
  node : α
  nodeTag : α
  way : α
  wayTag : α
  wayNode : α
  relation : α
  relationTag : α
  nodeMember : α
  wayMember : α
  relationMember : α
deriving DecidableEq

namespace PerTable

variable {α : Type}

def const (a : α) : PerTable α := ⟨a, a, a, a, a, a, a, a, a, a⟩

def get (p : PerTable α) : TableKind → α
  | .node => p.node
  | .nodeTag => p.nodeTag
  | .way => p.way
  | .wayTag => p.wayTag
  | .wayNode => p.wayNode
  | .relation => p.relation
  | .relationTag => p.relationTag
  | .nodeMember => p.nodeMember
  | .wayMember => p.wayMember
  | .relationMember => p.relationMember

def modify (p : PerTable α) (k : TableKind) (f : α → α) : PerTable α :=
  match k with
  | .node => { p with node := f p.node }
  | .nodeTag => { p with nodeTag := f p.nodeTag }
  | .way => { p with way := f p.way }
  | .wayTag => { p with wayTag := f p.wayTag }
  | .wayNode => { p with wayNode := f p.wayNode }
  | .relation => { p with relation := f p.relation }
  | .relationTag => { p with relationTag := f p.relationTag }
  | .nodeMember => { p with nodeMember := f p.nodeMember }
  | .wayMember => { p with wayMember := f p.wayMember }
  | .relationMember => { p with relationMember := f p.relationMember }

def toList (p : PerTable α) : List α := TableKind.all.map p.get

@[simp] theorem get_const (a : α) (k : TableKind) : (const a).get k = a := by cases k <;> rfl

@[simp] theorem get_modify_self (p : PerTable α) (k : TableKind) (f : α → α) :
    (p.modify k f).get k = f (p.get k) := by cases k <;> rfl

theorem get_modify_of_ne (p : PerTable α) {j k : TableKind} (f : α → α) (h : j ≠ k) :
    (p.modify k f).get j = p.get j := by
  cases j <;> cases k <;> first | rfl | exact absurd rfl h

theorem get_modify (p : PerTable α) (j k : TableKind) (f : α → α) :
    (p.modify k f).get j = if j = k then f (p.get j) else p.get j := by
  split
  · next h => rw [h, get_modify_self]
  · next h => exact get_modify_of_ne p f h

theorem ext_get {p q : PerTable α} (h : ∀ k, p.get k = q.get k) : p = q := by
  cases p; cases q
  have h1 := h .node; have h2 := h .nodeTag; have h3 := h .way; have h4 := h .wayTag
  have h5 := h .wayNode; have h6 := h .relation; have h7 := h .relationTag
  have h8 := h .nodeMember; have h9 := h .wayMember; have h10 := h .relationMember
  simp only [get] at h1 h2 h3 h4 h5 h6 h7 h8 h9 h10
  simp [h1, h2, h3, h4, h5, h6, h7, h8, h9, h10]

end PerTable
end MapTables
