import MapTables.Feature.Kind
import MapTables.Text.Utf8

/-!
# Elements, attributes and events

Six element names carry map data. Markup that concerns them is a sequence of events:
an element starts, with its attributes, or ends.
-/

namespace MapTables

/-- The elements that carry map data. -/
inductive Element where
  | node
  | way
  | relation
  | tag
  | nodeRef
  | member
deriving DecidableEq, Repr

namespace Element

def all : List Element := [.node, .way, .relation, .tag, .nodeRef, .member]

def word : Element → String
  | .node => "node"
  | .way => "way"
  | .relation => "relation"
  | .tag => "tag"
  | .nodeRef => "nd"
  | .member => "member"

/-- An octet with its ASCII case taken away. -/
def lowerOctet (b : UInt8) : UInt8 := if 0x41 ≤ b ∧ b ≤ 0x5A then b + 0x20 else b

def ofName? (name : Bytes) : Option Element :=
  all.find? fun e => name.map lowerOctet == Bytes.ofString e.word

def feature? : Element → Option FeatureKind
  | .node => some .node
  | .way => some .way
  | .relation => some .relation
  | _ => none

theorem mem_all (e : Element) : e ∈ all := by cases e <;> simp [all]

end Element

def FeatureKind.element : FeatureKind → Element
  | .node => .node
  | .way => .way
  | .relation => .relation

@[simp] theorem FeatureKind.feature?_element (k : FeatureKind) : k.element.feature? = some k := by
  cases k <;> rfl

/-- Names with their values, in the order they stand in the tag. -/
abbrev Attributes := List (String × String)

/-- The value of the first attribute of a name. -/
def Attributes.get? (a : Attributes) (name : String) : Option String :=
  (a.find? fun e => e.1 == name).map Prod.snd

inductive Event where
  | start (element : Element) (attributes : Attributes)
  | close (element : Element)
deriving DecidableEq, Repr

def Event.opensFeature : Event → Bool
  | .start e _ => e.feature?.isSome
  | .close _ => false

end MapTables
