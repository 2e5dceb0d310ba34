import MapTables.Assembly.Basic
import MapTables.Proofs.Table.Numbers

/-!
# Outlines of features

A feature as a mapper thinks of it: an identity, a last edit, what its kind adds, and a
list of children in any order. Its markup says all of that once. Its rows and its share of
the totals are told here without an assembler.
-/

namespace MapTables

/-! ## What attributes tell -/

namespace Attributes

variable {α : Type}

/-- The attribute of a name, read without the blanks around it, tells a value; or there is no
value and no attribute. -/
def Tells (a : Attributes) (name : String) (read : String → Option α) (v : Option α) : Prop :=
  (a.get? name).map (fun text => read (Text.trim text)) = v.map some

instance [DecidableEq α] (a : Attributes) (name : String) (read : String → Option α)
    (v : Option α) : Decidable (a.Tells name read v) := inferInstanceAs (Decidable (_ = _))

structure TellEdit (a : Attributes) (e : Edit) : Prop where
  user : a.get? "user" = e.user
  uid : a.Tells "uid" Reading.id? e.uid
  visible : a.Tells "visible" Reading.truth? e.visible
  version : a.Tells "version" (Decimal.integer? 32) e.version
  changeset : a.Tells "changeset" Reading.id? e.changeset
  timestamp : a.Tells "timestamp" Time.Timestamp.ofText? e.timestamp

instance (a : Attributes) (e : Edit) : Decidable (a.TellEdit e) :=
  decidable_of_iff
    (a.get? "user" = e.user ∧ a.Tells "uid" Reading.id? e.uid ∧
      a.Tells "visible" Reading.truth? e.visible ∧
      a.Tells "version" (Decimal.integer? 32) e.version ∧
      a.Tells "changeset" Reading.id? e.changeset ∧
      a.Tells "timestamp" Time.Timestamp.ofText? e.timestamp)
    ⟨fun ⟨h, i, j, k, l, m⟩ => ⟨h, i, j, k, l, m⟩, fun ⟨h, i, j, k, l, m⟩ => ⟨h, i, j, k, l, m⟩⟩

end Attributes

/-! ## Children -/

structure Member where
  kind : FeatureKind
  ref : Int
  role : Option String
deriving DecidableEq

inductive Child where
  | tag (key value : String)
  | nodeRef (ref : Int)
  | member (member : Member)
deriving DecidableEq

namespace Child

def element : Child → Element
  | .tag .. => .tag
  | .nodeRef _ => .nodeRef
  | .member _ => .member

def fits : Child → FeatureKind → Bool
  | .tag .., _ => true
  | .nodeRef _, kind => kind = .way
  | .member _, kind => kind = .relation

@[simp]
def tag? : Child → Option (String × String)
  | .tag key value => some (key, value)
  | _ => none

@[simp]
def nodeRef? : Child → Option Int
  | .nodeRef ref => some ref
  | _ => none

@[simp]
def member? : Child → Option Member
  | .member m => some m
  | _ => none

def ToldBy (c : Child) (a : Attributes) : Prop :=
  match c with
  | .tag key value => a.get? "k" = some key ∧ a.get? "v" = some value
  | .nodeRef ref => a.Tells "ref" Reading.id? (some ref)
  | .member m =>
    (a.get? "type").bind FeatureKind.ofWord? = some m.kind ∧
      a.Tells "ref" Reading.id? (some m.ref) ∧ a.get? "role" = m.role

instance (c : Child) (a : Attributes) : Decidable (c.ToldBy a) :=
  match c with
  | .tag .. => inferInstanceAs (Decidable (_ ∧ _))
  | .nodeRef _ => inferInstanceAs (Decidable (Attributes.Tells ..))
  | .member _ => inferInstanceAs (Decidable (_ ∧ _))

/-- The markup of children: each starts, with attributes that tell it, and ends. -/
inductive Written : List Child → List Event → Prop
  | nil : Written [] []
  | cons {c : Child} {cs : List Child} {a : Attributes} {es : List Event} (told : c.ToldBy a)
      (rest : Written cs es) :
      Written (c :: cs) (.start c.element a :: .close c.element :: es)

end Child

/-! ## Children of one feature -/

namespace Children

/-- All tags, those with a repeated key included. -/
def givenTags (cs : List Child) : List (String × String) := cs.filterMap Child.tag?

def sameKey (s t : String × String) : Bool := s.1 == t.1

/-- The first tag of each key, in the order the keys came. -/
def tags (cs : List Child) : List (String × String) := (givenTags cs).eraseDupsBy sameKey

def value? (cs : List Child) (key : String) : Option String :=
  ((givenTags cs).find? fun t => t.1 == key).map Prod.snd

def refs (cs : List Child) : List Int := cs.filterMap Child.nodeRef?

def members (cs : List Child) : List Member := cs.filterMap Child.member?

def memberRows (relation : Int) (cs : List Child) : List Placed :=
  (members cs).zipIdx.map fun (m, i) =>
    (.membersOf m.kind, .member ⟨relation, m.ref, m.kind, m.role, .ofNat (i + 1)⟩)

end Children

/-! ## Features -/

/-- What the kind of a feature adds in its opening tag. -/
inductive Shape where
  | node (position : Position)
  | way
  | relation

def Shape.kind : Shape → FeatureKind
  | .node _ => .node
  | .way => .way
  | .relation => .relation

def Shape.ToldBy (s : Shape) (a : Attributes) : Prop :=
  match s with
  | .node p => a.Tells "lat" Decimal.real? (some p.latitude) ∧
      a.Tells "lon" Decimal.real? (some p.longitude)
  | _ => True

instance (s : Shape) (a : Attributes) : Decidable (s.ToldBy a) :=
  match s with
  | .node _ => inferInstanceAs (Decidable (_ ∧ _))
  | .way | .relation => inferInstanceAs (Decidable True)

structure Outline where
  id : Int
  edit : Edit
  shape : Shape
  children : List Child
  fitting : ∀ c ∈ children, c.fits shape.kind = true

namespace Outline

/-- There are no more nodes and no more members than can be numbered. -/
def InRange (o : Outline) : Prop :=
  (Children.refs o.children).length ≤ mostNumbered ∧
    (Children.members o.children).length ≤ mostNumbered

instance (o : Outline) : Decidable o.InRange := inferInstanceAs (Decidable (_ ∧ _))

def kind (o : Outline) : FeatureKind := o.shape.kind
def tags (o : Outline) : List (String × String) := Children.tags o.children

structure ToldBy (o : Outline) (a : Attributes) : Prop where
  id : a.Tells "id" Reading.id? (some o.id)
  edit : a.TellEdit o.edit
  shape : o.shape.ToldBy a

instance (o : Outline) (a : Attributes) : Decidable (o.ToldBy a) :=
  decidable_of_iff
    (a.Tells "id" Reading.id? (some o.id) ∧ a.TellEdit o.edit ∧ o.shape.ToldBy a)
    ⟨fun ⟨h, i, j⟩ => ⟨h, i, j⟩, fun ⟨h, i, j⟩ => ⟨h, i, j⟩⟩

/-- The markup of features: each starts, with attributes that tell it, its children follow, and
it ends. -/
inductive Written : List Outline → List Event → Prop
  | nil : Written [] []
  | cons {o : Outline} {os : List Outline} {a : Attributes} {inner es : List Event}
      (told : o.ToldBy a) (children : Child.Written o.children inner) (rest : Written os es) :
      Written (o :: os) (.start o.kind.element a :: (inner ++ .close o.kind.element :: es))

/-- The value of the elevation tag, where it is a finite number. -/
def elevation? (o : Outline) : Option Float := do
  let text ← Children.value? o.children "ele"
  (Decimal.real? (Text.trim text)).filter Float.isFinite

def ownRow (o : Outline) : Row :=
  let name := Children.value? o.children "name"
  match o.shape with
  | .node p => .node {
      id := o.id, x := p.longitude, y := p.latitude, elevation := o.elevation?, edit := o.edit,
      name }
  | .way => .way { id := o.id, edit := o.edit, name }
  | .relation => .relation { id := o.id, edit := o.edit }

def tagRows (o : Outline) : List Placed :=
  o.tags.map fun (key, value) => (.tagsOf o.kind, .tag ⟨o.id, key, value⟩)

def wayNodeRows (o : Outline) : List Placed :=
  (Children.refs o.children).zipIdx.map fun (ref, i) =>
    (.wayNode, .wayNode ⟨o.id, ref, .ofNat (i + 1)⟩)

/-- The members come first, then the own row, the tags and the nodes of a way. -/
def rows (o : Outline) : List Placed :=
  Children.memberRows o.id o.children ++
    (.ofFeature o.kind, o.ownRow) :: (o.tagRows ++ o.wayNodeRows)

def totals (os : List Outline) : Counts :=
  let children := os.flatMap Outline.children
  let tags := os.flatMap Outline.tags
  { nodes := os.countP (·.kind = .node)
    ways := os.countP (·.kind = .way)
    relations := os.countP (·.kind = .relation)
    tags := tags.length
    duplicateTags := (Children.givenTags children).length - tags.length
    nodeRefs := (Children.refs children).length
    members := (Children.members children).length }

end Outline
end MapTables
