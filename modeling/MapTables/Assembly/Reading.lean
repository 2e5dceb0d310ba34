import MapTables.Assembly.Fault
import MapTables.Table.Row

/-!
# Reading attributes

Typed values from the attributes of an element. The blanks around a number, a truth
value or a timestamp do not count; other texts are taken as they stand.
-/

namespace MapTables.Reading

variable {α : Type}

def required (e : Element) (a : Attributes) (name : String) (c : Context) :
    Except AssemblyFault String :=
  match a.get? name with
  | some v => .ok v
  | none => .error (.missingAttribute e name c)

/-- The value that a text stands for once it is trimmed. -/
def value (read : String → Option α) (e : Element) (name text : String) (c : Context) :
    Except AssemblyFault α :=
  match read (Text.trim text) with
  | some x => .ok x
  | none => .error (.invalidAttribute e name text c)

def requiredValue (read : String → Option α) (e : Element) (a : Attributes) (name : String)
    (c : Context) : Except AssemblyFault α := do
  value read e name (← required e a name c) c

def optionalValue (read : String → Option α) (e : Element) (a : Attributes) (name : String)
    (c : Context) : Except AssemblyFault (Option α) :=
  match a.get? name with
  | some text => (value read e name text c).map some
  | none => .ok none

def truth? : String → Option Bool
  | "true" => some true
  | "false" => some false
  | _ => none

def id? : String → Option Int := Decimal.integer? 64

def edit (e : Element) (a : Attributes) (c : Context) : Except AssemblyFault Edit := do
  let uid ← optionalValue id? e a "uid" c
  let visible ← optionalValue truth? e a "visible" c
  let version ← optionalValue (Decimal.integer? 32) e a "version" c
  let changeset ← optionalValue id? e a "changeset" c
  let timestamp ← optionalValue Time.Timestamp.ofText? e a "timestamp" c
  return { user := a.get? "user", uid, visible, version, changeset, timestamp }

def position (id : Int) (a : Attributes) : Except AssemblyFault Position := do
  let c : Context := some (.node, id)
  let latitude ← requiredValue Decimal.real? .node a "lat" c
  let longitude ← requiredValue Decimal.real? .node a "lon" c
  match Position.ofCoordinates? latitude longitude with
  | some p => .ok p
  | none => .error (.nonFinitePosition id latitude longitude)

/-- What the kind of a feature adds, as its opening tag tells it. -/
def body (kind : FeatureKind) (id : Int) (a : Attributes) : Except AssemblyFault Body :=
  match kind with
  | .node => (position id a).map .node
  | .way => .ok (.way #[])
  | .relation => .ok .relation

def feature (kind : FeatureKind) (a : Attributes) : Except AssemblyFault Feature := do
  let e := kind.element
  let id ← requiredValue id? e a "id" none
  let edit ← edit e a (some (kind, id))
  let body ← body kind id a
  return { id, edit, tags := .empty, body }

def member (relation : Int) (sequence : Int32) (a : Attributes) :
    Except AssemblyFault MemberRow := do
  let c : Context := some (.relation, relation)
  let word ← required .member a "type" c
  match FeatureKind.ofWord? word with
  | none => .error (.unknownMemberKind relation word)
  | some kind =>
    let ref ← requiredValue id? .member a "ref" c
    return { relation, ref, kind, role := a.get? "role", sequence }

end MapTables.Reading
