import MapTables.Assembly.Reading
import MapTables.Journal

/-!
# Assembling features

The assembler holds at most one feature. Child elements extend it, its end tag turns it
into rows, and a new feature takes the place of one that was left open. The members of
a relation become rows at once. An event that cannot belong to map markup is refused,
and a refusal changes nothing.
-/

namespace MapTables

structure Counts where
  nodes : Nat := 0
  ways : Nat := 0
  relations : Nat := 0
  /-- Tags taken in. -/
  tags : Nat := 0
  /-- Tags left out because the feature had their key. -/
  duplicateTags : Nat := 0
  nodeRefs : Nat := 0
  members : Nat := 0
deriving DecidableEq, Repr

namespace Counts

def features (c : Counts) : Nat := c.nodes + c.ways + c.relations

def addClosed (c : Counts) : FeatureKind → Counts
  | .node => { c with nodes := c.nodes + 1 }
  | .way => { c with ways := c.ways + 1 }
  | .relation => { c with relations := c.relations + 1 }

@[simp] theorem features_addClosed (c : Counts) (k : FeatureKind) :
    (c.addClosed k).features = c.features + 1 := by
  cases k <;> simp only [addClosed, features] <;> omega

end Counts

/-- The number of a relation's first member. -/
def firstSequence : Int32 := 1

structure Assembler where
  openFeature : Option Feature := none
  /-- The number that the next member gets. -/
  nextSequence : Int32 := firstSequence
  counts : Counts := {}

inductive Change where
  | ignored
  /-- The open feature was extended, or one of its members became a row. -/
  | extended
  | opened (kind : FeatureKind)
  | closed (kind : FeatureKind)
deriving DecidableEq, Repr

structure Step where
  next : Assembler
  change : Change
  rows : List Placed := []
  note : Option Line := none

namespace Assembler

def state (a : Assembler) : Option FeatureKind := a.openFeature.map Feature.kind

def context (a : Assembler) : Context := a.openFeature.map fun f => (f.kind, f.id)

/-- Opens a feature. One that is still open is given up, and its members' numbering with it. -/
def openWith (a : Assembler) (f : Feature) : Step :=
  match a.openFeature with
  | none => { next := { a with openFeature := some f }, change := .opened f.kind }
  | some previous =>
    { next := { a with openFeature := some f, nextSequence := firstSequence }
      change := .opened f.kind
      note := some (Journal.warn (s!"discarding unclosed {previous.kind.word} {previous.id} " ++
        s!"because a new {f.kind.word} was opened")) }

def addTag (a : Assembler) (attributes : Attributes) : Except AssemblyFault Step := do
  let key ← Reading.required .tag attributes "k" a.context
  let value ← Reading.required .tag attributes "v" a.context
  match a.openFeature with
  | none => .error (.misplaced .tag .anyFeature a.state a.context)
  | some f =>
    match f.tags.insert? key value with
    | some tags =>
      return {
        next := { a with
          openFeature := some { f with tags }
          counts := { a.counts with tags := a.counts.tags + 1 } }
        change := .extended }
    | none =>
      return {
        next := { a with counts := { a.counts with duplicateTags := a.counts.duplicateTags + 1 } }
        change := .extended
        note := some (Journal.debug
          s!"ignoring duplicate tag key {Text.quote key}{a.context.text}") }

def addNodeRef (a : Assembler) (attributes : Attributes) : Except AssemblyFault Step :=
  match a.openFeature with
  | some ⟨id, edit, tags, .way refs⟩ => do
    let ref ← Reading.requiredValue Reading.id? .nodeRef attributes "ref" a.context
    return {
      next := { a with
        openFeature := some ⟨id, edit, tags, .way (refs.push ref)⟩
        counts := { a.counts with nodeRefs := a.counts.nodeRefs + 1 } }
      change := .extended }
  | _ => .error (.misplaced .nodeRef .way a.state a.context)

def addMember (a : Assembler) (attributes : Attributes) : Except AssemblyFault Step :=
  match a.openFeature with
  | some ⟨id, _, _, .relation⟩ => do
    let row ← Reading.member id a.nextSequence attributes
    return {
      next := { a with
        nextSequence := a.nextSequence + 1
        counts := { a.counts with members := a.counts.members + 1 } }
      change := .extended
      rows := [(.membersOf row.kind, .member row)] }
  | _ => .error (.misplaced .member .relation a.state a.context)

def start (a : Assembler) (e : Element) (attributes : Attributes) : Except AssemblyFault Step :=
  match e with
  | .node => (Reading.feature .node attributes).map a.openWith
  | .way => (Reading.feature .way attributes).map a.openWith
  | .relation => (Reading.feature .relation attributes).map a.openWith
  | .tag => a.addTag attributes
  | .nodeRef => a.addNodeRef attributes
  | .member => a.addMember attributes

def sequenceAfter (a : Assembler) : FeatureKind → Int32
  | .relation => firstSequence
  | _ => a.nextSequence

def close (a : Assembler) (e : Element) : Except AssemblyFault Step :=
  match e.feature? with
  | none => .ok { next := a, change := .ignored }
  | some kind =>
    match a.openFeature with
    | some f =>
      if f.kind = kind then
        .ok {
          next := {
            openFeature := none
            nextSequence := a.sequenceAfter kind
            counts := a.counts.addClosed kind }
          change := .closed kind
          rows := f.rows }
      else .error (.unbalancedClose e a.state a.context)
    | none => .error (.unbalancedClose e a.state a.context)

def step (a : Assembler) : Event → Except AssemblyFault Step
  | .start e attributes => a.start e attributes
  | .close e => a.close e

/-- The totals, once no feature is open. -/
def finish (a : Assembler) : Except AssemblyFault Counts :=
  match a.openFeature with
  | some f => .error (.unterminated f.kind f.id)
  | none => .ok a.counts

/-! ## Whole sequences -/

/-- The rows of a sequence of events and the assembler after it, if all are accepted. -/
def run (a : Assembler) : List Event → Except AssemblyFault (Assembler × List Placed)
  | [] => .ok (a, [])
  | e :: es => do
    let s ← a.step e
    let (b, rows) ← s.next.run es
    return (b, s.rows ++ rows)

end Assembler
end MapTables
