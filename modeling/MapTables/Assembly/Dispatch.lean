import MapTables.Assembly.Basic

/-!
# The assembler at work

Events are taken one by one. A feature is put where the open one is kept, taken from there or put
back, rows go to a sink as they are finished, and what is counted is counted on the way. A fault
leaves what was done before it.
-/

namespace MapTables

class RowSink (κ : Type) where
  enqueue : κ → Placed → κ

instance : RowSink (Array Placed) := ⟨Array.push⟩

/-- An assembler at work, with the sink of its rows and the lines written on the way. -/
structure Assembling (κ : Type) where
  assembler : Assembler
  sink : κ
  lines : Journal := #[]

abbrev AssemblingM (κ : Type) := ExceptT AssemblyFault (StateM (Assembling κ))

namespace Assembling

variable {κ : Type}

def say (line : Line) : AssemblingM κ Unit :=
  modify fun w => { w with lines := w.lines.push line }

/-- Puts a feature, or none, where the open one is kept; what was there before. -/
def exchange (f : Option Feature) : AssemblingM κ (Option Feature) := modifyGet fun w =>
  (w.assembler.openFeature, { w with assembler.openFeature := f })

def setNextSequence (n : Int32) : AssemblingM κ Unit :=
  modify fun w => { w with assembler.nextSequence := n }

def tally (f : Counts → Counts) : AssemblingM κ Unit :=
  modify fun w => { w with assembler.counts := f w.assembler.counts }

def openWith (f : Feature) : AssemblingM κ Change := do
  if let some previous ← exchange (some f) then
    say (Journal.warn (s!"discarding unclosed {previous.kind.word} {previous.id} " ++
      s!"because a new {f.kind.word} was opened"))
    setNextSequence firstSequence
  return .opened f.kind

def addTag (attributes : Attributes) : AssemblingM κ Change := do
  let a := (← get).assembler
  let key ← Reading.required .tag attributes "k" a.context
  let value ← Reading.required .tag attributes "v" a.context
  match a.openFeature with
  | none => throw (.misplaced .tag .anyFeature a.state a.context)
  | some f =>
    match f.tags.insert? key value with
    | some tags =>
      let _ ← exchange (some { f with tags })
      tally fun c => { c with tags := c.tags + 1 }
    | none =>
      say (Journal.debug s!"ignoring duplicate tag key {Text.quote key}{a.context.text}")
      tally fun c => { c with duplicateTags := c.duplicateTags + 1 }
    return .extended

def addNodeRef (attributes : Attributes) : AssemblingM κ Change := do
  let a := (← get).assembler
  match a.openFeature with
  | some ⟨id, edit, tags, .way refs⟩ =>
    let ref ← Reading.requiredValue Reading.id? .nodeRef attributes "ref" a.context
    let _ ← exchange (some ⟨id, edit, tags, .way (refs.push ref)⟩)
    tally fun c => { c with nodeRefs := c.nodeRefs + 1 }
    return .extended
  | _ => throw (.misplaced .nodeRef .way a.state a.context)

variable [RowSink κ]

def emit (rows : List Placed) : AssemblingM κ Unit :=
  modify fun w => { w with sink := rows.foldl RowSink.enqueue w.sink }

def addMember (attributes : Attributes) : AssemblingM κ Change := do
  let a := (← get).assembler
  match a.openFeature with
  | some ⟨id, _, _, .relation⟩ =>
    let row ← Reading.member id a.nextSequence attributes
    emit [(.membersOf row.kind, .member row)]
    setNextSequence (a.nextSequence + 1)
    tally fun c => { c with members := c.members + 1 }
    return .extended
  | _ => throw (.misplaced .member .relation a.state a.context)

def start (e : Element) (attributes : Attributes) : AssemblingM κ Change := do
  match e with
  | .node => openWith (← Reading.feature .node attributes)
  | .way => openWith (← Reading.feature .way attributes)
  | .relation => openWith (← Reading.feature .relation attributes)
  | .tag => addTag attributes
  | .nodeRef => addNodeRef attributes
  | .member => addMember attributes

/-- Puts back what was taken from the place of the open feature, since it is not to be closed. -/
def refuseClose (e : Element) (taken : Option Feature) : AssemblingM κ Change := do
  let _ ← exchange taken
  let a := (← get).assembler
  throw (.unbalancedClose e a.state a.context)

def close (e : Element) : AssemblingM κ Change := do
  match e.feature? with
  | none => return .ignored
  | some kind =>
    match ← exchange none with
    | some f =>
      if f.kind = kind then
        emit f.rows
        tally (·.addClosed kind)
        if kind = .relation then setNextSequence firstSequence
        return .closed kind
      else refuseClose e (some f)
    | none => refuseClose e none

def dispatch : Event → AssemblingM κ Change
  | .start e attributes => start e attributes
  | .close e => close e

end Assembling
end MapTables
