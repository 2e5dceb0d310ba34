import MapTables.Decimal.Shortest
import MapTables.Markup.Element
import MapTables.Text.Quoted

/-!
# Faults of map markup

Why a sequence of events describes no features. A fault names the element it was found
at and, where one is being built, the feature.
-/

namespace MapTables

/-- The feature that was being built, if any. -/
abbrev Context := Option (FeatureKind × Int)

/-- Where a child element belongs. -/
inductive Place where
  | anyFeature
  | way
  | relation
deriving DecidableEq, Repr

inductive AssemblyFault where
  | missingAttribute (element : Element) (name : String) (context : Context)
  | invalidAttribute (element : Element) (name value : String) (context : Context)
  | nonFinitePosition (id : Int) (latitude longitude : Float)
  | misplaced (element : Element) (expected : Place) (state : Option FeatureKind) (context : Context)
  | unknownMemberKind (relation : Int) (value : String)
  | unbalancedClose (element : Element) (state : Option FeatureKind) (context : Context)
  | unterminated (kind : FeatureKind) (id : Int)

def Context.text : Context → String
  | some (kind, id) => s!" (in {kind.word} {id})"
  | none => ""

def Place.text : Place → String
  | .anyFeature => "node, way or relation"
  | .way => "way"
  | .relation => "relation"

def stateWord : Option FeatureKind → String
  | some .node => "Node"
  | some .way => "Way"
  | some .relation => "Relation"
  | none => "None"

namespace AssemblyFault

def message : AssemblyFault → String
  | .missingAttribute e a c => s!"<{e.word}> is missing required attribute `{a}`{c.text}"
  | .invalidAttribute e a v c =>
    s!"<{e.word}> attribute `{a}` has invalid value {Text.quote v}{c.text}"
  | .nonFinitePosition id lat lon =>
    s!"node {id} has non-finite coordinates (lat={Decimal.render lat}, lon={Decimal.render lon})"
  | .misplaced e p s c =>
    s!"<{e.word}> must appear inside an open {p.text}, but the router was in state {stateWord s}" ++
      c.text
  | .unknownMemberKind r v => s!"member of relation {r} has unknown type {Text.quote v}"
  | .unbalancedClose e s c =>
    s!"</{e.word}> does not close the open feature (router state {stateWord s}){c.text}"
  | .unterminated k id => s!"stream ended before {k.word} {id} was closed"

def context : AssemblyFault → Context
  | .missingAttribute _ _ c | .invalidAttribute _ _ _ c | .misplaced _ _ _ c
  | .unbalancedClose _ _ c => c
  | .nonFinitePosition .. | .unknownMemberKind .. | .unterminated .. => none

end AssemblyFault
end MapTables
