/-!
# Paths

A path is a text with slashes between its components. Empty components and single dots
name nothing; two dots name the folder above.
-/

namespace MapTables

inductive Component where
  | up
  | name (text : String)
deriving DecidableEq, Repr

def Component.hasNull : Component → Bool
  | .up => false
  | .name text => text.toList.contains '\x00'

namespace Path

/-- The texts between the slashes. -/
def segments : List Char → List (List Char)
  | [] => [[]]
  | c :: cs =>
    if c = '/' then [] :: segments cs
    else
      match segments cs with
      | [] => [[c]]
      | s :: ss => (c :: s) :: ss

def isAbsolute (path : String) : Bool := path.toList.head? == some '/'

def component? (segment : List Char) : Option Component :=
  if segment = [] ∨ segment = ['.'] then none
  else if segment = ['.', '.'] then some .up
  else some (.name (String.ofList segment))

def components (path : String) : List Component := (segments path.toList).filterMap component?

/-- The path can only lead to a folder. -/
def isFolderPath (path : String) : Bool :=
  ((segments path.toList).getLast?.bind component?).isNone

def fileName? (path : String) : Option String :=
  match (components path).getLast? with
  | some (.name text) => some text
  | _ => none

/-- The steps to the folder that the path's last step is taken in. -/
def parent (path : String) : List Component := (components path).dropLast

theorem segments_ne_nil (cs : List Char) : segments cs ≠ [] := by
  induction cs with
  | nil => simp [segments]
  | cons c cs ih =>
    unfold segments
    split
    · simp
    · split <;> simp

end Path
end MapTables
