import MapTables.Input.Container
import MapTables.Table.Dataset

/-!
# Base names from file names

A dataset that is given no name gets that of its file: without the ending of a map file,
with underscores for characters that no base name has.
-/

namespace MapTables.Command

/-- The endings that are left out, the longer ones first. -/
def leftOutEndings : List String := [".osm.gz", ".osm.bz2", ".osm"]

def stem (name : String) : List Char :=
  match leftOutEndings.find? (Container.endsIn name) with
  | some ending => name.toList.take (name.length - ending.length)
  | none => name.toList

/-- The character itself where base names have it, and an underscore elsewhere. -/
def tameChar (c : Char) : Char := if c.isAlphanum then c else '_'

/-- The name of a dataset whose file has none. -/
def fallbackName : String := "osm"

def tame (cs : List Char) : String :=
  match cs.map tameChar with
  | [] => fallbackName
  | c :: rest => String.ofList (if c.isDigit then '_' :: c :: rest else c :: rest)

def defaultBase (path : String) : String := tame (stem ((Path.fileName? path).getD fallbackName))

end MapTables.Command
