import MapTables.Command.Log
import MapTables.Command.Run
import MapTables.Store.Sqlite.Script

/-!
# The program

What the command asks about is looked up around it, the command is run on what was found,
and what it changed is carried out: folders are made, databases are written as scripts.
-/

namespace MapTables.Program

open Command

def pathOf (place : Location) : String := "/" ++ "/".intercalate place

/-- The places that a path passes by, the folders above them first. -/
def placesOn (here : Location) (path : String) : List Location :=
  let steps := (Path.components path).foldl (fun (places : List Location) c =>
    let place := places.headD []
    (match c with
      | .up => place.dropLast
      | .name n => place ++ [n]) :: places) [Tree.start here path]
  steps.reverse.flatMap fun place => (List.range place.length).map fun n => place.take (n + 1)

def look (place : Location) : IO (Option (Entry Resource)) := do
  let path := (← IO.currentDir) / pathOf place
  if ← path.isDir then return some .folder
  if !(← path.pathExists) then return none
  let bytes ← IO.FS.readBinFile path
  return some (.file (.content (.ofBytes bytes.toList)))

def lookAlong (w : World) (path : String) : IO World := do
  let mut tree := w.tree
  for place in placesOn w.here path do
    if (tree.get? place).isNone then
      if let some entry ← look place then tree := tree.add place entry
  return { w with tree }

def variableNames : List String := ["HOME", "XDG_CONFIG_HOME"] ++ Field.all.map Variables.nameOf

/-- The world as far as the arguments make the command look at it. -/
def around (arguments : List String) : IO World := do
  let here := Path.components (← IO.currentDir).toString
  let environment ← variableNames.filterMapM fun name =>
    return (← IO.getEnv name).map fun value => (name, value)
  let mut w : World := {
    tree := {}
    here := here.filterMap fun
      | .name n => some n
      | .up => none
    environment }
  for path in configurationPaths environment do
    w ← lookAlong w path
  match w.settings arguments with
  | .error _ => return w
  | .ok s => lookAlong (← lookAlong w s.input) s.database

def carryOut (before after : World) : IO Unit := do
  for (place, entry) in after.tree.entries.reverse do
    match entry with
    | .folder =>
      if (before.tree.get? place).isNone then
        IO.FS.createDir (pathOf place)
    | .file (.database contents) =>
      IO.FS.writeFile (pathOf place) contents.script
    -- The command writes no file but the database.
    | .file (.content _) => pure ()

def run (arguments : List String) : IO UInt32 := do
  let w ← around arguments
  let finished := w.run arguments
  carryOut w finished.world
  for line in finished.log do
    IO.eprintln (logLine line)
  IO.print finished.output
  match finished.result with
  | .ok () => return 0
  | .error fault =>
    IO.eprintln s!"osmload: {fault.message}"
    return 1

end MapTables.Program

def main (arguments : List String) : IO UInt32 := MapTables.Program.run arguments
