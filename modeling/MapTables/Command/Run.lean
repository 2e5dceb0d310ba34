import MapTables.Command.Settings
import MapTables.Command.Summary
import MapTables.Folder.Prepare
import MapTables.Load.File
import MapTables.Store.Sqlite.Database

/-!
# Running the command

The command looks at its arguments, at the environment and at configuration files, makes
sure that there is an input, and loads it into a database. What it sees and changes is
the world: the folders around it.
-/

namespace MapTables.Command

inductive Resource where
  | content (content : FileContent)
  | database (contents : Sqlite.Contents)

structure World where
  tree : Tree Resource
  /-- The folder that relative paths start in. -/
  here : Location
  environment : List (String × String) := []
  codecs : Codecs := {}

namespace Resource

/-- What every database file starts with. -/
def databaseMark : String := "SQLite format 3\x00"

def asContent : Resource → FileContent
  | .content c => c
  | .database _ => .ofBytes (Bytes.ofString databaseMark)

end Resource

def World.mapFile (w : World) (path : String) : Except FolderFault (Entry FileContent) :=
  (w.tree.find w.here path).map fun
    | .file r => .file r.asContent
    | .folder => .folder

/-! ## Configuration -/

/-- The configuration files, those that count less first. -/
def configurationPaths (environment : List (String × String)) : List String :=
  let home := environment.lookup "HOME"
  let config := (environment.lookup "XDG_CONFIG_HOME").orElse fun _ =>
    home.map fun h => s!"{h}/.config"
  (home.map fun h => s!"{h}/.osmload.toml").toList ++
    (config.map fun c => s!"{c}/osmload/config.toml").toList ++ [".osmload.toml"]

def fileLayer (r : Resource) : Except CommandFault Layer :=
  match Utf8.decode r.asContent.octets with
  | .error _ => .error .configuration
  | .ok s =>
    match Toml.document? s with
    | some es => .ok (Settings.ofDocument es)
    | none => .error .configuration

def World.fileLayers (w : World) : Except CommandFault (List Layer) :=
  ((configurationPaths w.environment).filterMap fun path =>
    match w.tree.find w.here path with
    | .ok (.file r) => some r
    | _ => none).mapM fileLayer

def World.settings (w : World) (arguments : List String) : Except CommandFault Settings := do
  let flags ← (Arguments.ofList arguments).mapError .arguments
  Settings.ofLayers ((← w.fileLayers) ++ [Variables.layer w.environment, flags])

def World.checkSource (w : World) (path : String) : Except CommandFault Unit :=
  match w.tree.isFile w.here path with
  | .ok true => .ok ()
  | .ok false => .error (.sourceNotFile path)
  | .error .notFound => .error (.noSource path)
  | .error fault => .error (.sourceHidden path fault)

/-! ## Databases -/

/-- A database in use, with the place of its file if it has one. -/
structure Connection where
  database : Sqlite.Database
  place : Option Location

/-- Paths that name no file: the database lasts as long as the connection. -/
def temporaryPaths : List String := ["", ":memory:"]

/-- The place that a path names when each `..` takes the name before it away. -/
def plainPlace (here : Location) (path : String) : Location :=
  (Path.components path).foldl (fun place c => match c with
    | .up => place.dropLast
    | .name n => place ++ [n]) (Tree.start here path)

/-- Opens the database of a path. A file that is not there or empty is a new database. -/
def World.connect? (w : World) (path : String) : Option Connection :=
  if path ∈ temporaryPaths then some ⟨{}, none⟩ else
  let place := plainPlace w.here path
  match w.tree.get? place with
  | some (.file (.database contents)) => some ⟨{ contents }, some place⟩
  -- That a file holds no database is found out only when it is read.
  | some (.file (.content content)) => some ⟨{ foreign := content.length ≠ 0 }, some place⟩
  | some .folder => none
  | none =>
    let named := (place.getLast?.map fun n => Tree.checkName n matches .ok _).getD false
    if named && w.tree.isFolder place.dropLast then some ⟨{}, some place⟩ else none

/-- The world once a connection is closed. What is not final is taken back. -/
def World.disconnect (w : World) (c : Connection) : World :=
  match c.place with
  | none => w
  | some place =>
    if c.database.foreign then w
    else { w with tree := w.tree.replaceFile place (.database c.database.rollback.contents) }

/-! ## The command -/

structure Finished where
  result : Except CommandFault Unit
  output : String := ""
  /-- The lines of the journal that are shown. -/
  log : Journal := #[]
  world : World

def World.execute (w : World) (s : Settings) : Finished :=
  match w.tree.prepareParent w.here s.database with
  | (.error fault, tree) =>
    { result := .error (.unprepared s.database fault), world := { w with tree } }
  | (.ok (), tree) =>
    let w := { w with tree }
    match w.connect? s.database with
    | none => { result := .error (.unopened s.database), world := w }
    | some connection =>
      let line := Journal.info s!"loading {s.input} into {s.database} as {s.dataset.base}_*"
      let outcome := loadFile s.input (w.mapFile s.input) connection.database s.dataset.base
        ({} : Announcer) s.options w.codecs
      let world := w.disconnect { connection with database := outcome.store }
      let log := s.verbosity.shown (#[line] ++ outcome.lines)
      match outcome.result with
      | .error fault => { result := .error (.load s.input fault), log, world }
      | .ok report => { result := .ok (), output := summary s.database report, log, world }

def World.run (w : World) (arguments : List String) : Finished :=
  match w.settings arguments with
  | .error fault => { result := .error fault, world := w }
  | .ok s =>
    match w.checkSource s.input with
    | .error fault => { result := .error fault, world := w }
    | .ok () => w.execute s

end MapTables.Command
