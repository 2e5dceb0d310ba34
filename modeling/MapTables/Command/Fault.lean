import MapTables.Command.Arguments
import MapTables.Folder.Tree
import MapTables.Load.Fault

/-!
# Faults of the command

Why the command ends without having loaded anything, or without having loaded all.
-/

namespace MapTables.Command

inductive CommandFault where
  | arguments (fault : ArgumentFault)
  /-- A configuration file cannot be read, or a setting is given a value that it does not
  take. -/
  | configuration
  | missing (field : Field)
  | invalid (field : Field) (value reason : String)
  | noSource (path : String)
  | sourceNotFile (path : String)
  | sourceHidden (path : String) (fault : FolderFault)
  /-- The database's folder cannot be made. -/
  | unprepared (path : String) (fault : FolderFault)
  | unopened (path : String)
  | load (path : String) (fault : LoadFault)

namespace CommandFault

def variableName (f : Field) : String :=
  "OSMLOAD_CMDS_INGEST_" ++ String.ofList (f.key.toList.map Char.toUpper)

/-- The setting whose path must lead to a file. -/
def sourceFlag : String := Field.input.flag

def message : CommandFault → String
  | .arguments fault => fault.message
  | .configuration => "failed to load configuration"
  | .missing f => s!"missing {f.flag} (set --{f.flag} or {variableName f})"
  | .invalid f value reason => s!"invalid --{f.flag} value {Text.quote value}: {reason}"
  | .noSource path => s!"{sourceFlag} path {Text.quote path} does not exist"
  | .sourceNotFile path => s!"{sourceFlag} path {Text.quote path} exists but is not a file"
  | .sourceHidden path fault =>
    s!"failed to inspect {sourceFlag} path {Text.quote path}: {fault.message}"
  | .unprepared path fault =>
    s!"failed to create the directory for database {Text.quote path}: {fault.message}"
  | .unopened path => s!"failed to open database {Text.quote path}"
  | .load path fault => s!"failed to ingest {Text.quote path}: {fault.message}"

def causes : CommandFault → List String
  | .sourceHidden _ fault | .unprepared _ fault => [fault.message]
  | .load _ fault => fault.message :: fault.causes
  | _ => []

end CommandFault
end MapTables.Command
