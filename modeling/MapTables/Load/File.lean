import MapTables.Folder.Tree
import MapTables.Input.Container
import MapTables.Load.Run

/-!
# Loading map files

The name of a map file tells its container. Progress is measured by the octets of the
file, packed as they are.
-/

namespace MapTables

/-- The size that a folder is said to have. -/
def folderLength : Nat := 4096

/-- What can be read of an entry through a container, and the entry's size. -/
def Container.open (c : Container) : Entry FileContent → Delivery × Nat
  | .file content => (c.deliver content, content.length)
  | .folder => ({ failure := some FolderFault.isAFolder.message }, folderLength)

def loadFile {σ ω : Type} [Store σ] [Watcher ω] (path : String)
    (found : Except FolderFault (Entry FileContent)) (store : σ) (base : String) (watcher : ω)
    (options : Options) (codecs : Codecs := {}) : Outcome σ ω :=
  match Container.ofPath? path with
  | none => { result := .error (.unsupported path), store, watcher }
  | some container =>
    match found with
    | .error fault => { result := .error (.notOpened path fault.message), store, watcher }
    | .ok entry =>
      let (delivery, length) := container.open entry
      let line := Journal.debug s!"opened {path} ({length} bytes, {container.word})"
      let outcome := load { delivery, total := length, codecs } store base watcher options
      { outcome with lines := #[line] ++ outcome.lines }

end MapTables
