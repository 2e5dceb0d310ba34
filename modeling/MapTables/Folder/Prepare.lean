import MapTables.Folder.Tree

/-!
# Making folders

The folder of a file that is about to be written is made together with those above it.
Nothing is made outside the folder that a relative path starts in.
-/

namespace MapTables.Tree

variable {φ : Type}

/-- Makes one folder; those above it must be there. -/
def makeFolder (t : Tree φ) (base : Location) (steps : List Component) : Except FolderFault (Tree φ) :=
  match steps.getLast? with
  | some (.name name) => do
    let above ← t.walk (some base) base steps.dropLast
    if Component.hasNull (.name name) then .error .nullCharacter
    if !t.isFolder above then .error .notAFolder
    checkName name
    if (t.get? (above ++ [name])).isSome then .error .alreadyExists
    return t.add (above ++ [name]) .folder
  | _ => do
    let place ← t.walk (some base) base steps
    if !t.isFolder place then .error .notAFolder else .error .alreadyExists

def leadsToFolder (t : Tree φ) (base : Location) (steps : List Component) : Bool :=
  match t.walk (some base) base steps with
  | .ok place => t.isFolder place
  | .error _ => false

/-- A failure to make a folder does not count if it is there. -/
def orThere (t : Tree φ) (base : Location) (steps : List Component) (fault : FolderFault) :
    Except FolderFault Unit × Tree φ :=
  if t.leadsToFolder base steps then (.ok (), t) else (.error fault, t)

/-- Makes a folder and those above it, as far as they are missing. What was made before a
failure stays. -/
def makeFolders (t : Tree φ) (base : Location) (steps : List Component) :
    Except FolderFault Unit × Tree φ :=
  match steps with
  | [] => (.ok (), t)
  | step :: steps =>
    let steps := step :: steps
    match t.makeFolder base steps with
    | .ok t => (.ok (), t)
    | .error .notFound =>
      match makeFolders t base steps.dropLast with
      | (.error fault, t) => (.error fault, t)
      | (.ok (), t) =>
        -- Where the path ends in two dots, this folder may be there by now.
        match t.makeFolder base steps with
        | .ok t => (.ok (), t)
        | .error fault => t.orThere base steps fault
    | .error fault => t.orThere base steps fault
termination_by steps.length
decreasing_by simp

def prepareParent (t : Tree φ) (here : Location) (path : String) : Except FolderFault Unit × Tree φ :=
  t.makeFolders (start here path) (Path.parent path)

end MapTables.Tree
