import MapTables.Folder.Path

/-!
# Folders and files

A tree of folders and files. A place in it is the list of names that lead to it from the
root, which is a folder in every tree. There are no symbolic links.
-/

namespace MapTables

inductive FolderFault where
  | notFound
  | notAFolder
  | isAFolder
  | alreadyExists
  /-- The path ends in no name. -/
  | noFileName
  /-- A name with the null character. -/
  | nullCharacter
  | nameTooLong
  /-- Two dots led out of the folder that the path must stay in. -/
  | outside
deriving DecidableEq, Repr

def FolderFault.message : FolderFault → String
  | .notFound => "No such file or directory (os error 2)"
  | .notAFolder => "Not a directory (os error 20)"
  | .isAFolder => "Is a directory (os error 21)"
  | .alreadyExists => "File exists (os error 17)"
  | .noFileName => "path has no file name"
  | .nullCharacter => "file name contained an unexpected NUL byte"
  | .nameTooLong => "File name too long (os error 36)"
  | .outside => "a path led outside of the filesystem"

inductive Entry (φ : Type) where
  | file (content : φ)
  | folder
deriving Repr

/-- The names that lead to a place. -/
abbrev Location := List String

/-- Folders and files by their places. Symbolic links are left out, so the folder above a place is
the one that its path names. -/
structure Tree (φ : Type) where
  entries : List (Location × Entry φ) := []

namespace Tree

variable {φ : Type}

def get? (t : Tree φ) : Location → Option (Entry φ)
  | [] => some .folder
  | place => t.entries.lookup place

def isFolder (t : Tree φ) (place : Location) : Bool :=
  match t.get? place with
  | some .folder => true
  | _ => false

/-- Puts something at a place where nothing is. -/
def add (t : Tree φ) (place : Location) (e : Entry φ) : Tree φ := ⟨(place, e) :: t.entries⟩

/-- Puts a file at a place, whatever is there. -/
def replaceFile (t : Tree φ) (place : Location) (content : φ) : Tree φ :=
  ⟨(place, .file content) :: t.entries.filter fun e => e.1 != place⟩

/-- The most octets of a name. -/
def longestName : Nat := 255

def checkName (name : String) : Except FolderFault Unit :=
  if longestName < name.utf8ByteSize then .error .nameTooLong else .ok ()

/-- The step to a name or to the folder above. Nothing is above the root; above the folder
`inside`, if there is one, the walk must not get. -/
def step (t : Tree φ) (inside : Option Location) (place : Location) (c : Component) :
    Except FolderFault Location :=
  if !t.isFolder place then .error .notAFolder else
  match c with
  | .up => if inside = some place then .error .outside else .ok place.dropLast
  | .name name => do
    checkName name
    if (t.get? (place ++ [name])).isSome then .ok (place ++ [name]) else .error .notFound

def walk (t : Tree φ) (inside : Option Location) (start : Location) (steps : List Component) :
    Except FolderFault Location :=
  if steps.any Component.hasNull then .error .nullCharacter
  else steps.foldlM (t.step inside) start

def start (here : Location) (path : String) : Location := if Path.isAbsolute path then [] else here

def find (t : Tree φ) (here : Location) (path : String) : Except FolderFault (Entry φ) := do
  if path = "" then .error .notFound
  let place ← t.walk none (start here path) (Path.components path)
  match t.get? place with
  | none => .error .notFound
  | some (.file content) =>
    if Path.isFolderPath path then .error .notAFolder else .ok (.file content)
  | some .folder => .ok .folder

def isFile (t : Tree φ) (here : Location) (path : String) : Except FolderFault Bool := do
  match Path.fileName? path with
  | none => .error .noFileName
  | some name =>
    let folder ← t.walk none (start here path) (Path.parent path)
    if !t.isFolder folder then .error .notAFolder else
    let place ← t.walk (some folder) folder [.name name]
    return !t.isFolder place

theorem get?_add (t : Tree φ) (place other : Location) (e : Entry φ) (h : place ≠ []) :
    (t.add place e).get? other = if other = place then some e else t.get? other := by
  cases other with
  | nil => simp [get?, Ne.symm h]
  | cons n ns =>
    simp only [get?, add, List.lookup_cons]
    by_cases ho : n :: ns = place
    · simp [ho]
    · have : (n :: ns == place) = false := by simpa using ho
      simp [this, ho]

end Tree
end MapTables
