import MapTables.Toml.Scalar

/-!
# TOML documents

A document is made of lines: a key with its value, the header of a table, or nothing.
Lists and tables between braces hold further values; how deep they may lie in each other
is bounded by the length of the document.
-/

namespace MapTables.Toml

def skipBlanks : Reader Unit := fun cs => some ((), cs.dropWhile isBlank)

def expect (c : Char) : Reader Unit := fun
  | d :: rest => if c = d then some ((), rest) else none
  | [] => none

/-- The character that is next, left where it is. -/
def next? : Reader (Option Char) := fun cs => some (cs.head?, cs)

def isKeyChar (c : Char) : Bool := c.isAlphanum || c == '_' || c == '-'

def keyPart : Reader String := fun cs =>
  match cs with
  | '"' :: _ | '\'' :: _ => quoted cs
  | _ =>
    let name := cs.takeWhile isKeyChar
    if name.isEmpty then none else some (String.ofList name, cs.dropWhile isKeyChar)

def keyParts : Nat → Reader (List String)
  | 0 => failure
  | depth + 1 => do
    skipBlanks
    let part ← keyPart
    skipBlanks
    if (← next?) = some '.' then
      expect '.'
      return part :: (← keyParts depth)
    else return [part]

def comment : Reader Unit := fun
  | '#' :: rest =>
    let rest := rest.dropWhile isTextChar
    match rest with
    | [] | '\n' :: _ | '\r' :: '\n' :: _ => some ((), rest)
    | _ => none
  | cs => some ((), cs)

def skipLines : Nat → Reader Unit
  | 0 => failure
  | depth + 1 => do
    skipBlanks
    comment
    match ← next? with
    | some '\n' =>
      expect '\n'
      skipLines depth
    | some '\r' =>
      expect '\r'
      expect '\n'
      skipLines depth
    | _ => return ()

mutual

/-- A value, with a bound for how deep others lie in it. -/
def anyValue : Nat → Reader Value
  | 0 => failure
  | depth + 1 => do
    match ← next? with
    | some '"' | some '\'' => return .scalar (.text (← text))
    | some '[' =>
      expect '['
      listItems depth
      return .scalar .different
    | some '\x7b' =>
      expect '\x7b'
      skipBlanks
      if (← next?) = some '\x7d' then
        expect '\x7d'
        return .table .closed []
      else return .table .closed (← tableItems depth [])
    | _ => return .scalar (← bare)

def listItems : Nat → Reader Unit
  | 0 => failure
  | depth + 1 => do
    skipLines depth
    if (← next?) = some ']' then expect ']'
    else
      let _ ← anyValue depth
      skipLines depth
      match ← next? with
      | some ',' =>
        expect ','
        listItems depth
      | _ => expect ']'

/-- The rest of a table between braces, behind the entries that were read. -/
def tableItems : Nat → Entries → Reader Entries
  | 0, _ => failure
  | depth + 1, es => do
    let key ← keyParts depth
    expect '='
    skipBlanks
    let v ← anyValue depth
    skipBlanks
    let es ← (es.put key v : Option Entries)
    match ← next? with
    | some ',' =>
      expect ','
      skipBlanks
      tableItems depth es
    | _ =>
      expect '\x7d'
      return es

end

/-- A document so far, and the table that further keys belong to. -/
structure Draft where
  entries : Entries := []
  current : List String := []

/-- A header, behind its first bracket. -/
def header (depth : Nat) (d : Draft) : Reader Draft := do
  if (← next?) = some '[' then
    expect '['
    let path ← keyParts depth
    expect ']'
    expect ']'
    return ⟨← (d.entries.addTable path : Option Entries), path⟩
  else
    let path ← keyParts depth
    expect ']'
    return ⟨← (d.entries.openTable path : Option Entries), path⟩

def line (depth : Nat) (d : Draft) : Reader Draft := do
  skipBlanks
  match ← next? with
  | none | some '\n' | some '\r' | some '#' => return d
  | some '[' =>
    expect '['
    header depth d
  | _ =>
    let key ← keyParts depth
    expect '='
    skipBlanks
    let v ← anyValue depth
    return { d with entries := ← (d.entries.putAt d.current key v : Option Entries) }

def lines (depth : Nat) : Nat → Draft → Reader Draft
  | 0, _ => failure
  | more + 1, d => do
    let d ← line depth d
    skipBlanks
    comment
    match ← next? with
    | none => return d
    | some '\n' =>
      expect '\n'
      lines depth more d
    | _ =>
      expect '\r'
      expect '\n'
      lines depth more d

/-- A mark in front of a text says nothing about it. -/
def withoutMark : List Char → List Char
  | '\uFEFF' :: rest => rest
  | cs => cs

def document? (s : String) : Option Entries :=
  let cs := withoutMark s.toList
  -- Every level and every line takes at least one character.
  let bound := cs.length + 2
  ((lines bound bound {}).run cs).map fun r => r.1.entries

end MapTables.Toml
