import MapTables.Markup.Attribute

/-!
# Constructs of markup

What stands behind a `<`: a tag, an end tag, a declaration, a comment, a section of
plain text or a document type. A tag and an end tag may also end with the input.
-/

namespace MapTables.Markup

inductive Part where
  /-- It says nothing about elements. -/
  | passed
  /-- A tag with what stands between `<` and `>`. -/
  | opens (content : Bytes)
  /-- An end tag with what stands between `<` and `>`. -/
  | closes (content : Bytes)
deriving DecidableEq, Repr

/-- Why no construct could be read. Positions count from just after the `<`. -/
inductive Halt where
  | malformed (position : Nat) (fault : MarkupFault)
  /-- The input failed. -/
  | starved (position : Nat)
deriving DecidableEq, Repr

/-- A construct, how far it moves the position, and what follows it. -/
structure Taken (body : Bytes) where
  part : Part
  advance : Nat
  rest : Bytes
  notLonger : rest.length ≤ body.length

def isContent (b : UInt8) : Bool := b != 0x3E

/-- Octets before the `>` that ends a tag; a `>` between quotes does not. -/
def tagLength (quote : Option UInt8) (n : Nat) : Bytes → Nat
  | [] => n
  | b :: rest =>
    match quote with
    | none =>
      if b = 0x3E then n
      else if b = 0x22 ∨ b = 0x27 then tagLength (some b) (n + 1) rest
      else tagLength none (n + 1) rest
    | some q => tagLength (if b = q then none else quote) (n + 1) rest

/-- Octets before the `>` that follows a mark written twice, behind `n` octets of which the
last two are given. At least `least` octets come before that `>`. -/
def markedLength? (mark : UInt8) (least n : Nat) (a b : UInt8) : Bytes → Option Nat
  | [] => none
  | c :: rest =>
    if c = 0x3E ∧ least ≤ n ∧ a = mark ∧ b = mark then some n
    else markedLength? mark least (n + 1) b c rest

/-- Octets before the `>` that ends a document type: as many `<` as `>` stand before it since
the piece of the delivery began in which it lies. The ends of the pieces are given. -/
def doctypeLength? (ends : List Nat) (offset n : Nat) (balance : Int) : Bytes → Option Nat
  | [] => none
  | c :: rest =>
    let fresh := ends.head? == some offset
    -- What a piece has left open is forgotten where the next one begins.
    let balance := if fresh then 0 else balance
    let ends := if fresh then ends.tail else ends
    if c = 0x3E ∧ balance = 0 then some n
    else
      let balance := if c = 0x3C then balance + 1 else if c = 0x3E then balance - 1 else balance
      doctypeLength? ends (offset + 1) (n + 1) balance rest

theorem length_le_of_drop {n : Nat} {c : UInt8} {body rest : Bytes}
    (h : body.drop n = c :: rest) : rest.length ≤ body.length := by
  have := congrArg List.length h
  simp only [List.length_drop, List.length_cons] at this
  omega

theorem length_le_of_dropWhile {p : UInt8 → Bool} {c : UInt8} {body rest : Bytes}
    (h : body.dropWhile p = c :: rest) : rest.length ≤ body.length := by
  have := Escape.length_dropWhile_le p body
  rw [h] at this
  simp only [List.length_cons] at this
  omega

def takeTag (fails : Bool) (body : Bytes) : Except Halt (Taken body) :=
  let n := tagLength none 0 body
  match h : body.drop n with
  | [] => if fails then .error (.starved body.length) else .ok ⟨.opens body, 0, [], Nat.zero_le _⟩
  | _ :: rest => .ok ⟨.opens (body.take n), n + 1, rest, length_le_of_drop h⟩

/-- What stands before the next `>`, and how far it moves the position. -/
structure Upto (body : Bytes) where
  content : Bytes
  advance : Nat
  rest : Bytes
  notLonger : rest.length ≤ body.length

def upto (fails : Bool) (body : Bytes) : Except Halt (Upto body) :=
  let content := body.takeWhile isContent
  match h : body.dropWhile isContent with
  | [] =>
    if fails then .error (.starved content.length)
    else .ok ⟨content, content.length, [], Nat.zero_le _⟩
  | _ :: rest => .ok ⟨content, content.length + 1, rest, length_le_of_dropWhile h⟩

def takeEndTag (fails : Bool) (body : Bytes) : Except Halt (Taken body) :=
  (upto fails body).map fun u => ⟨.closes u.content, u.advance, u.rest, u.notLonger⟩

/-- A declaration or instruction: it ends with a question mark of its own. -/
def takeDeclaration (fails : Bool) (body : Bytes) : Except Halt (Taken body) :=
  match upto fails body with
  | .error h => .error h
  | .ok u =>
    -- Something must stand between the two question marks, so `<??>` is too short.
    if 2 < u.content.length ∧ u.content.getLast? = some 0x3F then
      .ok ⟨.passed, u.advance, u.rest, u.notLonger⟩
    else .error (.malformed (u.advance - u.content.length) (.unfinished .declaration))

def bangKind? (b : UInt8) : Option Construct :=
  if b = 0x2D then some .comment
  else if b = 0x5B then some .cdata
  else if b = 0x44 ∨ b = 0x64 then some .doctype
  else none

def startsWith (word : String) (more : Bytes) : Bool :=
  (Bytes.ofString word).map Element.lowerOctet |>.isPrefixOf (more.map Element.lowerOctet)

/-- What is wrong with a finished construct behind `<!`. -/
def bangFault? (kind : Construct) (content : Bytes) : Option MarkupFault :=
  match kind with
  | .comment => if startsWith "--" content then none else some (.unfinished .comment)
  | .cdata => if startsWith "[CDATA[" content then none else some (.unfinished .cdata)
  | .doctype =>
    if startsWith "DOCTYPE" content then
      if (content.drop 7).all Tag.isSpace then some .emptyDoctype else none
    else some (.unfinished .doctype)
  | kind => some (.unfinished kind)

def bangLength? (kind : Construct) (ends : List Nat) (offset : Nat) (more : Bytes) : Option Nat :=
  match kind with
  | .comment => markedLength? 0x2D 4 0 0 0 more
  | .cdata => markedLength? 0x5D 0 0 0 0 more
  | _ => doctypeLength? ends offset 0 0 more

def takeBang (fails : Bool) (ends : List Nat) (offset : Nat) (more : Bytes) :
    Except Halt (Taken more) :=
  match more with
  | [] => .error (if fails then .starved 0 else .malformed 0 (.unfinished .bang))
  | b :: tail =>
    match bangKind? b with
    | none => .error (.malformed 0 (.unexpectedBang b))
    | some kind =>
      match bangLength? kind ends offset (b :: tail) with
      | none =>
        .error (if fails then .starved (tail.length + 2) else .malformed 0 (.unfinished kind))
      | some n =>
        match bangFault? kind ((b :: tail).take n) with
        | some fault => .error (.malformed (n + 2) fault)
        | none => .ok ⟨.passed, n + 2, (b :: tail).drop (n + 1), by
            simp only [List.length_drop]; omega⟩

/-- The construct behind a `<`, whose position and the ends of the pieces behind it are given. -/
def take (fails : Bool) (ends : List Nat) (offset : Nat) (body : Bytes) :
    Except Halt (Taken body) :=
  match body with
  | [] => .error (.starved 0)
  | b :: more =>
    if b = 0x2F then takeEndTag fails (b :: more)
    else if b = 0x3F then takeDeclaration fails (b :: more)
    else if b = 0x21 then
      (takeBang fails ends (offset + 1) more).map fun t =>
        ⟨t.part, t.advance, t.rest, by have := t.notLonger; simp only [List.length_cons]; omega⟩
    else takeTag fails (b :: more)

end MapTables.Markup
