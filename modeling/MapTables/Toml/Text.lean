/-!
# Quoted texts in TOML

A text stands between double quotes, with escapes, or between single quotes, as it is.
Three quotes open a text of several lines; a line break right behind them is not part
of it.
-/

namespace MapTables.Toml

/-- Takes something off the front of a text, or refuses it. -/
abbrev Reader := StateT (List Char) Option

/-- A character that may stand in a text or a comment. -/
def isTextChar (c : Char) : Bool := c == '\t' || (0x20 ≤ c.toNat && c.toNat != 0x7F)

def isBlank (c : Char) : Bool := c == ' ' || c == '\t'

def escaped? : Char → Option Char
  | 'b' => some '\x08'
  | 't' => some '\t'
  | 'n' => some '\n'
  | 'f' => some '\x0c'
  | 'r' => some '\r'
  | '"' => some '"'
  | '\\' => some '\\'
  | _ => none

def hexDigit? (c : Char) : Option Nat :=
  if c.isDigit then some (c.toNat - '0'.toNat)
  else if 'a' ≤ c ∧ c ≤ 'f' then some (c.toNat - 'a'.toNat + 10)
  else if 'A' ≤ c ∧ c ≤ 'F' then some (c.toNat - 'A'.toNat + 10)
  else none

def numbered? (digits : List Char) : Option Char := do
  let n ← digits.foldlM (fun n c => do return n * 16 + (← hexDigit? c)) 0
  if n.isValidChar then some (Char.ofNat n) else none

/-- The escape behind a backslash, and what follows it. -/
def escape? (cs : List Char) : Option (Char × List Char) :=
  match cs with
  | 'u' :: rest => if 4 ≤ rest.length then do return (← numbered? (rest.take 4), rest.drop 4) else none
  | 'U' :: rest => if 8 ≤ rest.length then do return (← numbered? (rest.take 8), rest.drop 8) else none
  | c :: rest => do return (← escaped? c, rest)
  | [] => none

theorem length_escape?_lt {cs rest : List Char} {c : Char} (h : escape? cs = some (c, rest)) :
    rest.length < cs.length := by
  unfold escape? at h
  split at h
  · split at h
    · simp only [bind, Option.bind, pure] at h
      split at h
      · simp at h
      · simp only [Option.some.injEq, Prod.mk.injEq] at h
        rw [← h.2]; simp only [List.length_drop, List.length_cons]; omega
    · simp at h
  · split at h
    · simp only [bind, Option.bind, pure] at h
      split at h
      · simp at h
      · simp only [Option.some.injEq, Prod.mk.injEq] at h
        rw [← h.2]; simp only [List.length_drop, List.length_cons]; omega
    · simp at h
  · simp only [bind, Option.bind, pure] at h
    split at h
    · simp at h
    · simp only [Option.some.injEq, Prod.mk.injEq] at h
      rw [← h.2]; simp
  · simp at h

/-- A text on one line, up to the double quote that closes it, behind what was read. -/
def basic (done : List Char) (cs : List Char) : Option (List Char × List Char) :=
  match cs with
  | [] => none
  | '"' :: rest => some (done.reverse, rest)
  | '\\' :: rest =>
    match h : escape? rest with
    | none => none
    | some (c, after) =>
      have := length_escape?_lt h
      basic (c :: done) after
  | c :: rest => if isTextChar c then basic (c :: done) rest else none
termination_by cs.length
decreasing_by all_goals simp only [List.length_cons]; omega

/-- Only blanks stand before the next line break. -/
def endsLine : List Char → Bool
  | '\n' :: _ => true
  | '\r' :: '\n' :: _ => true
  | c :: rest => isBlank c && endsLine rest
  | [] => false

def dropSpace (cs : List Char) : List Char :=
  cs.dropWhile fun c => isBlank c || c == '\n' || c == '\r'

theorem length_dropSpace_le (cs : List Char) : (dropSpace cs).length ≤ cs.length := by
  induction cs with
  | nil => simp [dropSpace]
  | cons c cs ih =>
    unfold dropSpace at ih ⊢
    rw [List.dropWhile_cons]
    split
    · simp only [List.length_cons]; omega
    · simp

/-- The quotes at the end of a text of several lines: three close it, and up to two in front
of them belong to it. How many these are, and what follows. -/
def closing? (q : Char) : List Char → Option (Nat × List Char)
  | a :: b :: c :: rest =>
    if a = q ∧ b = q ∧ c = q then
      let more := min 2 (rest.takeWhile (· == q)).length
      some (more, rest.drop more)
    else none
  | _ => none

/-- A text of several lines, up to the double quotes that close it. A backslash at the end
of a line takes the space up to the next character away. -/
def multiBasic (done : List Char) (cs : List Char) : Option (List Char × List Char) :=
  match closing? '"' cs with
  | some (more, rest) => some (done.reverse ++ List.replicate more '"', rest)
  | none =>
    match cs with
    | [] => none
    | '\\' :: rest =>
      if endsLine rest then
        have := length_dropSpace_le rest
        multiBasic done (dropSpace rest)
      else
        match h : escape? rest with
        | none => none
        | some (c, after) =>
          have := length_escape?_lt h
          multiBasic (c :: done) after
    | '\n' :: rest | '\r' :: '\n' :: rest => multiBasic ('\n' :: done) rest
    | c :: rest => if isTextChar c then multiBasic (c :: done) rest else none
termination_by cs.length
decreasing_by all_goals simp only [List.length_cons]; omega

/-- A text on one line, up to the single quote that closes it. -/
def literal (done : List Char) : List Char → Option (List Char × List Char)
  | [] => none
  | '\'' :: rest => some (done.reverse, rest)
  | c :: rest => if isTextChar c then literal (c :: done) rest else none

/-- A text of several lines, up to the single quotes that close it. -/
def multiLiteral (done : List Char) (cs : List Char) : Option (List Char × List Char) :=
  match closing? '\'' cs with
  | some (more, rest) => some (done.reverse ++ List.replicate more '\'', rest)
  | none =>
    match cs with
    | [] => none
    | '\n' :: rest | '\r' :: '\n' :: rest => multiLiteral ('\n' :: done) rest
    | c :: rest => if isTextChar c then multiLiteral (c :: done) rest else none
termination_by cs.length

def withoutBreak : List Char → List Char
  | '\n' :: rest => rest
  | '\r' :: '\n' :: rest => rest
  | cs => cs

def quoted : Reader String := fun
  | '"' :: rest => (basic [] rest).map fun r => (String.ofList r.1, r.2)
  | '\'' :: rest => (literal [] rest).map fun r => (String.ofList r.1, r.2)
  | _ => none

def text : Reader String := fun
  | '"' :: '"' :: '"' :: rest =>
    (multiBasic [] (withoutBreak rest)).map fun r => (String.ofList r.1, r.2)
  | '\'' :: '\'' :: '\'' :: rest =>
    (multiLiteral [] (withoutBreak rest)).map fun r => (String.ofList r.1, r.2)
  | cs => quoted cs

end MapTables.Toml
