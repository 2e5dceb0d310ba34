import MapTables.Command.Field
import MapTables.Decimal.Integer
import MapTables.Decimal.Real
import MapTables.Text.Blank
import MapTables.Toml.Text

/-!
# Environment variables

The value of a variable is read as a truth value, a number, a quoted text, a list in
brackets or a table in braces, whichever it is; anything else is the text itself.
-/

namespace MapTables.Command.Variables

open Toml (Reader)

/-- A character that ends a text without quotes inside a list or a table. -/
def isSeparator (c : Char) : Bool :=
  c == ',' || c == '\x7b' || c == '\x7d' || c == '[' || c == ']'

def isSpace (c : Char) : Bool :=
  c == ' ' || c == '\t' || c == '\n' || c == '\r' || c == '\x0c'

def isNameChar (c : Char) : Bool := c.isAlphanum || c == '_' || c == '-'

def skipSpace : Reader Unit := fun cs => some ((), cs.dropWhile isSpace)

/-- Takes a character if it is next; whether it was. -/
def takes (c : Char) : Reader Bool := fun cs =>
  match cs with
  | d :: rest => some (if c = d then (true, rest) else (false, cs))
  | [] => some (false, cs)

def plain (text : String) : Given :=
  let text := Text.trim text
  if text.toList.contains '.' ∧ (Decimal.real? text).isSome then .different
  else if text = "true" then .truth true
  else if text = "false" then .truth false
  else
    match Decimal.word? 64 text, Decimal.integer? 64 text with
    | some n, _ => .number n
    | none, some n => .number n
    | none, none => .text text

def bare : Reader Given := fun cs =>
  some (plain (String.ofList (cs.takeWhile (!isSeparator ·))), cs.dropWhile (!isSeparator ·))

/-- A text up to the double quote that closes it, behind what was read. -/
def quotedFrom (done : List Char) (cs : List Char) : Option (List Char × List Char) :=
  match cs with
  | [] => none
  | '"' :: rest => some (done.reverse, rest)
  | '\\' :: rest =>
    match h : Toml.escape? rest with
    | none => none
    | some (c, after) =>
      have := Toml.length_escape?_lt h
      quotedFrom (c :: done) after
  | c :: rest => quotedFrom (c :: done) rest
termination_by cs.length
decreasing_by all_goals simp only [List.length_cons]; omega

def quoted : Reader Given := fun cs =>
  (quotedFrom [] cs).map fun r => (.text (String.ofList r.1), r.2)

def character : Reader Given := fun
  | c :: '\'' :: rest => some (.text (String.singleton c), rest)
  | _ => none

def name : Reader Unit := fun cs =>
  match cs with
  | '"' :: rest => (quoted rest).map fun r => ((), r.2)
  | _ => if (cs.takeWhile isNameChar).isEmpty then none else some ((), cs.dropWhile isNameChar)

mutual

/-- A value, with a bound for how deep others lie in it. -/
def anyValue : Nat → Reader Given
  | 0 => failure
  | depth + 1 => do
    skipSpace
    let given ←
      if ← takes '"' then quoted
      else if ← takes '\x7b' then items depth '\x7d'
      else if ← takes '[' then items depth ']'
      else if ← takes '\'' then character
      else bare
    skipSpace
    return given

/-- The rest of a list or a table, up to the bracket that closes it. -/
def items : Nat → Char → Reader Given
  | 0, _ => failure
  | depth + 1, close => do
    if ← takes close then return .different
    if close = '\x7d' then
      skipSpace
      name
      skipSpace
      if !(← takes '=') then failure
    let _ ← anyValue depth
    if ← takes ',' then items depth close
    else if ← takes close then return .different
    else failure

end

def given (value : String) : Given :=
  match (anyValue (value.length + 2)).run value.toList with
  | some (g, []) => g
  | _ => .text value

/-- What the names of all settings' variables start with. -/
def commonStart : String := "OSMLOAD_CMDS_OSMLOAD_CLI_"

def nameOf (f : Field) : String := commonStart ++ String.ofList (f.key.toList.map Char.toUpper)

def sameName (a b : String) : Bool := a.toList.map Char.toUpper == b.toList.map Char.toUpper

def layer (environment : List (String × String)) : Layer :=
  Field.all.filterMap fun f =>
    (environment.find? fun v => sameName v.1 (nameOf f)).map fun v => (f, given v.2)

end MapTables.Command.Variables
