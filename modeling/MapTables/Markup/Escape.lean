import MapTables.Markup.Fault

/-!
# References to characters

Inside a value `&name;` stands for one of five characters, `&#n;` and `&#xn;` for the
character with a number. Every other character stands for itself.
-/

namespace MapTables.Escape

def named : List (String × Char) :=
  [("lt", '<'), ("gt", '>'), ("amp", '&'), ("apos", '\''), ("quot", '"')]

def named? (name : String) : Option Char := (named.find? fun e => e.1 == name).map Prod.snd

/-- The value of a digit of a base up to sixteen. -/
def digit? (base : Nat) (c : Char) : Option Nat :=
  let n := c.toNat
  let v :=
    if '0' ≤ c ∧ c ≤ '9' then some (n - '0'.toNat)
    else if 'a' ≤ c ∧ c ≤ 'f' then some (n - 'a'.toNat + 10)
    else if 'A' ≤ c ∧ c ≤ 'F' then some (n - 'A'.toNat + 10)
    else none
  v.filter (· < base)

def leadOctet (c : Char) : UInt8 := (String.utf8EncodeChar c).headD 0

def utf8Length (cs : List Char) : Nat := cs.foldr (fun c n => c.utf8Size + n) 0

/-- Digits read after a number. A character that is no digit is told by its first octet. -/
def digits (base : Nat) (bad : UInt8 → EscapeFault) : Nat → List Char → Except EscapeFault Nat
  | n, [] => .ok n
  | n, c :: cs =>
    match digit? base c with
    | some d => digits base bad (n * base + d) cs
    | none => .error (bad (leadOctet c))

def number : List Char → Except EscapeFault Nat
  | 'x' :: cs =>
    if 6 < utf8Length cs then .error .tooLongHexadecimal else digits 16 .badHexadecimal 0 cs
  | cs => if 7 < utf8Length cs then .error .tooLongDecimal else digits 10 .badDecimal 0 cs

/-- The character that a reference between two octets stands for. -/
def resolve (start stop : Nat) : List Char → Except EscapeFault Char
  | '#' :: cs => do
    let n ← number cs
    if n = 0 then .error (.null start stop)
    else if h : n.isValidChar then .ok (Char.ofNatAux n h)
    else .error (.noCharacter n)
  | name =>
    match named? (String.ofList name) with
    | some c => .ok c
    | none => .error (.unknownName (start + 1) stop (String.ofList name))

/-- Neither the start nor the end of a reference. -/
def isInside (c : Char) : Bool := c != '&' && c != ';'

theorem length_dropWhile_le {α : Type} (p : α → Bool) (l : List α) :
    (l.dropWhile p).length ≤ l.length := (List.dropWhile_suffix p).length_le

/-- The text that a value stands for, behind octets of it that are done. -/
def unescapeFrom (length index : Nat) (done : Array Char) (cs : List Char) :
    Except EscapeFault (Array Char) :=
  match cs with
  | [] => .ok done
  | c :: rest =>
    if c = '&' then
      let name := rest.takeWhile isInside
      let stop := index + 1 + utf8Length name
      match h : rest.dropWhile isInside with
      | ';' :: after =>
        match resolve index stop name with
        | .error f => .error f
        | .ok ch =>
          have : after.length < rest.length + 1 := by
            have := length_dropWhile_le isInside rest
            rw [h] at this
            simp only [List.length_cons] at this
            omega
          unescapeFrom length (stop + 1) (done.push ch) after
      | _ => .error (.unterminated index length)
    else unescapeFrom length (index + c.utf8Size) (done.push c) rest
termination_by cs.length

def unescape (value : String) : Except EscapeFault String :=
  (unescapeFrom value.utf8ByteSize 0 #[] value.toList).map fun cs => String.ofList cs.toList

def escapeChar (c : Char) : List Char :=
  match named.find? fun e => e.2 == c with
  | some (name, _) => '&' :: (name.toList ++ [';'])
  | none => [c]

def escape (text : String) : String := String.ofList (text.toList.flatMap escapeChar)

end MapTables.Escape
