import MapTables.Journal

/-!
# Lines of the log

Each line of the journal is shown as an object with its level and its message.
-/

namespace MapTables.Command

def levelWord : Level → String
  | .debug => "DEBUG"
  | .info => "INFO"
  | .warn => "WARN"

def fourDigits (n : Nat) : List Char :=
  let digits := Nat.toDigits 16 n
  List.replicate (4 - digits.length) '0' ++ digits

/-- How a character is shown between the quotes. -/
def logChar (c : Char) : List Char :=
  match c with
  | '"' => ['\\', '"']
  | '\\' => ['\\', '\\']
  | '\n' => ['\\', 'n']
  | '\r' => ['\\', 'r']
  | '\t' => ['\\', 't']
  | c => if c < ' ' then '\\' :: 'u' :: fourDigits c.toNat else [c]

def logText (s : String) : String :=
  String.ofList ('"' :: (s.toList.flatMap logChar ++ ['"']))

def logLine (l : Line) : String :=
  s!"\x7b\"level\":{logText (levelWord l.level)},\"message\":{logText l.text}\x7d"

end MapTables.Command
