import MapTables.Store.Sqlite.Database
import MapTables.Text.Utf8

/-!
# Scripts

A database as the statements that make it again: each table with its rows, in order.
-/

namespace MapTables.Sqlite

def hexDigit (n : Nat) : Char := (Nat.digitChar (n % 16)).toUpper

def hex (bytes : Bytes) : String :=
  String.ofList (bytes.flatMap fun b => [hexDigit (b.toNat / 16), hexDigit b.toNat])

/-- A text between single quotes, a quote in it written twice. -/
def quoteText (s : String) : String :=
  String.ofList ('\x27' :: (s.toList.flatMap fun c => if c = '\x27' then [c, c] else [c]) ++ ['\x27'])

/-- A text as an expression. A null character has no place between quotes. -/
def textExpression (s : String) : String :=
  if s.toList.contains '\x00' then s!"CAST(X{quoteText (hex (Bytes.ofString s))} AS TEXT)"
  else quoteText s

/-- A number as an expression; one that is too large to be written stands for no end. -/
def realExpression (x : Float) : String :=
  if x.isInf then (if x < 0 then "-9e999" else "9e999") else Decimal.render x

def Cell.expression : Cell → String
  | .null => "NULL"
  | .integer n => toString n
  | .real x => realExpression x
  | .text s => textExpression s

namespace StoredTable

def kind? (t : StoredTable) : Option TableKind := TableKind.all.find? fun k => columnNames k == t.columns

def statement (t : StoredTable) : String :=
  match t.kind? with
  | some kind => createStatement kind t.name
  | none =>
    createTableWords ++ quoteName t.name ++ " (" ++ ", ".intercalate (t.columns.map quoteName) ++ ")"

def fillStatement (t : StoredTable) (cells : List Cell) : String :=
  s!"INSERT INTO {quoteName t.name} VALUES (" ++ ", ".intercalate (cells.map Cell.expression) ++ ")"

def statements (t : StoredTable) : List String := t.statement :: t.inOrder.map t.fillStatement

end StoredTable

/-- The statements that make the tables of a database, one a line. -/
def Contents.script (c : Contents) : String :=
  let statements := c.tables.entries.flatMap fun e => e.2.statements
  String.join ((["BEGIN"] ++ statements ++ ["COMMIT"]).map fun s => s ++ ";\n")

end MapTables.Sqlite
