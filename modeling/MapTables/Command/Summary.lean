import MapTables.Load.Report

/-!
# Summaries

What the command prints of a load that went well: a line of totals, a line for each
table with the name and the number in columns, and the tags that were left out, if any.
-/

namespace MapTables.Command

def padLeft (width : Nat) (s : String) : String :=
  String.ofList (List.replicate (width - s.length) ' ') ++ s

def padRight (width : Nat) (s : String) : String :=
  s ++ String.ofList (List.replicate (width - s.length) ' ')

/-- The columns of names and of numbers. -/
def nameWidth : Nat := 32
def numberWidth : Nat := 10

def tableLine (table : String) (rows : Nat) : String :=
  "  " ++ padRight nameWidth table ++ " " ++ padLeft numberWidth (toString rows) ++ " rows\n"

def summary (database : String) (r : Report) : String :=
  s!"loaded {r.counts.nodes} nodes, {r.counts.ways} ways and {r.counts.relations} relations " ++
    s!"into {database}\n" ++
    String.join (r.dataset.tables.map fun t => tableLine t.2 (r.totals.get t.1).written) ++
    if r.duplicateTags = 0 then "" else s!"  skipped {r.duplicateTags} duplicate tags\n"

end MapTables.Command
