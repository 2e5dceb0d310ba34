import MapTables.Assembly.Basic
import MapTables.Load.Writer

/-!
# Reports

What a load that went well has to tell: the totals of the features and of each table.
-/

namespace MapTables

structure Report where
  dataset : Dataset
  counts : Counts
  totals : PerTable Totals

namespace Report

def ofWriter (w : Writer) (counts : Counts) : Report where
  dataset := w.dataset
  counts := counts
  totals := ⟨w.buffers.node.totals, w.buffers.nodeTag.totals, w.buffers.way.totals,
    w.buffers.wayTag.totals, w.buffers.wayNode.totals, w.buffers.relation.totals,
    w.buffers.relationTag.totals, w.buffers.nodeMember.totals, w.buffers.wayMember.totals,
    w.buffers.relationMember.totals⟩

theorem totals_ofWriter (w : Writer) (counts : Counts) (k : TableKind) :
    (ofWriter w counts).totals.get k = (w.buffers.get k).totals := by
  cases k <;> rfl

def rowsWritten (r : Report) : Nat := r.totals.toList.foldr (fun t n => t.written + n) 0

/-- Tags left out, because their feature had the key or because their table did. -/
def duplicateTags (r : Report) : Nat :=
  r.counts.duplicateTags + r.totals.toList.foldr (fun t n => t.duplicateTags + n) 0

/-- The kind of the dataset's table of a name. -/
def kindOf? (r : Report) (table : String) : Option TableKind :=
  TableKind.all.find? fun k => r.dataset.tableName k == table

def text (r : Report) : String :=
  s!"ingested {r.counts.nodes} nodes, {r.counts.ways} ways and {r.counts.relations} relations " ++
    s!"({r.rowsWritten} rows, {r.duplicateTags} duplicate tags)"

end Report
end MapTables
