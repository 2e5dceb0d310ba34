import Mathlib.Data.List.Induction
import MapTables.Proofs.Table.Kept

/-!
# Keys of rows

Each table has a key by which its rows are told apart. A table keeps all of its rows where
their keys are different.
-/

namespace MapTables

/-- What the rows of one table are told apart by. -/
inductive RowKey where
  | feature (id : Int)
  | tag (owner : Int) (key : String)
  | place (owner : Int) (position : Int32)
deriving DecidableEq

def RowKey.id : RowKey → Int
  | .feature id => id
  | .tag owner _ => owner
  | .place owner _ => owner

def Row.key : Row → RowKey
  | .node r => .feature r.id
  | .way r => .feature r.id
  | .relation r => .feature r.id
  | .tag r => .tag r.owner r.key
  | .wayNode r => .place r.way r.position
  | .member r => .place r.relation r.sequence

def TableKind.takes (k : TableKind) : Row → Bool
  | .node _ => k = .node
  | .way _ => k = .way
  | .relation _ => k = .relation
  | .tag _ => k.holdsTags
  | .wayNode _ => k = .wayNode
  | .member m => k = .membersOf m.kind

/-- The rows belong into tables of the kind, and no two of them have the same key. -/
structure TableKind.Accepts (k : TableKind) (rows : List Row) : Prop where
  takes : ∀ r ∈ rows, k.takes r = true
  distinct : (rows.map Row.key).Nodup

theorem Row.key_eq_of_sameTag {a b : Row} (h : a.sameTag b = true) : a.key = b.key := by
  unfold sameTag at h
  split at h
  · simp only [Bool.and_eq_true, beq_iff_eq] at h
    rw [key, key, h.1, h.2]
  · cases h

namespace TableKind

theorem holdsTags_tagsOf (k : FeatureKind) : (tagsOf k).holdsTags = true := by cases k <;> rfl

theorem Accepts.front {k : TableKind} {rows front : List Row} (h : k.Accepts rows)
    (hf : front <+: rows) : k.Accepts front :=
  ⟨fun r hr => h.takes r (hf.subset hr), h.distinct.sublist (hf.sublist.map _)⟩

theorem keep_of_nodup (k : TableKind) {rows : List Row} (h : (rows.map Row.key).Nodup) :
    k.keep rows = rows := by
  induction rows using List.reverseRecOn with
  | nil => exact k.keep_nil
  | append_singleton rows r ih =>
    rw [List.map_append, List.nodup_append] at h
    rw [keep_concat, ih h.1, if_neg]
    rw [Bool.and_eq_true, List.any_eq_true]
    rintro ⟨-, a, ha, hr⟩
    exact h.2.2 _ (List.mem_map_of_mem ha) _ List.mem_cons_self (Row.key_eq_of_sameTag hr).symm

end TableKind
end MapTables
