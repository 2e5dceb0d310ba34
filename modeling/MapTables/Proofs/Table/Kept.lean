import MapTables.Table.Dataset
import MapTables.Table.Row

/-!
# What a table keeps

A table of tags keeps the first value of an owner's key; the other tables keep every row.
The ten names of a dataset differ.
-/

namespace MapTables

/-! ## Repeated tags -/

/-- Both rows give the same key to the same owner. -/
def Row.sameTag : Row → Row → Bool
  | .tag s, .tag t => s.owner == t.owner && s.key == t.key
  | _, _ => false

def TableKind.keep (k : TableKind) (rows : List Row) : List Row :=
  if k.holdsTags then rows.eraseDupsBy Row.sameTag else rows

theorem eraseDupsBy_loop_concat {α : Type} (r : α → α → Bool) (l seen : List α) (a : α) :
    List.eraseDupsBy.loop r (l ++ [a]) seen =
      if (List.eraseDupsBy.loop r l seen).any (r a) then List.eraseDupsBy.loop r l seen
      else List.eraseDupsBy.loop r l seen ++ [a] := by
  induction l generalizing seen with
  | nil =>
    cases h : seen.any (r a) <;> simp [List.eraseDupsBy.loop, h]
  | cons b l ih =>
    cases h : seen.any (r b) <;> simp only [List.cons_append, List.eraseDupsBy.loop, h, ih]

namespace TableKind

@[simp] theorem keep_nil (k : TableKind) : k.keep [] = [] := by
  unfold keep
  split <;> rfl

theorem keep_concat (k : TableKind) (rows : List Row) (r : Row) :
    k.keep (rows ++ [r]) =
      if k.holdsTags && (k.keep rows).any r.sameTag then k.keep rows else k.keep rows ++ [r] := by
  unfold keep
  cases k.holdsTags with
  | false => rfl
  | true => exact eraseDupsBy_loop_concat Row.sameTag rows [] r

end TableKind

/-! ## Names of tables -/

theorem TableKind.tail_inj {j k : TableKind} (h : j.tail = k.tail) : j = k := by
  cases j <;> cases k <;> first | rfl | exact absurd h (by decide)

namespace Dataset

theorem tableName_inj (d : Dataset) {j k : TableKind} (h : d.tableName j = d.tableName k) :
    j = k := by
  apply TableKind.tail_inj
  simpa [tableName, String.ext_iff] using h

theorem tableName_ne (d : Dataset) {j k : TableKind} (h : j ≠ k) : d.tableName j ≠ d.tableName k :=
  fun he => h (d.tableName_inj he)

@[simp] theorem ofBase_base (d : Dataset) : ofBase d.base = .ok d := by
  unfold ofBase
  split
  · rfl
  · next f h => rw [d.valid] at h; cases h

end Dataset
end MapTables
