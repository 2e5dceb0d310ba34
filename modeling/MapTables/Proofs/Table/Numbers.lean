import MapTables.Table.Row

/-!
# Numbers of rows

The nodes of a way and the members of a relation are numbered in 32 bits. Up to a bound their
numbers are the places they have.
-/

namespace MapTables

/-- The most nodes or members that can be numbered. The number behind the last one is made too,
and for a way also the one behind that. -/
def mostNumbered : Nat := 2147483645

theorem toInt_ofNat {n : Nat} (h : n ≤ mostNumbered + 2) : (Int32.ofNat n).toInt = n :=
  Int32.toInt_ofNat_of_lt (by unfold mostNumbered at h; omega)

theorem toInt_succ {i : Int32} {n : Nat} (h : i.toInt ≤ n) (hn : n ≤ mostNumbered + 1) :
    (i + 1).toInt = i.toInt + 1 := by
  unfold mostNumbered at hn
  have := i.le_toInt
  rw [Int32.toInt_add, Int32.toInt_one, Int.bmod_eq_of_le] <;> omega

def Row.number? : Row → Option Int
  | .wayNode r => some r.position
  | .member r => some r.sequence
  | _ => none

/-- The rows have the numbers one, two and so on. -/
def Numbered (rows : List Placed) : Prop :=
  rows.map (fun r => r.2.number?) =
    (List.range' 1 rows.length).map fun (n : Nat) => some (n : Int)

theorem numbered_zipIdx {α : Type} {xs : List α} (h : xs.length ≤ mostNumbered)
    {row : α × Nat → Placed}
    (hrow : ∀ x, (row x).2.number? = some (Int32.ofNat (x.2 + 1)).toInt) :
    Numbered (xs.zipIdx.map row) := by
  have hexact : ∀ x ∈ xs.zipIdx, (row x).2.number? = some ((1 + x.2 : Nat) : Int) := by
    intro x hx
    have := List.snd_lt_of_mem_zipIdx hx
    rw [hrow, toInt_ofNat (by omega), Nat.add_comm]
  have hplaces : (xs.zipIdx.map Prod.snd).map (1 + ·) = List.range' 1 xs.length := by
    rw [List.zipIdx_map_snd, List.map_add_range']
  rw [Numbered, List.map_map, List.length_map, List.length_zipIdx, ← hplaces, List.map_map,
    List.map_map]
  exact List.map_congr_left hexact

end MapTables
