import MapTables.Table.Kind
import MapTables.Text.Quoted

/-!
# Datasets

A dataset is a base name that its ten tables share. A base name starts with an ASCII
letter or an underscore and goes on with letters, digits and underscores.
-/

namespace MapTables

inductive NameFault where
  | empty
  | badStart
  | badCharacter
deriving DecidableEq, Repr

def NameFault.reason : NameFault → String
  | .empty => "name is empty"
  | .badStart => "name must start with a letter or underscore"
  | .badCharacter => "name may only contain ASCII letters, digits and underscores"

def isNameStart (c : Char) : Bool := c.isAlpha || c == '_'
def isNameChar (c : Char) : Bool := c.isAlphanum || c == '_'

def nameFault? : List Char → Option NameFault
  | [] => some .empty
  | c :: cs =>
    if !isNameStart c then some .badStart
    else if !cs.all isNameChar then some .badCharacter
    else none

structure Dataset where
  base : String
  valid : nameFault? base.toList = none
deriving DecidableEq

namespace Dataset

def ofBase (base : String) : Except NameFault Dataset :=
  match h : nameFault? base.toList with
  | none => .ok ⟨base, h⟩
  | some fault => .error fault

def tableName (d : Dataset) (k : TableKind) : String := d.base ++ k.tail

def tables (d : Dataset) : List (TableKind × String) :=
  TableKind.all.map fun k => (k, d.tableName k)

def tableNames (d : Dataset) : List String := TableKind.all.map d.tableName

theorem base_of_ofBase {base : String} {d : Dataset} (h : ofBase base = .ok d) : d.base = base := by
  unfold ofBase at h
  split at h
  · cases h; rfl
  · cases h

theorem ofBase_eq_error_iff {base : String} {f : NameFault} :
    ofBase base = .error f ↔ nameFault? base.toList = some f := by
  unfold ofBase
  split
  · next h => simp [h]
  · next g h => simp [h]

end Dataset
end MapTables
