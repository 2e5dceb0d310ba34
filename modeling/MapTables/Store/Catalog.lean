/-!
# Catalogs

Values under names. A look-up finds the first entry of a name; entries keep the order in
which their names came.
-/

namespace MapTables

structure Catalog (α : Type) where
  entries : List (String × α) := []
deriving DecidableEq

namespace Catalog

variable {α : Type}

def names (c : Catalog α) : List String := c.entries.map Prod.fst

def get? (c : Catalog α) (name : String) : Option α := c.entries.lookup name

def contains (c : Catalog α) (name : String) : Bool := (c.get? name).isSome

def alterEntries (name : String) (f : α → α) (fresh : α) : List (String × α) → List (String × α)
  | [] => [(name, fresh)]
  | (n, a) :: rest => if n = name then (n, f a) :: rest else (n, a) :: alterEntries name f fresh rest

/-- Changes the value under a name, or puts a fresh one there when there is none. -/
def alter (c : Catalog α) (name : String) (f : α → α) (fresh : α) : Catalog α :=
  ⟨alterEntries name f fresh c.entries⟩

def insert (c : Catalog α) (name : String) (a : α) : Catalog α := c.alter name (fun _ => a) a

def erase (c : Catalog α) (name : String) : Catalog α :=
  ⟨c.entries.filter fun e => e.1 != name⟩

theorem lookup_cons_eq (name n : String) (a : α) (l : List (String × α)) :
    List.lookup name ((n, a) :: l) = if name = n then some a else l.lookup name := by
  by_cases h : name = n
  · simp [h]
  · have : (name == n) = false := by simp [h]
    simp [List.lookup_cons, this, h]

theorem lookup_alterEntries (name other : String) (f : α → α) (fresh : α) (l : List (String × α)) :
    (alterEntries name f fresh l).lookup other =
      if other = name then some (((l.lookup name).map f).getD fresh) else l.lookup other := by
  induction l with
  | nil => simp [alterEntries, lookup_cons_eq]
  | cons e l ih =>
    obtain ⟨n, a⟩ := e
    by_cases hn : n = name
    · subst hn
      by_cases ho : other = n
      · simp [alterEntries, ho]
      · simp [alterEntries, lookup_cons_eq, ho]
    · by_cases ho : other = name
      · subst ho
        simp [alterEntries, lookup_cons_eq, hn, ih, Ne.symm hn]
      · by_cases hon : other = n
        · subst hon; simp [alterEntries, ho]
        · simp [alterEntries, lookup_cons_eq, hn, hon, ho, ih]

theorem get?_alter (c : Catalog α) (name other : String) (f : α → α) (fresh : α) :
    (c.alter name f fresh).get? other =
      if other = name then some (((c.get? name).map f).getD fresh) else c.get? other :=
  lookup_alterEntries name other f fresh c.entries

theorem get?_insert (c : Catalog α) (name other : String) (a : α) :
    (c.insert name a).get? other = if other = name then some a else c.get? other := by
  rw [insert, get?_alter]
  cases c.get? name <;> rfl

theorem get?_erase (c : Catalog α) (name other : String) :
    (c.erase name).get? other = if other = name then none else c.get? other := by
  obtain ⟨l⟩ := c
  simp only [erase, get?]
  induction l with
  | nil => simp
  | cons e l ih =>
    obtain ⟨n, a⟩ := e
    by_cases hn : n = name
    · subst hn
      by_cases ho : other = n
      · subst ho; simpa using ih
      · simpa [lookup_cons_eq, ho] using ih
    · by_cases ho : other = n
      · subst ho; simp [hn]
      · simp [hn, ho, lookup_cons_eq, ih]

end Catalog
end MapTables
