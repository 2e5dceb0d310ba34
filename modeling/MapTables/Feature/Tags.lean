/-!
# Tags

A feature carries tags, a value for each key. They keep the order in which their keys
came, and the first value of a key stays.
-/

namespace MapTables

/-- Keys with their values, in the order the keys came. -/
structure Tags where
  entries : List (String × String)
  distinct : (entries.map Prod.fst).Nodup
deriving DecidableEq

namespace Tags

def empty : Tags := ⟨[], by simp⟩

instance : Inhabited Tags := ⟨empty⟩

def keys (t : Tags) : List String := t.entries.map Prod.fst

def get? (t : Tags) (key : String) : Option String :=
  (t.entries.find? fun e => e.1 == key).map Prod.snd

def contains (t : Tags) (key : String) : Bool := decide (key ∈ t.keys)

def size (t : Tags) : Nat := t.entries.length

/-- The tags with a new key at the end, or nothing when the key is there. -/
def insert? (t : Tags) (key value : String) : Option Tags :=
  if h : key ∈ t.keys then none
  else some ⟨t.entries ++ [(key, value)], by
    have hd := t.distinct
    simp only [keys] at h
    simp only [List.map_append, List.map_cons, List.map_nil]
    refine List.nodup_append.2 ⟨hd, by simp, ?_⟩
    intro a ha b hb
    simp only [List.mem_singleton] at hb
    subst hb
    exact fun he => h (he ▸ ha)⟩

/-- The tags with a key's first value. -/
def insert (t : Tags) (key value : String) : Tags := (t.insert? key value).getD t

@[simp] theorem entries_empty : empty.entries = [] := rfl

theorem insert?_eq_none_iff {t : Tags} {key value : String} :
    t.insert? key value = none ↔ key ∈ t.keys := by
  unfold insert?
  split <;> simp_all

theorem entries_of_insert? {t u : Tags} {key value : String} (h : t.insert? key value = some u) :
    u.entries = t.entries ++ [(key, value)] := by
  unfold insert? at h
  split at h
  · simp at h
  · simp only [Option.some.injEq] at h
    rw [← h]

theorem contains_iff {t : Tags} {key : String} : t.contains key = true ↔ key ∈ t.keys := by
  simp [contains]

def nameKey : String := "name"

/-- The key of a node's elevation. -/
def elevationKey : String := "ele"

def name? (t : Tags) : Option String := t.get? nameKey

end Tags
end MapTables
