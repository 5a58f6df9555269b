/-!
# Tables

A table maps keys to values, as the chain's storage maps do. It is kept as a list of entries
with at most one entry per key: `insert` first drops the old entry of its key. What a table
means is its look-up `get?`, and each operation has one equation for it:

* `get?_insert`: after `insert k v`, the key `k` holds `v` and every other key what it held;
* `get?_erase`: after `erase k`, the key `k` holds nothing and every other key what it held.

A set of keys is a table of `Unit` values.
-/

namespace ZkPolicy

/-- A finite map from keys to values. -/
structure Table (κ ν : Type) where
  entries : List (κ × ν)
deriving DecidableEq

namespace Table

variable {κ ν : Type} [DecidableEq κ]

/-- The table with no entries. -/
def empty : Table κ ν := ⟨[]⟩

instance : EmptyCollection (Table κ ν) := ⟨empty⟩

/-- The value stored under a key. -/
def get? (t : Table κ ν) (k : κ) : Option ν := (t.entries.find? (fun e => e.1 = k)).map (·.2)

/-- Whether a key has a value. -/
def contains (t : Table κ ν) (k : κ) : Bool := (t.get? k).isSome

/-- Drops the value of a key. -/
def erase (t : Table κ ν) (k : κ) : Table κ ν := ⟨t.entries.filter (fun e => e.1 ≠ k)⟩

/-- Stores a value under a key, in place of the one it had. -/
def insert (t : Table κ ν) (k : κ) (v : ν) : Table κ ν := ⟨(k, v) :: (t.erase k).entries⟩

/-- The table that holds exactly the given pairs, the later of two for one key winning. -/
def ofList (kvs : List (κ × ν)) : Table κ ν :=
  kvs.foldl (fun (t : Table κ ν) (e : κ × ν) => t.insert e.1 e.2) empty

@[simp] theorem get?_empty (k : κ) : (empty : Table κ ν).get? k = none := rfl

theorem get?_erase (t : Table κ ν) (k k' : κ) :
    (t.erase k).get? k' = if k' = k then none else t.get? k' := by
  obtain ⟨es⟩ := t
  simp only [get?, erase]
  induction es with
  | nil => simp
  | cons e es ih =>
    by_cases h : e.1 = k <;> by_cases h' : e.1 = k' <;> simp_all

theorem get?_insert (t : Table κ ν) (k k' : κ) (v : ν) :
    (t.insert k v).get? k' = if k' = k then some v else t.get? k' := by
  have h := get?_erase t k k'
  simp only [get?, insert] at h ⊢
  rw [List.find?_cons]
  by_cases hk : k' = k
  · subst hk; simp
  · simp only [hk, if_false] at h
    simpa [Ne.symm hk, hk] using h

@[simp] theorem get?_insert_self (t : Table κ ν) (k : κ) (v : ν) :
    (t.insert k v).get? k = some v := by
  simp [get?_insert]

@[simp] theorem get?_erase_self (t : Table κ ν) (k : κ) : (t.erase k).get? k = none := by
  simp [get?_erase]

theorem contains_insert (t : Table κ ν) (k k' : κ) (v : ν) :
    (t.insert k v).contains k' = (k' = k || t.contains k') := by
  by_cases h : k' = k <;> simp [contains, get?_insert, h]

theorem contains_erase (t : Table κ ν) (k k' : κ) :
    (t.erase k).contains k' = (k' ≠ k && t.contains k') := by
  by_cases h : k' = k <;> simp [contains, get?_erase, h]

end Table

end ZkPolicy
