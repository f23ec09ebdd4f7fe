/-!
# Entries in insertion order

An association list with distinct keys. A new key goes to the end; a key that is there keeps its
place and takes the new value.

* `Entries.get?_put` reads back what was put.
* `Entries.keys_put` says where the keys stand after a put.
-/

namespace TableExport

/-- Keyed values in the order in which their keys came. -/
abbrev Entries (α : Type) := List (String × α)

namespace Entries

variable {α : Type}

/-- The keys in order. -/
def keys (entries : Entries α) : List String := entries.map Prod.fst

/-- The value of a key. -/
def get? (entries : Entries α) (key : String) : Option α :=
  match entries with
  | [] => none
  | (name, value) :: rest => if name = key then some value else get? rest key

/-- Puts a value at a key. -/
def put (entries : Entries α) (key : String) (value : α) : Entries α :=
  match entries with
  | [] => [(key, value)]
  | (name, old) :: rest =>
    if name = key then (name, value) :: rest else (name, old) :: put rest key value

@[simp] theorem get?_nil (key : String) : get? ([] : Entries α) key = none := rfl

/-- Putting a value changes what its own key holds and nothing else. -/
theorem get?_put (entries : Entries α) (key other : String) (value : α) :
    (entries.put key value).get? other =
      if key = other then some value else entries.get? other := by
  induction entries with
  | nil => rfl
  | cons pair rest ih =>
    obtain ⟨name, old⟩ := pair
    simp only [put]
    by_cases h : name = key
    · subst h; by_cases h' : name = other <;> simp [get?, h']
    · by_cases h' : name = other
      · subst h'; simp [get?, h, Ne.symm h]
      · simp [get?, h, h', ih]

/-- A key that is there keeps its place, and a new one comes last. -/
theorem keys_put (entries : Entries α) (key : String) (value : α) :
    (entries.put key value).keys =
      if key ∈ entries.keys then entries.keys else entries.keys ++ [key] := by
  induction entries with
  | nil => rfl
  | cons pair rest ih =>
    obtain ⟨name, old⟩ := pair
    simp only [put, keys] at ih ⊢
    by_cases h : name = key
    · simp [h]
    · simp only [h, if_false, List.map_cons, ih, List.mem_cons]
      by_cases h' : key ∈ rest.map Prod.fst <;> simp [h', Ne.symm h]

end Entries

end TableExport
