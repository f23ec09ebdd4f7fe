import Mathlib
import TableExport.Entries

/-!
# Keys of entries

Which keys entries have, and what a key that is not among them means for reading and putting. Items
that have different names are like entries: a name finds the same item in any order.
-/

namespace TableExport.Entries

variable {α β : Type}

@[simp] theorem keys_nil : keys ([] : Entries α) = [] := rfl

@[simp] theorem keys_cons (pair : String × α) (entries : Entries α) :
    keys (pair :: entries) = pair.1 :: keys entries := rfl

@[simp] theorem keys_append (first second : Entries α) :
    keys (first ++ second) = keys first ++ keys second :=
  List.map_append

theorem get?_cons_self (key : String) (value : α) (entries : Entries α) :
    get? ((key, value) :: entries) key = some value := by
  simp [get?]

theorem get?_cons_of_ne {name key : String} (h : name ≠ key) (value : α) (entries : Entries α) :
    get? ((name, value) :: entries) key = get? entries key := by
  simp [get?, h]

/-- A key has a value exactly when it is among the keys. -/
theorem get?_eq_none {entries : Entries α} {key : String} :
    entries.get? key = none ↔ key ∉ entries.keys := by
  induction entries with
  | nil => simp
  | cons pair entries ih =>
    obtain ⟨name, value⟩ := pair
    by_cases h : name = key
    · subst h
      simp [get?]
    · simp [get?, h, ih, Ne.symm h]

theorem exists_get?_of_mem_keys {entries : Entries α} {key : String} (h : key ∈ entries.keys) :
    ∃ value, entries.get? key = some value := by
  cases hget : entries.get? key with
  | none => exact absurd h (get?_eq_none.1 hget)
  | some value => exact ⟨value, rfl⟩

/-- What is found under a key is an entry. -/
theorem mem_of_get? {entries : Entries α} {key : String} {value : α}
    (h : entries.get? key = some value) : (key, value) ∈ entries := by
  induction entries with
  | nil => cases h
  | cons pair entries ih =>
    obtain ⟨name, old⟩ := pair
    by_cases hname : name = key
    · subst hname
      rw [get?_cons_self] at h
      cases h
      exact List.mem_cons_self ..
    · rw [get?_cons_of_ne hname] at h
      exact List.mem_cons_of_mem _ (ih h)

/-- Where keys are different, an entry is what is found under its key. -/
theorem get?_of_mem {entries : Entries α} {key : String} {value : α} (hnodup : entries.keys.Nodup)
    (h : (key, value) ∈ entries) : entries.get? key = some value := by
  induction entries with
  | nil => cases h
  | cons pair entries ih =>
    obtain ⟨name, old⟩ := pair
    rw [keys_cons, List.nodup_cons] at hnodup
    rcases List.mem_cons.1 h with heq | h
    · cases heq
      exact get?_cons_self key value entries
    · have hne : name ≠ key := fun heq =>
        hnodup.1 (List.mem_map.2 ⟨(key, value), h, heq.symm⟩)
      rw [get?_cons_of_ne hne]
      exact ih hnodup.2 h

theorem nodup_keys_concat {keys : List String} {key : String} :
    (keys ++ [key]).Nodup ↔ key ∉ keys ∧ keys.Nodup := by
  rw [← List.concat_eq_append]
  exact List.nodup_concat keys key

/-- A new key goes to the end. -/
theorem put_of_not_mem {entries : Entries α} {key : String} (h : key ∉ entries.keys) (value : α) :
    entries.put key value = entries ++ [(key, value)] := by
  induction entries with
  | nil => rfl
  | cons pair entries ih =>
    obtain ⟨name, old⟩ := pair
    rw [keys_cons, List.mem_cons, not_or] at h
    simp [put, Ne.symm h.1, ih h.2]

/-! ## Items with different names -/

section Names

variable {name : α → String} {items others : List α}

/-- Where names are different, what is found under a name is the item that has it. -/
theorem find?_eq_some_iff (hnodup : (items.map name).Nodup) {key : String} {found : α} :
    items.find? (name · == key) = some found ↔ found ∈ items ∧ name found = key := by
  constructor
  · intro h
    exact ⟨List.mem_of_find?_eq_some h, by simpa using List.find?_some h⟩
  · rintro ⟨hmem, rfl⟩
    have hsome : (items.find? (name · == name found)).isSome :=
      List.find?_isSome.2 ⟨found, hmem, by simp⟩
    obtain ⟨other, hother⟩ := Option.isSome_iff_exists.1 hsome
    rw [hother]
    exact congrArg some (List.inj_on_of_nodup_map hnodup (List.mem_of_find?_eq_some hother) hmem
      (by simpa using List.find?_some hother))

/-- Where names are different, the order does not matter to what is found. -/
theorem find?_perm (hnodup : (items.map name).Nodup) (h : items.Perm others) (key : String) :
    items.find? (name · == key) = others.find? (name · == key) := by
  ext found
  rw [find?_eq_some_iff hnodup, find?_eq_some_iff ((h.map name).nodup_iff.1 hnodup), h.mem_iff]

end Names

end TableExport.Entries
