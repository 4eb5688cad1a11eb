/-
This file adds to finite association tables the operations Mathlib leaves
out: rewriting every value in place, and dropping some of them on the way.
-/

import Mathlib

namespace AList

variable {Key Value Other : Type} [DecidableEq Key]

/-- Apply a function to every value of a table. -/
def mapValues (change : Value → Other) (table : AList fun _ : Key => Value) :
    AList fun _ : Key => Other :=
  ⟨table.entries.map fun entry => ⟨entry.1, change entry.2⟩,
    List.NodupKeys.map₂ (fun _ value => change value) table.entries table.nodupKeys⟩

@[simp]
theorem lookup_mapValues (change : Value → Other) (table : AList fun _ : Key => Value)
    (key : Key) : (table.mapValues change).lookup key = (table.lookup key).map change :=
  List.dlookup_map₂ (l := table.entries) (f := fun _ value => change value) key

@[simp]
theorem mem_mapValues (change : Value → Other) (table : AList fun _ : Key => Value) (key : Key) :
    key ∈ table.mapValues change ↔ key ∈ table := by
  rw [← lookup_isSome, lookup_mapValues, Option.isSome_map, lookup_isSome]

theorem exists_lookup {table : AList fun _ : Key => Value} {key : Key} (member : key ∈ table) :
    ∃ value, table.lookup key = some value :=
  Option.isSome_iff_exists.mp (lookup_isSome.mpr member)

/-- Looking up a table after an insertion, as one equation. -/
theorem lookup_insert_eq_ite (key other : Key) (value : Value)
    (table : AList fun _ : Key => Value) :
    (table.insert key value).lookup other = if other = key then some value
      else table.lookup other := by
  split
  · next same => rw [same, lookup_insert]
  · next differs => rw [lookup_insert_ne differs]

theorem lookup_erase_eq_ite (key other : Key) (table : AList fun _ : Key => Value) :
    (table.erase key).lookup other = if other = key then none else table.lookup other := by
  split
  · next same => rw [same, lookup_erase]
  · next differs => rw [lookup_erase_ne differs]


/-! ### Rewriting values and dropping some of them -/

/-- What a function of the values leaves of the entries. -/
def filterMapEntries (change : Value → Option Value) (entries : List (Σ _ : Key, Value)) :
    List (Σ _ : Key, Value) :=
  entries.filterMap fun entry => (change entry.2).map fun value => ⟨entry.1, value⟩

omit [DecidableEq Key] in
theorem keys_filterMapEntries (change : Value → Option Value) (entries : List (Σ _ : Key, Value)) :
    (filterMapEntries change entries).keys.Sublist entries.keys := by
  induction entries with
  | nil => exact List.Sublist.refl []
  | cons entry rest inductionHypothesis =>
    unfold filterMapEntries at inductionHypothesis ⊢
    rw [List.filterMap_cons]
    cases change entry.2 with
    | none => exact inductionHypothesis.cons entry.1
    | some value => exact inductionHypothesis.cons_cons entry.1

/-- Apply a function to every value of a table. A key whose value has no image is dropped. -/
def filterMapValues (change : Value → Option Value) (table : AList fun _ : Key => Value) :
    AList fun _ : Key => Value :=
  ⟨filterMapEntries change table.entries,
    (keys_filterMapEntries change table.entries).nodup table.nodupKeys⟩

@[simp]
theorem lookup_filterMapValues (change : Value → Option Value)
    (table : AList fun _ : Key => Value) (key : Key) :
    (table.filterMapValues change).lookup key = (table.lookup key).bind change := by
  refine Option.ext fun value => ?_
  rw [← Option.mem_def, mem_lookup_iff]
  simp only [filterMapValues, filterMapEntries, List.mem_filterMap, Option.map_eq_some_iff,
    Option.bind_eq_some_iff]
  constructor
  · rintro ⟨⟨other, old⟩, member, new, image, same⟩
    cases same
    exact ⟨old, mem_lookup_iff.mpr member, image⟩
  · rintro ⟨old, found, image⟩
    exact ⟨⟨key, old⟩, mem_lookup_iff.mp found, value, image, rfl⟩

end AList
