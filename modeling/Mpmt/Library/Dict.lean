import Mathlib.Data.List.Nodup
import Mathlib.Data.List.Basic

/-!
# Dictionaries in insertion order

A dictionary lists its entries in the order in which their keys were first
set, and carries the proof that no key occurs twice.
-/

/-- A finite map that remembers the order in which its keys were first set. -/
structure Dict (K V : Type) where
  entries : List (K × V)
  nodup : (entries.map Prod.fst).Nodup

namespace Dict

variable {K V : Type}

@[ext]
theorem ext
    {d d' : Dict K V}
    (same : d.entries = d'.entries) : d = d' := by
  cases d
  cases d'
  simpa using same

/-- The dictionary without entries. -/
def empty : Dict K V := ⟨[], by simp⟩

instance : EmptyCollection (Dict K V) := ⟨empty⟩

instance : Inhabited (Dict K V) := ⟨empty⟩

instance [DecidableEq K] [DecidableEq V] : DecidableEq (Dict K V) := fun _ _ =>
  decidable_of_iff _ Dict.ext_iff.symm

/-- The number of entries. -/
def size (d : Dict K V) : Nat := d.entries.length

variable [DecidableEq K]

/-! ## Operations on entry lists -/

/-- Give `key` the value `value`: in place when the key occurs, at the end
otherwise. -/
def setEntry (key : K) (value : V) : List (K × V) -> List (K × V)
  | [] => [(key, value)]
  | entry :: rest =>
      if entry.1 = key then (key, value) :: rest
      else entry :: setEntry key value rest

theorem keys_setEntry (key : K) (value : V) (entries : List (K × V)) :
    (setEntry key value entries).map Prod.fst =
      if key ∈ entries.map Prod.fst then entries.map Prod.fst
      else entries.map Prod.fst ++ [key] := by
  induction entries with
  | nil => simp [setEntry]
  | cons entry rest ih =>
      by_cases same : entry.1 = key
      · simp [setEntry, same]
      · rw [setEntry, if_neg same, List.map_cons, ih]
        have different : key ≠ entry.1 := fun h => same h.symm
        by_cases member : key ∈ rest.map Prod.fst
        · rw [if_pos member, if_pos (by simp [List.mem_cons, member]),
            List.map_cons]
        · rw [if_neg member, if_neg (by
            rw [List.map_cons, List.mem_cons]
            exact fun h => h.elim different member)]
          rfl

theorem nodup_setEntry
    (key : K)
    (value : V)
    {entries : List (K × V)}
    (nodup : (entries.map Prod.fst).Nodup) :
    ((setEntry key value entries).map Prod.fst).Nodup := by
  rw [keys_setEntry]
  split
  · exact nodup
  · next absent =>
      rw [List.nodup_append]
      exact ⟨nodup, by simp, by
        intro a member b last
        rw [List.mem_singleton] at last
        exact fun same => absent (last ▸ same ▸ member)⟩

theorem lookup_setEntry
    (key : K)
    (value : V)
    (entries : List (K × V))
    (other : K) :
    (setEntry key value entries).lookup other =
      if other = key then some value else entries.lookup other := by
  induction entries with
  | nil =>
      by_cases same : other = key
      · simp [setEntry, same]
      · simp [setEntry, List.lookup_cons, same, beq_eq_false_iff_ne.mpr same]
  | cons entry rest ih =>
      by_cases same : entry.1 = key
      · rw [setEntry, if_pos same, List.lookup_cons, List.lookup_cons, same]
        by_cases other_key : other = key
        · simp [other_key]
        · simp [other_key, beq_eq_false_iff_ne.mpr other_key]
      · rw [setEntry, if_neg same, List.lookup_cons, List.lookup_cons, ih]
        by_cases first : other = entry.1
        · have different : other ≠ key := fun h => same (first ▸ h)
          simp [first, same]
        · simp [beq_eq_false_iff_ne.mpr first]

/-! ## Reading, setting and deleting -/

/-- The value at `key`. -/
def get? (d : Dict K V) (key : K) : Option V := d.entries.lookup key

/-- Give `key` the value `value`. -/
def set (d : Dict K V) (key : K) (value : V) : Dict K V :=
  ⟨setEntry key value d.entries, nodup_setEntry key value d.nodup⟩

/-- Drop the entry at `key`, if there is one. -/
def del (d : Dict K V) (key : K) : Dict K V where
  entries := d.entries.filter fun entry => entry.1 ≠ key
  nodup := d.nodup.sublist (List.filter_sublist.map _)

instance : Membership K (Dict K V) := ⟨fun d key => (d.get? key).isSome⟩

theorem mem_iff {d : Dict K V} {key : K} : key ∈ d ↔ (d.get? key).isSome :=
  Iff.rfl

theorem mem_of_get?
    {d : Dict K V}
    {key : K}
    (found : d.get? key = some value) : key ∈ d := by
  simp [mem_iff, found]

theorem get?_eq_none_of_not_mem
    {d : Dict K V}
    {key : K}
    (absent : key ∉ d) : d.get? key = none := by
  simpa [mem_iff] using absent

instance (d : Dict K V) (key : K) : Decidable (key ∈ d) :=
  inferInstanceAs (Decidable ((d.get? key).isSome = true))

@[simp]
theorem get?_empty (key : K) : (∅ : Dict K V).get? key = none := rfl

theorem get?_set (d : Dict K V) (key : K) (value : V) (other : K) :
    (d.set key value).get? other =
      if other = key then some value else d.get? other :=
  lookup_setEntry key value d.entries other

@[simp]
theorem get?_set_self (d : Dict K V) (key : K) (value : V) :
    (d.set key value).get? key = some value := by
  rw [get?_set, if_pos rfl]

theorem get?_set_of_ne
    (d : Dict K V)
    (value : V)
    {key other : K}
    (different : other ≠ key) : (d.set key value).get? other = d.get? other := by
  rw [get?_set, if_neg different]

theorem lookup_filter_ne
    (key other : K)
    (entries : List (K × V)) :
    (entries.filter fun entry => entry.1 ≠ key).lookup other =
      if other = key then none else entries.lookup other := by
  induction entries with
  | nil => simp
  | cons entry rest ih =>
      by_cases same : entry.1 = key
      · rw [List.filter_cons_of_neg (by simp [same]), ih, List.lookup_cons]
        by_cases other_key : other = key
        · simp [other_key]
        · simp [other_key, same, beq_eq_false_iff_ne.mpr other_key]
      · rw [List.filter_cons_of_pos (by simp [same]), List.lookup_cons,
          List.lookup_cons, ih]
        by_cases first : other = entry.1
        · simp [first, same]
        · simp [beq_eq_false_iff_ne.mpr first]

theorem get?_del (d : Dict K V) (key other : K) :
    (d.del key).get? other = if other = key then none else d.get? other :=
  lookup_filter_ne key other d.entries

@[simp]
theorem get?_del_self (d : Dict K V) (key : K) :
    (d.del key).get? key = none := by
  rw [get?_del, if_pos rfl]

theorem get?_del_of_ne
    (d : Dict K V)
    {key other : K}
    (different : other ≠ key) : (d.del key).get? other = d.get? other := by
  rw [get?_del, if_neg different]

/-- An entry is what reading its key gives. -/
theorem mem_entries_iff
    {d : Dict K V}
    {key : K}
    {value : V} :
    (key, value) ∈ d.entries ↔ d.get? key = some value := by
  obtain ⟨entries, nodup⟩ := d
  unfold get?
  dsimp only
  induction entries with
  | nil => simp
  | cons entry rest ih =>
      rw [List.map_cons, List.nodup_cons] at nodup
      rw [List.lookup_cons, List.mem_cons]
      by_cases first : key = entry.1
      · have absent : (key, value) ∉ rest := fun member =>
          nodup.1 (first ▸ List.mem_map_of_mem (f := Prod.fst) member)
        rw [first, beq_self_eq_true]
        simp only [Option.some.injEq]
        constructor
        · rintro (same | member)
          · rw [← same]
          · exact absurd (first ▸ member) absent
        · rintro rfl
          exact .inl rfl
      · rw [beq_eq_false_iff_ne.mpr first]
        simp only
        rw [← ih nodup.2]
        constructor
        · rintro (same | member)
          · exact absurd (congrArg Prod.fst same) first
          · exact member
        · exact .inr

/-! ## All entries at once -/

/-- Change every value, given its key. -/
def mapValues (d : Dict K V) (f : K -> V -> V) : Dict K V where
  entries := d.entries.map fun entry => (entry.1, f entry.1 entry.2)
  nodup := by simpa [Function.comp_def] using d.nodup

theorem get?_mapValues (d : Dict K V) (f : K -> V -> V) (key : K) :
    (d.mapValues f).get? key = (d.get? key).map (f key) := by
  obtain ⟨entries, nodup⟩ := d
  unfold get? mapValues
  dsimp only
  clear nodup
  induction entries with
  | nil => rfl
  | cons entry rest ih =>
      rw [List.map_cons, List.lookup_cons, List.lookup_cons]
      by_cases first : key = entry.1
      · simp [first]
      · simp only [beq_eq_false_iff_ne.mpr first]
        exact ih

/-- Keep the entries whose key satisfies `kept`. -/
def filterKeys (d : Dict K V) (kept : K -> Bool) : Dict K V where
  entries := d.entries.filter fun entry => kept entry.1
  nodup := d.nodup.sublist (List.filter_sublist.map _)

theorem get?_filterKeys (d : Dict K V) (kept : K -> Bool) (key : K) :
    (d.filterKeys kept).get? key = if kept key then d.get? key else none := by
  obtain ⟨entries, nodup⟩ := d
  unfold get? filterKeys
  dsimp only
  clear nodup
  induction entries with
  | nil => simp
  | cons entry rest ih =>
      rw [List.filter_cons, List.lookup_cons]
      by_cases first : key = entry.1
      · subst first
        cases keeps : kept entry.1 with
        | true =>
            simp only [if_true, beq_self_eq_true]
            rw [List.lookup_cons, beq_self_eq_true]
        | false =>
            rw [keeps] at ih
            simpa [keeps] using ih
      · simp only [beq_eq_false_iff_ne.mpr first]
        split
        · rw [List.lookup_cons, beq_eq_false_iff_ne.mpr first]
          exact ih
        · exact ih

/-! ## Building a dictionary -/

/-- Set the entries of a list one after another. -/
def setAll (d : Dict K V) (entries : List (K × V)) : Dict K V :=
  entries.foldl (fun d entry => d.set entry.1 entry.2) d

theorem get?_setAll_of_not_mem
    (d : Dict K V)
    {entries : List (K × V)}
    (absent : key ∉ entries.map Prod.fst) : (d.setAll entries).get? key = d.get? key := by
  induction entries generalizing d with
  | nil => rfl
  | cons entry rest ih =>
      rw [List.map_cons, List.mem_cons, not_or] at absent
      exact (ih (d.set entry.1 entry.2) absent.2).trans (get?_set_of_ne d entry.2 absent.1)

theorem get?_setAll_of_mem
    (d : Dict K V)
    {entries : List (K × V)}
    (member : key ∈ entries.map Prod.fst) :
    ∃ value, (key, value) ∈ entries ∧ (d.setAll entries).get? key = some value := by
  induction entries generalizing d with
  | nil => cases member
  | cons entry rest ih =>
      by_cases later : key ∈ rest.map Prod.fst
      · obtain ⟨value, inside, found⟩ := ih (d.set entry.1 entry.2) later
        exact ⟨value, List.mem_cons_of_mem _ inside, found⟩
      · rcases List.mem_cons.mp member with rfl | inside
        · refine ⟨entry.2, List.mem_cons_self, ?_⟩
          exact (get?_setAll_of_not_mem (d.set entry.1 entry.2) later).trans
            (get?_set_self d entry.1 entry.2)
        · exact absurd inside later

/-- A new key goes to the end. -/
theorem setEntry_of_absent
    {entries : List (K × V)}
    (absent : key ∉ entries.map Prod.fst)
    (value : V) : setEntry key value entries = entries ++ [(key, value)] := by
  induction entries with
  | nil => rfl
  | cons entry rest ih =>
      rw [List.map_cons, List.mem_cons, not_or] at absent
      rw [setEntry, if_neg fun same => absent.1 same.symm, ih absent.2,
        List.cons_append]

theorem entries_setAll
    (d : Dict K V)
    (entries : List (K × V))
    (nodup : ((d.entries ++ entries).map Prod.fst).Nodup) :
    (d.setAll entries).entries = d.entries ++ entries := by
  induction entries generalizing d with
  | nil => simp [setAll]
  | cons entry rest ih =>
      have absent : entry.1 ∉ d.entries.map Prod.fst := by
        intro member
        rw [List.map_append, List.nodup_append] at nodup
        exact nodup.2.2 _ member _ (by simp) rfl
      have next : (d.set entry.1 entry.2).entries = d.entries ++ [entry] :=
        setEntry_of_absent absent entry.2
      have step : d.setAll (entry :: rest) =
          (d.set entry.1 entry.2).setAll rest := rfl
      rw [step, ih, next, List.append_assoc, List.singleton_append]
      rw [next, List.append_assoc, List.singleton_append]
      exact nodup

/-- Setting the entries of a dictionary in their order builds it again. -/
theorem setAll_entries (d : Dict K V) : (∅ : Dict K V).setAll d.entries = d := by
  apply Dict.ext
  exact entries_setAll ∅ d.entries d.nodup

end Dict
