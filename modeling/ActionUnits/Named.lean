/-!
# Named values

Lists of values with names, in which a name counts where it occurs first.
-/

namespace ActionUnits.Named

variable {α : Type}

def set (name : String) (value : α) : List (String × α) → List (String × α)
  | [] => [(name, value)]
  | entry :: entries =>
    if entry.1 == name then (name, value) :: entries else entry :: set name value entries

theorem lookup_set_self (name : String) (value : α) (entries : List (String × α)) :
    (set name value entries).lookup name = some value := by
  induction entries with
  | nil => simp [set]
  | cons entry entries ih =>
    obtain ⟨key, old⟩ := entry
    by_cases h : key = name
    · simp [set, h]
    · have hne : (name == key) = false := beq_false_of_ne (Ne.symm h)
      simp [set, List.lookup_cons, h, hne, ih]

theorem lookup_set_of_ne {name other : String} (h : other ≠ name) (value : α)
    (entries : List (String × α)) :
    (set name value entries).lookup other = entries.lookup other := by
  have hne : (other == name) = false := beq_false_of_ne h
  induction entries with
  | nil => simp [set, List.lookup_cons, hne]
  | cons entry entries ih =>
    obtain ⟨key, old⟩ := entry
    by_cases hk : key = name
    · simp [set, List.lookup_cons, hk, hne]
    · simp only [set, List.lookup_cons, beq_iff_eq, hk, if_false, ih]

/-- After setting, an entry is the one that was set or was there before. -/
theorem mem_set {name : String} {value : α} {entries : List (String × α)} {entry : String × α}
    (h : entry ∈ set name value entries) : entry = (name, value) ∨ entry ∈ entries := by
  induction entries with
  | nil => exact .inl (List.mem_singleton.mp h)
  | cons first entries ih =>
    rw [set] at h
    split at h
    · rcases List.mem_cons.mp h with h | h
      · exact .inl h
      · exact .inr (List.mem_cons_of_mem _ h)
    · rcases List.mem_cons.mp h with rfl | h
      · exact .inr List.mem_cons_self
      · exact (ih h).imp_right (List.mem_cons_of_mem _)

/-- The names stay where they are; a new one comes last. -/
theorem names_set (name : String) (value : α) (entries : List (String × α)) :
    (set name value entries).map Prod.fst =
      if name ∈ entries.map Prod.fst then entries.map Prod.fst
      else entries.map Prod.fst ++ [name] := by
  induction entries with
  | nil => rfl
  | cons first entries ih =>
    by_cases hfirst : first.1 = name
    · simp [set, hfirst]
    · rw [set, if_neg (by simpa using hfirst), List.map_cons, ih]
      simp only [List.map_cons, List.mem_cons, Ne.symm hfirst, false_or]
      split <;> rfl

/-- A value that is looked up is in the list. -/
theorem mem_of_lookup {name : String} {value : α} {entries : List (String × α)}
    (h : entries.lookup name = some value) : (name, value) ∈ entries := by
  obtain ⟨before, after, rfl, -⟩ := List.lookup_eq_some_iff.mp h
  exact List.mem_append_right _ List.mem_cons_self

/-- A value is found under its name if no name occurs twice. -/
theorem lookup_of_mem {name : String} {value : α} {entries : List (String × α)}
    (hnodup : (entries.map Prod.fst).Nodup) (h : (name, value) ∈ entries) :
    entries.lookup name = some value := by
  obtain ⟨before, after, rfl⟩ := List.append_of_mem h
  refine List.lookup_eq_some_iff.mpr ⟨before, after, rfl, fun entry hentry => ?_⟩
  rw [List.map_append, List.map_cons] at hnodup
  have hdisjoint := (List.nodup_append.mp hnodup).2.2
  exact bne_iff_ne.mpr (Ne.symm (hdisjoint _ (List.mem_map_of_mem hentry) _ List.mem_cons_self))

end ActionUnits.Named
