import ActionUnits.Log
import ActionUnits.Unit.Class

/-!
# Registries

A registry pairs each generated type with the id of its action.
-/

namespace ActionUnits

/-- An entry of a registry. -/
structure RegistryEntry where
  ident : Ident
  discriminator : String
deriving DecidableEq

/-- The registry of a unit. -/
structure Registry where
  ident : Ident
  companion : Ident
  datasetType : Source.Fragment Source.Node
  entries : List RegistryEntry

namespace Registry

/-- The entry of a generated type. -/
def entryOf (decl : ClassDecl) : RegistryEntry :=
  ⟨decl.ident, decl.discriminator⟩

/-! ## Repeated ids -/

def countOnce (id : String) : List (String × Nat) → List (String × Nat)
  | [] => [(id, 1)]
  | (key, n) :: counts =>
    if key = id then (key, n + 1) :: counts else (key, n) :: countOnce id counts

/-- How often each id occurs. -/
def countIds (ids : List String) : List (String × Nat) :=
  ids.foldl (fun counts id => countOnce id counts) []

/-- Adds an id to the ones found before if it is counted more than once and not among them. There
is no result if it is not counted at all. -/
def addRepeated? (counts : List (String × Nat)) (found : List String) (id : String) :
    Option (List String) := do
  let n ← counts.lookup id
  return if 1 < n ∧ id ∉ found then found ++ [id] else found

/-- Ids that occur more than once, in the order of their first occurrences. -/
def repeated? (ids : List String) : Option (List String) :=
  ids.foldlM (addRepeated? (countIds ids)) []

theorem lookup_cons_eq_ite (key first : String) (n : Nat) (counts : List (String × Nat)) :
    ((first, n) :: counts).lookup key = if key = first then some n else counts.lookup key := by
  by_cases h : key = first
  · rw [if_pos h, h, List.lookup_cons_self]
  · rw [if_neg h, List.lookup_cons, beq_false_of_ne h]

/-- Counting an id adds one to its count. -/
theorem lookup_countOnce (id key : String) (counts : List (String × Nat)) :
    (countOnce id counts).lookup key =
      if key = id then some ((counts.lookup key).getD 0 + 1) else counts.lookup key := by
  induction counts with
  | nil => rw [countOnce, lookup_cons_eq_ite]; rfl
  | cons entry counts ih =>
    obtain ⟨first, n⟩ := entry
    by_cases hfirst : first = id
    · subst hfirst
      simp only [countOnce, ↓reduceIte, lookup_cons_eq_ite]
      split <;> rfl
    · simp only [countOnce, hfirst, ↓reduceIte, lookup_cons_eq_ite, ih]
      by_cases hkey : key = first
      · rw [if_pos hkey, if_pos hkey, if_neg (hkey ▸ hfirst)]
      · rw [if_neg hkey, if_neg hkey]

/-- Counting goes on from the counts that are there already. -/
theorem lookup_foldl_countOnce (ids : List String) (counts : List (String × Nat)) (key : String) :
    (ids.foldl (fun counts id => countOnce id counts) counts).lookup key =
      if key ∈ ids then some ((counts.lookup key).getD 0 + ids.count key)
      else counts.lookup key := by
  induction ids generalizing counts with
  | nil => rfl
  | cons id ids ih =>
    rw [List.foldl_cons, ih, lookup_countOnce]
    by_cases hid : key = id
    · subst hid
      rw [if_pos rfl, if_pos List.mem_cons_self, List.count_cons_self, Option.getD_some]
      split
      · congr 1
        omega
      · rw [List.count_eq_zero.mpr ‹_›]
    · simp only [hid, ↓reduceIte, List.mem_cons, false_or, List.count_cons_of_ne (Ne.symm hid)]

/-- Every id that occurs is counted, and no other. -/
theorem lookup_countIds (ids : List String) (key : String) :
    (countIds ids).lookup key = if key ∈ ids then some (ids.count key) else none := by
  rw [countIds, lookup_foldl_countOnce]
  simp

/-- An id is listed when it has been counted more than once and is not listed yet. -/
theorem addRepeated?_of_lookup {counts : List (String × Nat)} {id : String} {n : Nat}
    (h : counts.lookup id = some n) (found : List String) :
    addRepeated? counts found id =
      some (if 1 < n ∧ id ∉ found then found ++ [id] else found) := by
  rw [addRepeated?, h]
  rfl

/-- The search ends with a result where each id is counted. -/
theorem foldlM_addRepeated?_isSome {counts : List (String × Nat)} {ids : List String}
    (h : ∀ id ∈ ids, (counts.lookup id).isSome) (found : List String) :
    (ids.foldlM (addRepeated? counts) found).isSome := by
  induction ids generalizing found with
  | nil => rfl
  | cons id ids ih =>
    obtain ⟨hid, hids⟩ := List.forall_mem_cons.mp h
    obtain ⟨n, hn⟩ := Option.isSome_iff_exists.mp hid
    rw [List.foldlM_cons, addRepeated?_of_lookup hn]
    exact ih hids _

/-- The lookup of a counted id never fails. -/
theorem repeated?_isSome (ids : List String) : (repeated? ids).isSome :=
  foldlM_addRepeated?_isSome (fun id hid => by simp [lookup_countIds, hid]) []

/-- Ids of entries that occur more than once, in the order of their first occurrences. -/
def duplicates (entries : List RegistryEntry) : List String :=
  (repeated? (entries.map (·.discriminator))).get (repeated?_isSome _)

theorem repeated?_eq_duplicates (entries : List RegistryEntry) :
    repeated? (entries.map (·.discriminator)) = some (duplicates entries) :=
  (Option.some_get _).symm

/-! ## Registries of generated types -/

/-- The registry of generated types, one entry each, in order. -/
def ofClasses (ident companion : Ident) (datasetType : Source.Fragment Source.Node)
    (classes : List ClassDecl) : Registry :=
  ⟨ident, companion, datasetType, classes.map entryOf⟩

def warnings (registry : Registry) : List Event :=
  (duplicates registry.entries).map (.duplicateId registry.ident.text)

end Registry

end ActionUnits
